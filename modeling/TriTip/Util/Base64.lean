import Mathlib.Data.List.Induction
import TriTip.Lib.Alphabet
import TriTip.Lib.BitString

/-!
# Base 64

`EncodeBase64` and `DecodeBase64` of `util.cpp`. The encoder takes 8 bits and gives 6, the decoder
the other way around; each keeps the bits that it has taken and not given in `left`, as many as
`mode` says. Both therefore read the same string of bits in groups (`Encoded`, `Decoded`), and
decoding gives back what was encoded (`DecodeBase64_EncodeBase64`). What it accepts is an encoding
and anything behind it that is not of the alphabet (`DecodeBase64_valid_iff`).
-/

namespace TriTip

open BitString

def pbase64 : List UInt8 :=
  [ 'A', 'B', 'C', 'D', 'E', 'F', 'G', 'H', 'I', 'J', 'K', 'L', 'M',
    'N', 'O', 'P', 'Q', 'R', 'S', 'T', 'U', 'V', 'W', 'X', 'Y', 'Z',
    'a', 'b', 'c', 'd', 'e', 'f', 'g', 'h', 'i', 'j', 'k', 'l', 'm',
    'n', 'o', 'p', 'q', 'r', 's', 't', 'u', 'v', 'w', 'x', 'y', 'z',
    '0', '1', '2', '3', '4', '5', '6', '7', '8', '9', '+', '/'].map Char.toUInt8

def decode64_table : List Int :=
  [ -1, -1, -1, -1, -1, -1, -1, -1, -1, -1, -1, -1, -1, -1, -1, -1, -1, -1, -1, -1,
    -1, -1, -1, -1, -1, -1, -1, -1, -1, -1, -1, -1, -1, -1, -1, -1, -1, -1, -1, -1,
    -1, -1, -1, 62, -1, -1, -1, 63, 52, 53, 54, 55, 56, 57, 58, 59, 60, 61, -1, -1,
    -1, -1, -1, -1, -1,  0,  1,  2,  3,  4,  5,  6,  7,  8,  9, 10, 11, 12, 13, 14,
    15, 16, 17, 18, 19, 20, 21, 22, 23, 24, 25, -1, -1, -1, -1, -1, -1, 26, 27, 28,
    29, 30, 31, 32, 33, 34, 35, 36, 37, 38, 39, 40, 41, 42, 43, 44, 45, 46, 47, 48,
    49, 50, 51, -1, -1, -1, -1, -1, -1, -1, -1, -1, -1, -1, -1, -1, -1, -1, -1, -1,
    -1, -1, -1, -1, -1, -1, -1, -1, -1, -1, -1, -1, -1, -1, -1, -1, -1, -1, -1, -1,
    -1, -1, -1, -1, -1, -1, -1, -1, -1, -1, -1, -1, -1, -1, -1, -1, -1, -1, -1, -1,
    -1, -1, -1, -1, -1, -1, -1, -1, -1, -1, -1, -1, -1, -1, -1, -1, -1, -1, -1, -1,
    -1, -1, -1, -1, -1, -1, -1, -1, -1, -1, -1, -1, -1, -1, -1, -1, -1, -1, -1, -1,
    -1, -1, -1, -1, -1, -1, -1, -1, -1, -1, -1, -1, -1, -1, -1, -1, -1, -1, -1, -1,
    -1, -1, -1, -1, -1, -1, -1, -1, -1, -1, -1, -1, -1, -1, -1, -1]

/-- What the loops of the encoder and of the decoder keep. -/
structure Base64State where
  ret : List UInt8
  mode : Nat
  left : Nat

namespace Base64State

def start : Base64State := ⟨[], 0, 0⟩

/-- A byte to encode. -/
def encode (s : Base64State) (c : UInt8) : Base64State :=
  let enc := c.toNat
  match s.mode with
  | 0 => ⟨s.ret ++ [pbase64.getD (enc >>> 2) 0], 1, (enc &&& 3) <<< 4⟩
  | 1 => ⟨s.ret ++ [pbase64.getD (s.left ||| (enc >>> 4)) 0], 2, (enc &&& 15) <<< 2⟩
  | 2 =>
    ⟨s.ret ++ [pbase64.getD (s.left ||| (enc >>> 6)) 0, pbase64.getD (enc &&& 63) 0], 0, s.left⟩
  | _ => s

/-- Six bits that were decoded. -/
def decode (s : Base64State) (dec : Nat) : Base64State :=
  match s.mode with
  | 0 => ⟨s.ret, 1, dec⟩
  | 1 => ⟨s.ret ++ [UInt8.ofNat ((s.left <<< 2) ||| (dec >>> 4))], 2, dec &&& 15⟩
  | 2 => ⟨s.ret ++ [UInt8.ofNat ((s.left <<< 4) ||| (dec >>> 2))], 3, dec &&& 3⟩
  | 3 => ⟨s.ret ++ [UInt8.ofNat ((s.left <<< 6) ||| dec)], 0, s.left⟩
  | _ => s

end Base64State

def EncodeBase64 (pch : List UInt8) : List UInt8 :=
  let s := pch.foldl Base64State.encode .start
  if s.mode ≠ 0 then
    s.ret ++ [pbase64.getD s.left 0, '='.toUInt8] ++ if s.mode = 1 then ['='.toUInt8] else []
  else s.ret

/-- The entry for a character, where the string ends with a null. -/
def decodeChar (p : List UInt8) (i : Nat) : Int := decode64_table.getD (p.getD i 0).toNat (-1)

/-- The characters before the first one that is not of the table, with those from there on. -/
def DecodeBase64.loop (s : Base64State) : List UInt8 → Base64State × List UInt8
  | [] => (s, [])
  | c :: p =>
    let dec := decodeChar (c :: p) 0
    if dec = -1 then (s, c :: p) else loop (s.decode dec.toNat) p

/-- The bytes, and `*pfInvalid`. -/
def DecodeBase64 (p : List UInt8) : List UInt8 × Bool :=
  let (s, p) := DecodeBase64.loop .start p
  let pfInvalid :=
    match s.mode with
    | 1 => true
    | 2 =>
      s.left ≠ 0 || p.getD 0 0 ≠ '='.toUInt8 || p.getD 1 0 ≠ '='.toUInt8 || decodeChar p 2 ≠ -1
    | 3 => s.left ≠ 0 || p.getD 0 0 ≠ '='.toUInt8 || decodeChar p 1 ≠ -1
    | _ => false
  (s.ret, pfInvalid)

/-- The characters for groups of six bits. -/
def characters (l : List Nat) : List UInt8 := l.map fun x => pbase64.getD x 0

def base64 : Alphabet UInt8 where
  size := 64
  char x := pbase64.getD x 0
  entry c := decode64_table.getD c.toNat (-1)
  entry_char := by decide
  entry_lt := Alphabet.forall_entry (P := fun _ x => x ≠ -1 → x.toNat < 64) (by decide +kernel)
    (by decide +kernel)

/-- The table has a number only for the character that the number is encoded as. -/
theorem char_number_base64 :
    ∀ c, base64.isDigit c = true → base64.char (base64.number c) = c :=
  Alphabet.forall_entry (t := decode64_table)
    (P := fun c x => (x != -1) = true → pbase64.getD x.toNat 0 = c) (by decide +kernel)
    (by decide +kernel)

theorem base64_text (l : List Nat) : base64.text l = characters l := rfl

theorem DecodeBase64.loop_eq (s : Base64State) (p : List UInt8) :
    loop s p = ((base64.digits p).foldl Base64State.decode s, base64.rest p) :=
  Alphabet.loop_eq loop (fun _ => rfl) (fun _ _ _ => rfl) s

theorem digits_eq_nil_iff {t : List UInt8} : base64.digits t = [] ↔ decodeChar t 0 = -1 := by
  cases t with
  | nil => exact iff_of_true rfl rfl
  | cons c t => exact Alphabet.digits_cons_eq_nil_iff

/-- Every string is characters of the table, and then one that is not or nothing. -/
theorem characters_digits (s : List UInt8) : characters (base64.digits s) ++ base64.rest s = s := by
  have htext := base64.text_digits (s := s) id char_number_base64
  rw [List.map_id] at htext
  rw [← base64_text, htext]
  exact List.takeWhile_append_dropWhile

namespace Base64State

section encode

/-- The groups that were given, and the number `p` that is left. -/
structure Encoded (b : List UInt8) (l : List Nat) (p : Nat) (s : Base64State) : Prop where
  ret : s.ret = characters l
  mode : s.mode < 3
  left : s.mode ≠ 0 → s.left = p <<< (6 - 2 * s.mode)
  regroup : Regroup 8 6 (b.map UInt8.toNat) l (2 * s.mode) p

variable {b : List UInt8} {l : List Nat} {p : Nat} {s : Base64State}

theorem encoded_start : Encoded [] [] 0 .start where
  ret := rfl
  mode := by decide
  left h := absurd rfl h
  regroup := .start 8 6

/-- One more byte is taken, and the first of its bits complete a group of six. -/
theorem take_byte {a : Nat} (h : Regroup 8 6 (b.map UInt8.toNat) l a p) (ha : a ≤ 6) (c : UInt8) :
    Regroup 8 6 ((b ++ [c]).map UInt8.toNat)
      (l ++ [p <<< (6 - a) ||| c.toNat >>> (a + 8 - 6)]) (a + 8 - 6)
      (c.toNat &&& (2 ^ (a + 8 - 6) - 1)) := by
  rw [List.map_append, List.map_singleton]
  exact h.give c.toNat_lt ha (by omega)

theorem Encoded.encode (h : Encoded b l p s) (c : UInt8) :
    ∃ l' p', Encoded (b ++ [c]) l' p' (s.encode c) := by
  obtain ⟨hret, hmode, hleft, hgroup⟩ := h
  obtain ⟨ret, mode, left⟩ := s
  simp only at hret hmode hleft hgroup
  have htake := take_byte hgroup (by omega) c
  match mode with
  | 0 =>
    have hzero : p = 0 := Nat.lt_one_iff.mp hgroup.lt_left
    rw [hzero, Nat.zero_shiftLeft, Nat.zero_or] at htake
    refine ⟨_, _, ?_, Nat.one_lt_succ_succ 1, fun _ => rfl, htake⟩
    simp [Base64State.encode, hret, characters]
  | 1 =>
    refine ⟨_, _, ?_, Nat.lt_succ_self 2, fun _ => rfl, htake⟩
    simp [Base64State.encode, hret, characters, hleft (by decide)]
  | 2 =>
    refine ⟨_, _, ?_, Nat.zero_lt_succ 2, fun h => absurd rfl h, htake.flush⟩
    simp [Base64State.encode, hret, characters, hleft (by decide)]

theorem encoded_foldl (b : List UInt8) :
    ∃ l p, Encoded b l p (b.foldl Base64State.encode .start) := by
  induction b using List.reverseRecOn with
  | nil => exact ⟨[], 0, encoded_start⟩
  | append_singleton b c ih =>
    obtain ⟨l, p, h⟩ := ih
    rw [List.foldl_append]
    exact h.encode c

/-- The characters are the bits in groups of six, with two zeros for each `=` behind them. -/
theorem EncodeBase64_eq (b : List UInt8) :
    ∃ l k, EncodeBase64 b = characters l ++ List.replicate k '='.toUInt8 ∧ k < 3 ∧
      (∀ x ∈ l, x < 2 ^ 6) ∧
      words 6 l = words 8 (b.map UInt8.toNat) ++ List.replicate (2 * k) false := by
  obtain ⟨l, p, hret, hmode, hleft, hgroup⟩ := encoded_foldl b
  unfold EncodeBase64
  generalize b.foldl Base64State.encode .start = s at *
  obtain ⟨ret, mode, left⟩ := s
  simp only at hret hmode hleft hgroup
  match mode with
  | 0 =>
    refine ⟨l, 0, ?_, by decide, hgroup.lt, ?_⟩
    · simp [hret]
    · simp [hgroup.bits, word]
  | 1 =>
    refine ⟨l ++ [p <<< 4], 2, ?_, by decide, hgroup.lt_pad (by decide),
      hgroup.words_pad (by decide)⟩
    simp [hret, hleft (by decide), characters, List.replicate_succ]
  | 2 =>
    refine ⟨l ++ [p <<< 2], 1, ?_, by decide, hgroup.lt_pad (by decide),
      hgroup.words_pad (by decide)⟩
    simp [hret, hleft (by decide), characters]

end encode

section decode

/-- The bits that are left in a mode. -/
def bitsLeft (mode : Nat) : Nat := (8 - 2 * mode) % 8

/-- The bytes that were given for groups of six bits. -/
structure Decoded (l : List Nat) (p : Nat) (s : Base64State) : Prop where
  mode : s.mode < 4
  left : s.mode ≠ 0 → s.left = p
  regroup : Regroup 6 8 l (s.ret.map UInt8.toNat) (bitsLeft s.mode) p

variable {l : List Nat} {p : Nat} {s : Base64State}

theorem decoded_start : Decoded [] 0 .start where
  mode := by decide
  left h := absurd rfl h
  regroup := .start 6 8

/-- Six more bits are taken, and a byte is given. -/
theorem give_byte {ret : List UInt8} {a n : Nat} (h : Regroup 6 8 l (ret.map UInt8.toNat) a p)
    (ha : a ≤ 8) (ha' : 2 ≤ a) (hn : n < 2 ^ 6) :
    Regroup 6 8 (l ++ [n])
      ((ret ++ [UInt8.ofNat (p <<< (8 - a) ||| n >>> (a + 6 - 8))]).map UInt8.toNat) (a + 6 - 8)
      (n &&& (2 ^ (a + 6 - 8) - 1)) := by
  have hgive := h.give hn ha (by omega)
  rwa [List.map_append, List.map_singleton,
    UInt8.toNat_ofNat_of_lt' (hgive.lt _ List.mem_concat_self)]

theorem Decoded.decode (h : Decoded l p s) {n : Nat} (hn : n < 2 ^ 6) :
    ∃ p', Decoded (l ++ [n]) p' (s.decode n) := by
  obtain ⟨hmode, hleft, hgroup⟩ := h
  obtain ⟨ret, mode, left⟩ := s
  simp only at hmode hleft hgroup
  match mode with
  | 0 => exact ⟨n, Nat.one_lt_succ_succ 2, fun _ => rfl, hgroup.keep hn⟩
  | 1 =>
    obtain rfl := hleft (by decide)
    exact ⟨n &&& 15, Nat.lt_of_sub_eq_succ rfl, fun _ => rfl,
      give_byte hgroup (by decide) (by decide) hn⟩
  | 2 =>
    obtain rfl := hleft (by decide)
    exact ⟨n &&& 3, Nat.lt_succ_self 3, fun _ => rfl,
      give_byte hgroup (by decide) (by decide) hn⟩
  | 3 =>
    obtain rfl := hleft (by decide)
    refine ⟨n &&& 0, Nat.zero_lt_succ 3, fun h => absurd rfl h, ?_⟩
    simp only [Base64State.decode]
    exact give_byte hgroup (by decide) (by decide) hn

theorem decoded_foldl (hl : ∀ x ∈ l, x < 2 ^ 6) :
    ∃ p, Decoded l p (l.foldl Base64State.decode .start) := by
  induction l using List.reverseRecOn with
  | nil => exact ⟨0, decoded_start⟩
  | append_singleton l n ih =>
    obtain ⟨p, h⟩ := ih fun x hx => hl x (List.mem_append_left [n] hx)
    rw [List.foldl_append]
    exact h.decode (hl n List.mem_concat_self)

/-- Where only zeros are left, and less than a character of them, the bytes are encoded as the
characters that they were decoded from. -/
theorem Decoded.EncodeBase64_ret {ret : List UInt8} {mode left k : Nat}
    (h : Decoded l 0 ⟨ret, mode, left⟩) (hl : ∀ x ∈ l, x < 2 ^ 6) (hk : k < 3)
    (hbits : bitsLeft mode = 2 * k) :
    EncodeBase64 ret = characters l ++ List.replicate k '='.toUInt8 := by
  obtain ⟨l', k', hencode, hk', hl', hwords'⟩ := EncodeBase64_eq ret
  have hwords := h.regroup.bits
  rw [word_zero, hbits] at hwords
  have hlength := congrArg List.length hwords
  have hlength' := congrArg List.length hwords'
  simp only [length_words, List.length_append, List.length_replicate] at hlength hlength'
  obtain rfl : k' = k := by omega
  obtain rfl := words_inj (by decide) hl hl' (hwords.trans hwords'.symm)
  exact hencode

end decode

end Base64State

section DecodeBase64

open Base64State

theorem eq_cons_of_getD {s : List UInt8} {c : UInt8} (hc : c ≠ 0) (h : s.getD 0 0 = c) :
    ∃ t, s = c :: t := by
  cases s with
  | nil => exact absurd h.symm hc
  | cons c' t => exact ⟨t, by rw [← h]; rfl⟩

/-- What is behind an encoding does not matter from a character on that is not of the table. -/
theorem DecodeBase64_append (b : List UInt8) {t : List UInt8} (ht : decodeChar t 0 = -1) :
    DecodeBase64 (EncodeBase64 b ++ t) = (b, false) := by
  obtain ⟨l, k, hencode, hk, hlt, hwords⟩ := EncodeBase64_eq b
  have hpad : base64.digits (List.replicate k '='.toUInt8 ++ t) = [] := by
    apply digits_eq_nil_iff.mpr
    match k with
    | 0 => exact ht
    | 1 | 2 => rfl
  obtain ⟨p, hs⟩ := decoded_foldl hlt
  rw [hencode, List.append_assoc, DecodeBase64, DecodeBase64.loop_eq, ← base64_text,
    Alphabet.digits_text_append hlt, Alphabet.rest_text_append hlt, hpad, List.append_nil,
    Alphabet.rest_eq_self hpad]
  generalize l.foldl Base64State.decode .start = s at *
  obtain ⟨ret, mode, left⟩ := s
  obtain ⟨hret, hbits, rfl⟩ := hs.regroup.eq_of_words (Nat.mod_lt _ (by decide))
    (toNat_lt_of_mem_map b) (by omega) hwords
  obtain rfl : ret = b := map_toNat_inj.mp hret
  have hmode : mode < 4 := hs.mode
  have hzero : mode ≠ 0 → left = 0 := hs.left
  simp only at hbits
  match mode with
  | 0 => rfl
  | 1 =>
    have hsix : bitsLeft 1 = 6 := rfl
    omega
  | 2 =>
    have hfour : bitsLeft 2 = 4 := rfl
    obtain rfl : k = 2 := by omega
    simpa [hzero (Nat.succ_ne_zero 1), List.replicate_succ, decodeChar] using ht
  | 3 =>
    have htwo : bitsLeft 3 = 2 := rfl
    obtain rfl : k = 1 := by omega
    simpa [hzero (Nat.succ_ne_zero 2), List.replicate_succ, decodeChar] using ht

theorem DecodeBase64_EncodeBase64 (b : List UInt8) :
    DecodeBase64 (EncodeBase64 b) = (b, false) := by
  have h := DecodeBase64_append b (t := []) rfl
  rwa [List.append_nil] at h

/-- The strings that are accepted are the encodings, with anything behind them that does not start
with a character of the table. -/
theorem DecodeBase64_valid_iff (s : List UInt8) :
    (DecodeBase64 s).2 = false ↔
      ∃ t, s = EncodeBase64 (DecodeBase64 s).1 ++ t ∧ decodeChar t 0 = -1 := by
  constructor
  · intro h
    have hsplit := characters_digits s
    have hl : ∀ x ∈ base64.digits s, x < 2 ^ 6 := Alphabet.digits_lt
    have hrest := digits_eq_nil_iff.mp (Alphabet.digits_rest (s := s))
    obtain ⟨p, hs⟩ := decoded_foldl hl
    rw [DecodeBase64, DecodeBase64.loop_eq] at h ⊢
    generalize base64.digits s = l at *
    generalize base64.rest s = rest at *
    generalize l.foldl Base64State.decode .start = st at *
    obtain ⟨ret, mode, left⟩ := st
    have hmode : mode < 4 := hs.mode
    match mode with
    | 0 =>
      have hp : p < 2 ^ bitsLeft 0 := hs.regroup.lt_left
      obtain rfl : p = 0 := by simpa [bitsLeft] using hp
      have hencode := hs.EncodeBase64_ret hl (Nat.zero_lt_succ 2) rfl
      exact ⟨rest, by simp [hencode, ← hsplit], hrest⟩
    | 1 => simp at h
    | 2 =>
      simp only [ne_eq, Bool.or_eq_false_iff, decide_eq_false_iff_not, Decidable.not_not] at h
      obtain ⟨⟨⟨hleft, h0⟩, h1⟩, h2⟩ := h
      obtain rfl : p = 0 := (hs.left (Nat.succ_ne_zero 1)).symm.trans hleft
      have hencode := hs.EncodeBase64_ret hl (Nat.lt_succ_self 2) rfl
      obtain ⟨t, rfl⟩ := eq_cons_of_getD (by decide) h0
      obtain ⟨t, rfl⟩ := eq_cons_of_getD (by decide) h1
      exact ⟨t, by simp [hencode, List.replicate_succ, ← hsplit], h2⟩
    | 3 =>
      simp only [ne_eq, Bool.or_eq_false_iff, decide_eq_false_iff_not, Decidable.not_not] at h
      obtain ⟨⟨hleft, h0⟩, h1⟩ := h
      obtain rfl : p = 0 := (hs.left (Nat.succ_ne_zero 2)).symm.trans hleft
      have hencode := hs.EncodeBase64_ret hl (Nat.one_lt_succ_succ 1) rfl
      obtain ⟨t, rfl⟩ := eq_cons_of_getD (by decide) h0
      exact ⟨t, by simp [hencode, ← hsplit], h1⟩
  · rintro ⟨t, hs, ht⟩
    rw [hs, DecodeBase64_append _ ht]

/-- The decoder takes a string with something behind the encoding, for the same bytes. -/
theorem DecodeBase64_not_canonical :
    ¬ ∀ s : List UInt8, 0 ∉ s → (DecodeBase64 s).2 = false →
      s = EncodeBase64 (DecodeBase64 s).1 := by
  intro h
  exact absurd (h ['A'.toUInt8, 'A'.toUInt8, 'A'.toUInt8, 'A'.toUInt8, '!'.toUInt8] (by decide)
    (by decide)) (by decide)

end DecodeBase64

end TriTip
