import Mathlib.Data.List.Induction
import TriTip.Lib.Alphabet
import TriTip.Lib.BitString

/-!
# Base 32

`EncodeBase32` and `DecodeBase32` of `util.cpp`. The encoder takes 8 bits and gives 5, so that some
bytes complete two characters; the decoder takes 5 and gives 8, so that some characters complete no
byte. As with base 64, each reads the same string of bits in groups of its own.
-/

namespace TriTip

open BitString

def pbase32 : List UInt8 :=
  [ 'a', 'b', 'c', 'd', 'e', 'f', 'g', 'h', 'i', 'j', 'k', 'l', 'm', 'n', 'o', 'p',
    'q', 'r', 's', 't', 'u', 'v', 'w', 'x', 'y', 'z', '2', '3', '4', '5', '6', '7'].map
    Char.toUInt8

def decode32_table : List Int :=
  [ -1, -1, -1, -1, -1, -1, -1, -1, -1, -1, -1, -1, -1, -1, -1, -1, -1, -1, -1, -1,
    -1, -1, -1, -1, -1, -1, -1, -1, -1, -1, -1, -1, -1, -1, -1, -1, -1, -1, -1, -1,
    -1, -1, -1, -1, -1, -1, -1, -1, -1, -1, 26, 27, 28, 29, 30, 31, -1, -1, -1, -1,
    -1, -1, -1, -1, -1,  0,  1,  2,  3,  4,  5,  6,  7,  8,  9, 10, 11, 12, 13, 14,
    15, 16, 17, 18, 19, 20, 21, 22, 23, 24, 25, -1, -1, -1, -1, -1, -1,  0,  1,  2,
     3,  4,  5,  6,  7,  8,  9, 10, 11, 12, 13, 14, 15, 16, 17, 18, 19, 20, 21, 22,
    23, 24, 25, -1, -1, -1, -1, -1, -1, -1, -1, -1, -1, -1, -1, -1, -1, -1, -1, -1,
    -1, -1, -1, -1, -1, -1, -1, -1, -1, -1, -1, -1, -1, -1, -1, -1, -1, -1, -1, -1,
    -1, -1, -1, -1, -1, -1, -1, -1, -1, -1, -1, -1, -1, -1, -1, -1, -1, -1, -1, -1,
    -1, -1, -1, -1, -1, -1, -1, -1, -1, -1, -1, -1, -1, -1, -1, -1, -1, -1, -1, -1,
    -1, -1, -1, -1, -1, -1, -1, -1, -1, -1, -1, -1, -1, -1, -1, -1, -1, -1, -1, -1,
    -1, -1, -1, -1, -1, -1, -1, -1, -1, -1, -1, -1, -1, -1, -1, -1, -1, -1, -1, -1,
    -1, -1, -1, -1, -1, -1, -1, -1, -1, -1, -1, -1, -1, -1, -1, -1]

/-- What the loops of the encoder and of the decoder keep. -/
structure Base32State where
  ret : List UInt8
  mode : Nat
  left : Nat

namespace Base32State

def start : Base32State := ⟨[], 0, 0⟩

/-- A byte to encode. -/
def encode (s : Base32State) (c : UInt8) : Base32State :=
  let enc := c.toNat
  match s.mode with
  | 0 => ⟨s.ret ++ [pbase32.getD (enc >>> 3) 0], 1, (enc &&& 7) <<< 2⟩
  | 1 =>
    ⟨s.ret ++ [pbase32.getD (s.left ||| (enc >>> 6)) 0, pbase32.getD ((enc >>> 1) &&& 31) 0], 2,
      (enc &&& 1) <<< 4⟩
  | 2 => ⟨s.ret ++ [pbase32.getD (s.left ||| (enc >>> 4)) 0], 3, (enc &&& 15) <<< 1⟩
  | 3 =>
    ⟨s.ret ++ [pbase32.getD (s.left ||| (enc >>> 7)) 0, pbase32.getD ((enc >>> 2) &&& 31) 0], 4,
      (enc &&& 3) <<< 3⟩
  | 4 =>
    ⟨s.ret ++ [pbase32.getD (s.left ||| (enc >>> 5)) 0, pbase32.getD (enc &&& 31) 0], 0, s.left⟩
  | _ => s

/-- Five bits that were decoded. -/
def decode (s : Base32State) (dec : Nat) : Base32State :=
  match s.mode with
  | 0 => ⟨s.ret, 1, dec⟩
  | 1 => ⟨s.ret ++ [UInt8.ofNat ((s.left <<< 3) ||| (dec >>> 2))], 2, dec &&& 3⟩
  | 2 => ⟨s.ret, 3, (s.left <<< 5) ||| dec⟩
  | 3 => ⟨s.ret ++ [UInt8.ofNat ((s.left <<< 1) ||| (dec >>> 4))], 4, dec &&& 15⟩
  | 4 => ⟨s.ret ++ [UInt8.ofNat ((s.left <<< 4) ||| (dec >>> 1))], 5, dec &&& 1⟩
  | 5 => ⟨s.ret, 6, (s.left <<< 5) ||| dec⟩
  | 6 => ⟨s.ret ++ [UInt8.ofNat ((s.left <<< 2) ||| (dec >>> 3))], 7, dec &&& 7⟩
  | 7 => ⟨s.ret ++ [UInt8.ofNat ((s.left <<< 5) ||| dec)], 0, s.left⟩
  | _ => s

end Base32State

/-- How many `=` there are behind the characters, for each mode. -/
def nPadding : List Nat := [0, 6, 4, 3, 1]

def EncodeBase32 (pch : List UInt8) : List UInt8 :=
  let s := pch.foldl Base32State.encode .start
  if s.mode ≠ 0 then
    s.ret ++ [pbase32.getD s.left 0] ++ List.replicate (nPadding.getD s.mode 0) '='.toUInt8
  else s.ret

namespace DecodeBase32

/-- The entry for a character, where the string ends with a null. -/
def decodeChar (p : List UInt8) (i : Nat) : Int := decode32_table.getD (p.getD i 0).toNat (-1)

/-- The characters before the first one that is not of the table, with those from there on. -/
def loop (s : Base32State) : List UInt8 → Base32State × List UInt8
  | [] => (s, [])
  | c :: p =>
    let dec := decodeChar (c :: p) 0
    if dec = -1 then (s, c :: p) else loop (s.decode dec.toNat) p

end DecodeBase32

/-- The bytes, and `*pfInvalid`. -/
def DecodeBase32 (p : List UInt8) : List UInt8 × Bool :=
  let (s, p) := DecodeBase32.loop .start p
  let pfInvalid :=
    match s.mode with
    | 1 | 3 | 6 => true
    | 2 =>
      s.left ≠ 0 || p.getD 0 0 ≠ '='.toUInt8 || p.getD 1 0 ≠ '='.toUInt8 ||
        p.getD 2 0 ≠ '='.toUInt8 || p.getD 3 0 ≠ '='.toUInt8 || p.getD 4 0 ≠ '='.toUInt8 ||
        p.getD 5 0 ≠ '='.toUInt8 || DecodeBase32.decodeChar p 6 ≠ -1
    | 4 =>
      s.left ≠ 0 || p.getD 0 0 ≠ '='.toUInt8 || p.getD 1 0 ≠ '='.toUInt8 ||
        p.getD 2 0 ≠ '='.toUInt8 || p.getD 3 0 ≠ '='.toUInt8 || DecodeBase32.decodeChar p 4 ≠ -1
    | 5 =>
      s.left ≠ 0 || p.getD 0 0 ≠ '='.toUInt8 || p.getD 1 0 ≠ '='.toUInt8 ||
        p.getD 2 0 ≠ '='.toUInt8 || DecodeBase32.decodeChar p 3 ≠ -1
    | 7 => s.left ≠ 0 || p.getD 0 0 ≠ '='.toUInt8 || DecodeBase32.decodeChar p 1 ≠ -1
    | _ => false
  (s.ret, pfInvalid)

/-- The characters that are written, and those of either case that are read. -/
def base32 : Alphabet UInt8 where
  size := 32
  char x := pbase32.getD x 0
  entry c := decode32_table.getD c.toNat (-1)
  entry_char := by decide
  entry_lt := Alphabet.forall_entry (P := fun _ x => x ≠ -1 → x.toNat < 32) (by decide +kernel)
    (by decide +kernel)

theorem DecodeBase32.loop_eq (s : Base32State) (p : List UInt8) :
    loop s p = ((base32.digits p).foldl Base32State.decode s, base32.rest p) :=
  Alphabet.loop_eq loop (fun _ => rfl) (fun _ _ _ => rfl) s

namespace Base32State

section encode

/-- The bits that are left in a mode. -/
def encodeLeft : Nat → Nat
  | 1 => 3
  | 2 => 1
  | 3 => 4
  | 4 => 2
  | _ => 0

/-- The groups that were given, and the number `p` that is left. -/
structure Encoded (b : List UInt8) (l : List Nat) (p : Nat) (s : Base32State) : Prop where
  ret : s.ret = base32.text l
  mode : s.mode < 5
  left : s.mode ≠ 0 → s.left = p <<< (5 - encodeLeft s.mode)
  regroup : Regroup 8 5 (b.map UInt8.toNat) l (encodeLeft s.mode) p

variable {b : List UInt8} {l : List Nat} {p : Nat} {s : Base32State}

theorem encoded_start : Encoded [] [] 0 .start where
  ret := rfl
  mode := by decide
  left h := absurd rfl h
  regroup := .start 8 5

/-- One more byte is taken, and the first of its bits complete a group of five. -/
theorem take_byte {a : Nat} (h : Regroup 8 5 (b.map UInt8.toNat) l a p) (ha : a ≤ 5) (c : UInt8) :
    Regroup 8 5 ((b ++ [c]).map UInt8.toNat)
      (l ++ [p <<< (5 - a) ||| c.toNat >>> (a + 8 - 5)]) (a + 8 - 5)
      (c.toNat &&& (2 ^ (a + 8 - 5) - 1)) := by
  rw [List.map_append, List.map_singleton]
  exact h.give c.toNat_lt ha (by omega)

theorem Encoded.encode (h : Encoded b l p s) (c : UInt8) :
    ∃ l' p', Encoded (b ++ [c]) l' p' (s.encode c) := by
  obtain ⟨hret, hmode, hleft, hgroup⟩ := h
  obtain ⟨ret, mode, left⟩ := s
  simp only at hret hmode hleft hgroup
  match mode with
  | 0 =>
    have htake := take_byte (a := 0) hgroup (by decide) c
    have hzero : p = 0 := Nat.lt_one_iff.mp hgroup.lt_left
    rw [hzero, Nat.zero_shiftLeft, Nat.zero_or] at htake
    refine ⟨_, _, ?_, Nat.lt_of_sub_eq_succ rfl, fun _ => rfl, htake⟩
    simp [Base32State.encode, hret, Alphabet.text, base32]
  | 1 =>
    have htake := (take_byte (a := 3) hgroup (by decide) c).spill_mask (a := 1)
    refine ⟨_, _, ?_, Nat.lt_of_sub_eq_succ rfl, fun _ => rfl, htake⟩
    simp [Base32State.encode, hret, Alphabet.text, base32, hleft (by decide), encodeLeft]
  | 2 =>
    have htake := take_byte (a := 1) hgroup (by decide) c
    refine ⟨_, _, ?_, Nat.lt_of_sub_eq_succ rfl, fun _ => rfl, htake⟩
    simp [Base32State.encode, hret, Alphabet.text, base32, hleft (by decide), encodeLeft]
  | 3 =>
    have htake := (take_byte (a := 4) hgroup (by decide) c).spill_mask (a := 2)
    refine ⟨_, _, ?_, Nat.lt_of_sub_eq_succ rfl, fun _ => rfl, htake⟩
    simp [Base32State.encode, hret, Alphabet.text, base32, hleft (by decide), encodeLeft]
  | 4 =>
    have htake := (take_byte (a := 2) hgroup (by decide) c).flush
    refine ⟨_, _, ?_, Nat.zero_lt_succ 4, fun h => absurd rfl h, htake⟩
    simp [Base32State.encode, hret, Alphabet.text, base32, hleft (by decide), encodeLeft]

theorem encoded_foldl (b : List UInt8) :
    ∃ l p, Encoded b l p (b.foldl Base32State.encode .start) := by
  induction b using List.reverseRecOn with
  | nil => exact ⟨[], 0, encoded_start⟩
  | append_singleton b c ih =>
    obtain ⟨l, p, h⟩ := ih
    rw [List.foldl_append]
    exact h.encode c

/-- How many `=` there are behind a last character with `z` bits of padding. -/
def padding : Nat → Nat
  | 1 => 3
  | 2 => 6
  | 3 => 1
  | 4 => 4
  | _ => 0

/-- The characters are the bits in groups of five, the last one with zeros behind it. -/
theorem EncodeBase32_eq (b : List UInt8) :
    ∃ l z, EncodeBase32 b = base32.text l ++ List.replicate (padding z) '='.toUInt8 ∧ z < 5 ∧
      (∀ x ∈ l, x < 2 ^ 5) ∧
      words 5 l = words 8 (b.map UInt8.toNat) ++ List.replicate z false := by
  obtain ⟨l, p, hret, hmode, hleft, hgroup⟩ := encoded_foldl b
  unfold EncodeBase32
  generalize b.foldl Base32State.encode .start = s at *
  obtain ⟨ret, mode, left⟩ := s
  simp only at hret hmode hleft hgroup
  match mode with
  | 0 =>
    refine ⟨l, 0, ?_, by decide, hgroup.lt, ?_⟩
    · simp [hret, padding]
    · simp [hgroup.bits, encodeLeft, word]
  | 1 =>
    refine ⟨l ++ [p <<< 2], 2, ?_, by decide, hgroup.lt_pad (by decide),
      hgroup.words_pad (by decide)⟩
    simp [hret, hleft (by decide), Alphabet.text, base32, encodeLeft, nPadding, padding]
  | 2 =>
    refine ⟨l ++ [p <<< 4], 4, ?_, by decide, hgroup.lt_pad (by decide),
      hgroup.words_pad (by decide)⟩
    simp [hret, hleft (by decide), Alphabet.text, base32, encodeLeft, nPadding, padding]
  | 3 =>
    refine ⟨l ++ [p <<< 1], 1, ?_, by decide, hgroup.lt_pad (by decide),
      hgroup.words_pad (by decide)⟩
    simp [hret, hleft (by decide), Alphabet.text, base32, encodeLeft, nPadding, padding]
  | 4 =>
    refine ⟨l ++ [p <<< 3], 3, ?_, by decide, hgroup.lt_pad (by decide),
      hgroup.words_pad (by decide)⟩
    simp [hret, hleft (by decide), Alphabet.text, base32, encodeLeft, nPadding, padding]

end encode

section decode

/-- The bits that are left in a mode. -/
def decodeLeft : Nat → Nat
  | 1 => 5
  | 2 => 2
  | 3 => 7
  | 4 => 4
  | 5 => 1
  | 6 => 6
  | 7 => 3
  | _ => 0

/-- The bytes that were given for groups of five bits. -/
structure Decoded (l : List Nat) (p : Nat) (s : Base32State) : Prop where
  mode : s.mode < 8
  left : s.mode ≠ 0 → s.left = p
  regroup : Regroup 5 8 l (s.ret.map UInt8.toNat) (decodeLeft s.mode) p

variable {l : List Nat} {p : Nat} {s : Base32State}

theorem decoded_start : Decoded [] 0 .start where
  mode := by decide
  left h := absurd rfl h
  regroup := .start 5 8

/-- Five more bits are taken, and a byte is given. -/
theorem give_byte {ret : List UInt8} {a n : Nat} (h : Regroup 5 8 l (ret.map UInt8.toNat) a p)
    (ha : a ≤ 8) (ha' : 3 ≤ a) (hn : n < 2 ^ 5) :
    Regroup 5 8 (l ++ [n])
      ((ret ++ [UInt8.ofNat (p <<< (8 - a) ||| n >>> (a + 5 - 8))]).map UInt8.toNat) (a + 5 - 8)
      (n &&& (2 ^ (a + 5 - 8) - 1)) := by
  have hgive := h.give hn ha (by omega)
  rwa [List.map_append, List.map_singleton,
    UInt8.toNat_ofNat_of_lt' (hgive.lt _ List.mem_concat_self)]

theorem Decoded.decode (h : Decoded l p s) {n : Nat} (hn : n < 2 ^ 5) :
    ∃ p', Decoded (l ++ [n]) p' (s.decode n) := by
  obtain ⟨hmode, hleft, hgroup⟩ := h
  obtain ⟨ret, mode, left⟩ := s
  simp only at hmode hleft hgroup
  match mode with
  | 0 => exact ⟨n, Nat.one_lt_succ_succ 6, fun _ => rfl, hgroup.keep hn⟩
  | 1 =>
    obtain rfl := hleft (by decide)
    exact ⟨n &&& 3, Nat.lt_of_sub_eq_succ rfl, fun _ => rfl,
      give_byte (a := 5) hgroup (by decide) (by decide) hn⟩
  | 2 =>
    obtain rfl := hleft (by decide)
    exact ⟨left <<< 5 ||| n, Nat.lt_of_sub_eq_succ rfl, fun _ => rfl,
      hgroup.accumulate (a := 2) hn⟩
  | 3 =>
    obtain rfl := hleft (by decide)
    exact ⟨n &&& 15, Nat.lt_of_sub_eq_succ rfl, fun _ => rfl,
      give_byte (a := 7) hgroup (by decide) (by decide) hn⟩
  | 4 =>
    obtain rfl := hleft (by decide)
    exact ⟨n &&& 1, Nat.lt_of_sub_eq_succ rfl, fun _ => rfl,
      give_byte (a := 4) hgroup (by decide) (by decide) hn⟩
  | 5 =>
    obtain rfl := hleft (by decide)
    exact ⟨left <<< 5 ||| n, Nat.lt_of_sub_eq_succ rfl, fun _ => rfl,
      hgroup.accumulate (a := 1) hn⟩
  | 6 =>
    obtain rfl := hleft (by decide)
    exact ⟨n &&& 7, Nat.lt_succ_self 7, fun _ => rfl,
      give_byte (a := 6) hgroup (by decide) (by decide) hn⟩
  | 7 =>
    obtain rfl := hleft (by decide)
    exact ⟨n &&& 0, Nat.zero_lt_succ 7, fun h => absurd rfl h,
      give_byte (a := 3) hgroup (by decide) (by decide) hn⟩

theorem decoded_foldl (hl : ∀ x ∈ l, x < 2 ^ 5) :
    ∃ p, Decoded l p (l.foldl Base32State.decode .start) := by
  induction l using List.reverseRecOn with
  | nil => exact ⟨0, decoded_start⟩
  | append_singleton l n ih =>
    obtain ⟨p, h⟩ := ih fun x hx => hl x (List.mem_append_left [n] hx)
    rw [List.foldl_append]
    exact h.decode (hl n List.mem_concat_self)

end decode

end Base32State

section DecodeBase32

open Base32State

theorem digits_padding (k : Nat) : base32.digits (List.replicate k '='.toUInt8) = [] := by
  cases k with
  | zero => rfl
  | succ k => exact Alphabet.digits_cons_of_entry (by decide)

theorem rest_padding (k : Nat) :
    base32.rest (List.replicate k '='.toUInt8) = List.replicate k '='.toUInt8 := by
  cases k with
  | zero => rfl
  | succ k => exact Alphabet.rest_cons_of_entry (by decide)

theorem decodeLeft_lt (mode : Nat) : decodeLeft mode < 8 := by
  unfold decodeLeft
  split <;> decide

/-- The loop gives the bytes back and stops at the padding, with nothing but zeros left. -/
theorem loop_EncodeBase32 (b : List UInt8) :
    ∃ s z, DecodeBase32.loop .start (EncodeBase32 b) =
        (s, List.replicate (padding z) '='.toUInt8) ∧ z < 5 ∧
      s.ret = b ∧ s.mode < 8 ∧ decodeLeft s.mode = z ∧ (s.mode ≠ 0 → s.left = 0) := by
  obtain ⟨l, z, hencode, hz, hlt, hwords⟩ := EncodeBase32_eq b
  obtain ⟨p, hs⟩ := decoded_foldl hlt
  refine ⟨l.foldl Base32State.decode .start, z, ?_, hz, ?_⟩
  · rw [hencode, DecodeBase32.loop_eq, Alphabet.digits_text_append hlt,
      Alphabet.rest_text_append hlt, digits_padding, List.append_nil, rest_padding]
  · obtain ⟨hret, hbits, rfl⟩ := hs.regroup.eq_of_words (decodeLeft_lt _) (toNat_lt_of_mem_map b)
      (by omega) hwords
    exact ⟨map_toNat_inj.mp hret, hs.mode, hbits, hs.left⟩

theorem DecodeBase32_fst (b : List UInt8) : (DecodeBase32 (EncodeBase32 b)).1 = b := by
  obtain ⟨s, z, hloop, -, hret, -⟩ := loop_EncodeBase32 b
  rw [DecodeBase32, hloop]
  exact hret

theorem DecodeBase32_EncodeBase32 (b : List UInt8) :
    DecodeBase32 (EncodeBase32 b) = (b, false) := by
  obtain ⟨⟨ret, mode, left⟩, z, hloop, hz, hret, hmode, hbits, hzero⟩ := loop_EncodeBase32 b
  rw [DecodeBase32, hloop]
  simp only at hret hmode hbits hzero
  rw [hret]
  match mode with
  | 0 => rfl
  | 1 | 3 | 6 =>
    simp only [decodeLeft] at hbits
    omega
  | 2 | 4 | 5 | 7 =>
    obtain rfl := hbits
    rw [hzero (by decide)]
    rfl

/-- The bytes depend on the characters at the front. -/
theorem DecodeBase32_ret (s : List UInt8) :
    (DecodeBase32 s).1 = ((base32.digits s).foldl Base32State.decode .start).ret := by
  rw [DecodeBase32, DecodeBase32.loop_eq]

/-- The bits of the characters at the front are those of the bytes, and fewer than a byte has. -/
theorem words_DecodeBase32 (s : List UInt8) :
    ∃ r : List Bool, r.length < 8 ∧
      words 5 (base32.digits s) = words 8 ((DecodeBase32 s).1.map UInt8.toNat) ++ r := by
  obtain ⟨p, hs⟩ := decoded_foldl (l := base32.digits s) Alphabet.digits_lt
  rw [DecodeBase32_ret]
  generalize (base32.digits s).foldl Base32State.decode .start = st at *
  exact ⟨word (decodeLeft st.mode) p, by simpa using decodeLeft_lt st.mode, hs.regroup.bits⟩

theorem length_DecodeBase32 (s : List UInt8) :
    (DecodeBase32 s).1.length = 5 * (base32.digits s).length / 8 := by
  obtain ⟨r, hr, hwords⟩ := words_DecodeBase32 s
  have hlength := congrArg List.length hwords
  simp only [length_words, List.length_append, List.length_map] at hlength
  omega

/-- Bytes with no bits left over are encoded as the characters that they were decoded from. -/
theorem EncodeBase32_DecodeBase32 {s : List UInt8} {n : Nat}
    (hn : 8 * (DecodeBase32 s).1.length = 5 * n) :
    EncodeBase32 (DecodeBase32 s).1 = base32.text ((base32.digits s).take n) := by
  obtain ⟨r, hr, hdecode⟩ := words_DecodeBase32 s
  obtain ⟨l, z, hencode, hz, hl, hwords⟩ := EncodeBase32_eq (DecodeBase32 s).1
  have hlength := congrArg List.length hwords
  have hlength' := congrArg List.length hdecode
  simp only [length_words, List.length_append, List.length_map, List.length_replicate]
    at hlength hlength'
  obtain rfl : z = 0 := by omega
  have htake : words 5 ((base32.digits s).take n) =
      words 8 ((DecodeBase32 s).1.map UInt8.toNat) := by
    rw [← List.take_append_drop n (base32.digits s), words_append] at hdecode
    apply List.append_inj_left hdecode
    simp
    omega
  have hdigits : ∀ x ∈ (base32.digits s).take n, x < 2 ^ 5 := fun x hx =>
    Alphabet.digits_lt x (List.mem_of_mem_take hx)
  rw [List.replicate_zero, List.append_nil, ← htake] at hwords
  obtain rfl := words_inj (by decide) hl hdigits hwords
  simp [hencode, padding]

end DecodeBase32

end TriTip
