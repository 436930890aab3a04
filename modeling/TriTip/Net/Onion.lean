import TriTip.Base58.EncodeBase58
import TriTip.Net.Address
import TriTip.Util.Base32
import TriTip.Util.Decimal

/-!
# Onion names

`CNetAddr::SetSpecial` takes a name under `.onion` for one of the IPv6 addresses that stand for
them, and `CNetAddr::ToStringIP` gives the name of such an address. The name is decoded without
asking whether it is valid, and what decides is the number of bytes: characters behind the first
one that is not base 32 do not matter, and neither do five bits more than there should be
(`SetSpecial_iff`).
-/

namespace TriTip

/-- `.onion` -/
def dotOnion : List UInt8 := ['.', 'o', 'n', 'i', 'o', 'n'].map Char.toUInt8

namespace CNetAddr

/-- The prefix is copied to the front, and the bytes behind it one by one. -/
def onionCat (vchAddr : List UInt8) : CNetAddr where
  ip := Vector.ofFn fun i =>
    if i.val < pchOnionCat.length then pchOnionCat.getD i.val 0
    else vchAddr.getD (i.val - pchOnionCat.length) 0

/-- The address as the call leaves it, with what it returns. -/
def SetSpecial (a : CNetAddr) (strName : List UInt8) : CNetAddr × Bool :=
  if strName.length > 6 ∧ strName.drop (strName.length - 6) = dotOnion then
    let vchAddr := (DecodeBase32 (c_str (strName.take (strName.length - 6)))).1
    if vchAddr.length ≠ 16 - pchOnionCat.length then (a, false)
    else (onionCat vchAddr, true)
  else (a, false)

/-- A pair of bytes as `%x`. -/
def printedPair (pair : UInt8 × UInt8) : List UInt8 :=
  printed 16 (pair.1.toNat <<< 8 ||| pair.2.toNat)

/-- `getnameinfo` is the numeric name of the socket address, if there are both. -/
def ToStringIP (getnameinfo : CNetAddr → Option (List UInt8)) (a : CNetAddr) : List UInt8 :=
  if a.IsTor then EncodeBase32 (a.ip.toList.drop 6) ++ dotOnion
  else
    match getnameinfo a with
    | some name => name
    | none =>
      if a.IsIPv4 then
        List.intercalate ['.'.toUInt8] (a.ipv4Bytes.map fun b => printed 10 b.toNat)
      else List.intercalate [':'.toUInt8] (a.bytePairs.map printedPair)

end CNetAddr

def tolower (c : UInt8) : UInt8 := if 'A'.toUInt8 ≤ c ∧ c ≤ 'Z'.toUInt8 then c + 32 else c

/-- Sixteen characters of base 32, and `.onion`. -/
def IsOnionName (strName : List UInt8) : Prop :=
  strName.length = 22 ∧ strName.drop 16 = dotOnion ∧
    ∀ c ∈ strName.take 16, base32.isDigit c = true

instance (strName : List UInt8) : Decidable (IsOnionName strName) :=
  inferInstanceAs (Decidable (_ ∧ _ ∧ _))

namespace CNetAddr

variable {getnameinfo : CNetAddr → Option (List UInt8)} {a : CNetAddr} {s : List UInt8}

theorem char_number_base32 :
    ∀ c, base32.isDigit c = true → base32.char (base32.number c) = tolower c :=
  Alphabet.forall_entry (t := decode32_table)
    (P := fun c x => (x != -1) = true → pbase32.getD x.toNat 0 = tolower c) (by decide +kernel)
    (by decide +kernel)

/-- A null is no digit. -/
theorem digits_c_str (s : List UInt8) : base32.digits (c_str s) = base32.digits s := by
  have hzero : ∀ c, base32.isDigit c = true → c ≠ 0 := by
    rintro c hc rfl
    exact absurd hc (by decide)
  rw [Alphabet.digits, c_str, List.takeWhile_takeWhile, Alphabet.digits]
  congr 2
  funext c
  by_cases hc : base32.isDigit c = true
  · simp [hc, hzero c hc]
  · simp [hc]

theorem DecodeBase32_c_str (s : List UInt8) :
    (DecodeBase32 (c_str s)).1 = (DecodeBase32 s).1 := by
  rw [DecodeBase32_ret, digits_c_str, DecodeBase32_ret]

section SetSpecial

/-- A name under `.onion` is taken for the bytes before. -/
theorem SetSpecial_append (a : CNetAddr) (hs : s ≠ []) :
    a.SetSpecial (s ++ dotOnion) =
      if (DecodeBase32 s).1.length ≠ 10 then (a, false)
      else (onionCat (DecodeBase32 s).1, true) := by
  have hlength : 0 < s.length := List.length_pos_iff.mpr hs
  have hdrop : (s ++ dotOnion).drop ((s ++ dotOnion).length - 6) = dotOnion := by
    simp [dotOnion]
  have htake : (s ++ dotOnion).take ((s ++ dotOnion).length - 6) = s := by
    simp [dotOnion]
  rw [SetSpecial, if_pos ⟨by simp [dotOnion, hlength], hdrop⟩, htake]
  simp only [DecodeBase32_c_str]
  rfl

/-- A name that is taken ends in `.onion`, behind sixteen or seventeen characters of base 32. -/
theorem SetSpecial_snd_iff (a : CNetAddr) (name : List UInt8) :
    (a.SetSpecial name).2 = true ↔
      ∃ s, name = s ++ dotOnion ∧
        ((base32.digits s).length = 16 ∨ (base32.digits s).length = 17) := by
  by_cases hname : ∃ s, s ≠ [] ∧ name = s ++ dotOnion
  · obtain ⟨s, hs, rfl⟩ := hname
    rw [SetSpecial_append a hs, length_DecodeBase32]
    split
    · next h =>
      refine iff_of_false (Bool.false_ne_true) ?_
      rintro ⟨s', hs', hlength⟩
      obtain rfl := List.append_cancel_right hs'
      omega
    · next h => exact iff_of_true rfl ⟨s, rfl, by omega⟩
  · have hlong : ¬ (name.length > 6 ∧ name.drop (name.length - 6) = dotOnion) := by
      rintro ⟨hlength, hdrop⟩
      refine hname ⟨name.take (name.length - 6), ?_, ?_⟩
      · apply List.ne_nil_of_length_pos
        rw [List.length_take]
        omega
      · rw [← hdrop, List.take_append_drop]
    rw [SetSpecial, if_neg hlong]
    refine iff_of_false (Bool.false_ne_true) ?_
    rintro ⟨s, rfl, hlength⟩
    refine hname ⟨s, ?_, rfl⟩
    rintro rfl
    simp at hlength

/-- An address that a name is not taken for is left as it is. -/
theorem SetSpecial_fst_of_not (a : CNetAddr) (name : List UInt8)
    (h : (a.SetSpecial name).2 = false) : (a.SetSpecial name).1 = a := by
  unfold SetSpecial at h ⊢
  split at h
  · next hname =>
    rw [if_pos hname]
    simp only at h ⊢
    split at h
    · next hlength => rw [if_pos hlength]
    · cases h
  · next hname => rw [if_neg hname]

end SetSpecial

section ToStringIP

theorem toList_onionCat {v : List UInt8} (hv : v.length = 10) :
    (onionCat v).ip.toList = pchOnionCat ++ v := by
  have hlength : pchOnionCat.length = 6 := rfl
  apply List.ext_getElem
  · simp [hlength, hv]
  · intro i hi hi'
    simp only [onionCat, Vector.getElem_toList, Vector.getElem_ofFn, List.getElem_append]
    by_cases h : i < 6
    · simp [h, hlength]
    · have hrest : i - 6 < v.length := by
        rw [List.length_append] at hi'
        omega
      simp [h, hlength, hrest]

theorem ToStringIP_of_toList {v : List UInt8} (h : a.ip.toList = pchOnionCat ++ v) :
    a.ToStringIP getnameinfo = EncodeBase32 v ++ dotOnion := by
  have htor : a.IsTor = true := by
    rw [IsTor, startsWith, h, List.take_left, beq_self_eq_true]
  have hdrop : (pchOnionCat ++ v).drop pchOnionCat.length = v := List.drop_left
  rw [ToStringIP, if_pos htor, h]
  exact congrArg (fun v => EncodeBase32 v ++ dotOnion) hdrop

/-- The name of the address that a name is taken for. -/
theorem ToStringIP_SetSpecial (a : CNetAddr)
    (hs : (base32.digits s).length = 16 ∨ (base32.digits s).length = 17) :
    (a.SetSpecial (s ++ dotOnion)).1.ToStringIP getnameinfo =
      (s.take 16).map tolower ++ dotOnion := by
  have hlength : (DecodeBase32 s).1.length = 10 := by
    rw [length_DecodeBase32]
    omega
  have hne : s ≠ [] := by
    rintro rfl
    simp at hs
  have htake : (s.takeWhile base32.isDigit).take 16 = s.take 16 := by
    have hdigits : 16 ≤ (s.takeWhile base32.isDigit).length := by
      rw [Alphabet.digits, List.length_map] at hs
      omega
    have hprefix := List.takeWhile_append_dropWhile (p := base32.isDigit) (l := s)
    rw [← congrArg (List.take 16) hprefix, List.take_append_of_le_length hdigits]
  rw [SetSpecial_append a hne, if_neg (not_not.mpr hlength),
    ToStringIP_of_toList (toList_onionCat hlength),
    EncodeBase32_DecodeBase32 (n := 16) (by rw [hlength]), Alphabet.text, List.map_take,
    ← Alphabet.text, Alphabet.text_digits tolower char_number_base32, ← List.map_take, htake]

/-- An address that stands for an onion name is taken from that name. -/
theorem SetSpecial_ToStringIP (a b : CNetAddr) (ha : a.IsTor = true) :
    b.SetSpecial (a.ToStringIP getnameinfo) = (a, true) := by
  have hip : a.ip.toList = pchOnionCat ++ a.ip.toList.drop 6 := by
    conv_lhs => rw [← List.take_append_drop 6 a.ip.toList]
    rw [← eq_of_beq ha]
    rfl
  have hlength : (a.ip.toList.drop 6).length = 10 := by simp
  rw [ToStringIP_of_toList hip]
  generalize a.ip.toList.drop 6 = v at *
  have hne : EncodeBase32 v ≠ [] := by
    intro h
    have hdecode := DecodeBase32_fst v
    rw [h] at hdecode
    rw [← hdecode] at hlength
    cases hlength
  have hsame : (onionCat v).ip = a.ip :=
    Vector.toList_inj.mp ((toList_onionCat hlength).trans hip.symm)
  have haddr : onionCat v = a := congrArg CNetAddr.mk hsame
  rw [SetSpecial_append b hne, DecodeBase32_fst, if_neg (not_not.mpr hlength), haddr]

end ToStringIP

section names

theorem IsOnionName_append_iff :
    IsOnionName (s ++ dotOnion) ↔ s.length = 16 ∧ (base32.digits s).length = 16 := by
  constructor
  · rintro ⟨hlength, -, hdigits⟩
    rw [List.length_append] at hlength
    have hs : s.length = 16 := Nat.add_right_cancel hlength
    rw [List.take_left' hs] at hdigits
    refine ⟨hs, ?_⟩
    rw [Alphabet.digits, List.length_map, List.takeWhile_eq_self_iff.mpr hdigits, hs]
  · rintro ⟨hs, hdigits⟩
    rw [Alphabet.digits, List.length_map] at hdigits
    have hall : s.takeWhile base32.isDigit = s :=
      (List.takeWhile_prefix base32.isDigit).eq_of_length (hdigits.trans hs.symm)
    refine ⟨?_, List.drop_left' hs, ?_⟩
    · rw [List.length_append, hs]
      rfl
    · rw [List.take_left' hs]
      exact List.takeWhile_eq_self_iff.mp hall

theorem exists_append_of_isOnionName {name : List UInt8} (h : IsOnionName name) :
    ∃ s, name = s ++ dotOnion :=
  ⟨name.take 16, by rw [← h.2.1, List.take_append_drop]⟩

/-- A call takes the onion names and no others, for an address that has the name in lower case; it
leaves the address where it does not take the name. -/
def SpecialAsNamed (getnameinfo : CNetAddr → Option (List UInt8)) (a : CNetAddr)
    (name : List UInt8) : Prop :=
  ((a.SetSpecial name).2 = true ↔ IsOnionName name) ∧
    ((a.SetSpecial name).2 = true →
      (a.SetSpecial name).1.ToStringIP getnameinfo = name.map tolower) ∧
    ((a.SetSpecial name).2 = false → (a.SetSpecial name).1 = a)

/-- Before `.onion` there are at most sixteen characters, or else not sixteen or seventeen of base
32 at the front. -/
def NothingBehind (name : List UInt8) : Prop :=
  ∀ s, name = s ++ dotOnion → 16 < s.length →
    (base32.digits s).length ≠ 16 ∧ (base32.digits s).length ≠ 17

/-- A name that is taken, with nothing behind the sixteen characters. -/
theorem NothingBehind.exists_of_taken {name : List UInt8} (h : NothingBehind name)
    (ha : (a.SetSpecial name).2 = true) :
    ∃ s, name = s ++ dotOnion ∧ s.length = 16 ∧ (base32.digits s).length = 16 := by
  obtain ⟨s, rfl, hdigits⟩ := (SetSpecial_snd_iff a name).mp ha
  have hle := Alphabet.length_digits_add (A := base32) (s := s)
  have hshort : s.length ≤ 16 := by
    by_contra hlong
    have := h s rfl (Nat.lt_of_not_le hlong)
    omega
  exact ⟨s, rfl, by omega, by omega⟩

theorem NothingBehind.ToStringIP {name : List UInt8} (h : NothingBehind name)
    (ha : (a.SetSpecial name).2 = true) :
    (a.SetSpecial name).1.ToStringIP getnameinfo = name.map tolower := by
  obtain ⟨s, rfl, hs, hdigits⟩ := h.exists_of_taken ha
  rw [ToStringIP_SetSpecial a (Or.inl hdigits), ← hs, List.take_length, List.map_append]
  rfl

theorem SpecialAsNamed_iff (a : CNetAddr) (name : List UInt8) :
    SpecialAsNamed getnameinfo a name ↔ NothingBehind name := by
  constructor
  · rintro ⟨hiff, -, -⟩ s rfl hlong
    by_contra hdigits
    have htaken := (SetSpecial_snd_iff a (s ++ dotOnion)).mpr ⟨s, rfl, by omega⟩
    have := (IsOnionName_append_iff.mp (hiff.mp htaken)).1
    omega
  · intro h
    refine ⟨⟨fun ha => ?_, fun hname => ?_⟩, h.ToStringIP, SetSpecial_fst_of_not a name⟩
    · obtain ⟨s, rfl, hs⟩ := h.exists_of_taken ha
      exact IsOnionName_append_iff.mpr hs
    · obtain ⟨s, rfl⟩ := exists_append_of_isOnionName hname
      exact (SetSpecial_snd_iff a _).mpr ⟨s, rfl, Or.inl (IsOnionName_append_iff.mp hname).2⟩

/-- A call does what it should exactly where nothing is behind the sixteen characters. The names
of one address are then the same up to case, and the name of an onion address is always taken for
that address. -/
theorem SetSpecial_iff (getnameinfo : CNetAddr → Option (List UInt8)) :
    (∀ (a : CNetAddr) name, SpecialAsNamed getnameinfo a name ↔ NothingBehind name) ∧
      (∀ (a b : CNetAddr) name name', NothingBehind name → NothingBehind name' →
        (a.SetSpecial name).2 = true → (b.SetSpecial name').2 = true →
        (a.SetSpecial name).1 = (b.SetSpecial name').1 → name.map tolower = name'.map tolower) ∧
      ∀ a b : CNetAddr, a.IsTor = true → b.SetSpecial (a.ToStringIP getnameinfo) = (a, true) := by
  refine ⟨SpecialAsNamed_iff, ?_, SetSpecial_ToStringIP⟩
  intro a b name name' hname hname' ha hb hab
  calc
    name.map tolower = (a.SetSpecial name).1.ToStringIP getnameinfo := (hname.ToStringIP ha).symm
    _ = (b.SetSpecial name').1.ToStringIP getnameinfo := by rw [hab]
    _ = name'.map tolower := hname'.ToStringIP hb

/-- Sixteen characters and one that is not of base 32 are taken for the name of the sixteen. -/
theorem SetSpecial_foreign :
    ¬ ∀ (a : CNetAddr) (name : List UInt8), (a.SetSpecial name).2 = true ↔ IsOnionName name := by
  intro h
  have hname := h (ofIPv4 0 0 0 0) (List.replicate 16 'a'.toUInt8 ++ ['!'.toUInt8] ++ dotOnion)
  exact absurd (hname.mp (by decide +kernel)) (by decide +kernel)

end names

end CNetAddr

end TriTip
