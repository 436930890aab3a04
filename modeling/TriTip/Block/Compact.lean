import TriTip.Lib.Significand

/-!
# Compact numbers

`SetCompact` and `GetCompact` of `bignum.h`; big numbers are integers. A compact number is an
exponent in base 256, a sign and a mantissa of 23 bits, so that it is a `Significand` with half of
the values of the first byte left for the sign (`GetCompact_toNat`, `SetCompact_eq`).
-/

namespace TriTip

open Significand

namespace CBigNum

def BN_num_bytes (bn : Int) : UInt32 := .ofNat (Nat.digits 256 bn.natAbs).length

/-- The magnitude, or all ones if it has more bits than a word. -/
def BN_get_word (bn : Int) : UInt64 :=
  if bn.natAbs < 2 ^ 64 then .ofNat bn.natAbs else 0xffffffffffffffff

/-- The magnitude is shifted. -/
def BN_rshift (bn : Int) (n : Nat) : Int := bn.sign * (bn.natAbs >>> n : Nat)

/-- From the exponent, in the first 8 bits, the sign and the mantissa. -/
def SetCompact (nCompact : UInt32) : Int :=
  let nSize := nCompact >>> 24
  let fNegative := nCompact &&& 0x00800000 != 0
  let nWord := nCompact &&& 0x007fffff
  let bn : Int :=
    if nSize ≤ 3 then (nWord >>> (8 * (3 - nSize))).toNat
    else (nWord.toNat <<< (8 * (nSize - 3)).toNat : Nat)
  if fNegative then -bn else bn

def GetCompact (bn : Int) : UInt32 :=
  let nSize := BN_num_bytes bn
  let nCompact : UInt32 :=
    if nSize ≤ 3 then (BN_get_word bn <<< (8 * (3 - nSize)).toUInt64).toUInt32
    else (BN_get_word (BN_rshift bn (8 * (nSize - 3)).toNat)).toUInt32
  -- The 0x00800000 bit denotes the sign.
  -- Thus, if it is already set, divide the mantissa by 256 and increase the exponent.
  let (nCompact, nSize) :=
    if nCompact &&& 0x00800000 ≠ 0 then (nCompact >>> 8, nSize + 1) else (nCompact, nSize)
  let nCompact := nCompact ||| nSize <<< 24
  nCompact ||| (if bn < 0 then 0x00800000 else 0)

/-! ## Fields of a compact number -/

theorem toNat_exponent (nCompact : UInt32) : (nCompact >>> 24).toNat = nCompact.toNat / 2 ^ 24 := by
  simp [UInt32.toNat_shiftRight, Nat.shiftRight_eq_div_pow]

theorem toNat_mantissa (nCompact : UInt32) :
    (nCompact &&& 0x007fffff).toNat = nCompact.toNat % 2 ^ 23 := by
  rw [UInt32.toNat_and]
  exact Nat.and_two_pow_sub_one_eq_mod _ 23

theorem sign_bit (nCompact : UInt32) :
    nCompact &&& 0x00800000 ≠ 0 ↔ nCompact.toNat / 2 ^ 23 % 2 = 1 := by
  rw [ne_eq, ← UInt32.toNat_inj, UInt32.toNat_and]
  change ¬nCompact.toNat &&& 2 ^ 23 = 0 ↔ _
  rw [Nat.and_two_pow, Nat.testBit_eq_decide_div_mod_eq]
  simp

theorem pow_256 (n : Nat) : 256 ^ n = 2 ^ (8 * n) := by
  rw [Nat.pow_mul]

/-- The number of an exponent, a sign and a mantissa. -/
theorem SetCompact_eq (nCompact : UInt32) :
    SetCompact nCompact = (if nCompact.toNat / 2 ^ 23 % 2 = 1 then -1 else 1) *
      (value 256 3 (nCompact.toNat / 2 ^ 24) (nCompact.toNat % 2 ^ 23) : Int) := by
  unfold SetCompact
  extract_lets nSize fNegative nWord bn
  have hlt := nCompact.toNat_lt
  have hsize : nSize.toNat = nCompact.toNat / 2 ^ 24 := toNat_exponent nCompact
  have hword : nWord.toNat = nCompact.toNat % 2 ^ 23 := toNat_mantissa nCompact
  have hle : nSize ≤ 3 ↔ nCompact.toNat / 2 ^ 24 ≤ 3 := by
    rw [UInt32.le_iff_toNat_le, hsize]
    rfl
  have hbn : bn = (value 256 3 (nCompact.toNat / 2 ^ 24) (nCompact.toNat % 2 ^ 23) : Int) := by
    simp only [bn, hle, value, pow_256]
    split
    · next h =>
      have hshift : (8 * (3 - nSize)).toNat = 8 * (3 - nCompact.toNat / 2 ^ 24) := by
        rw [UInt32.toNat_mul, UInt32.toNat_sub_of_le _ _ (hle.2 h), hsize]
        simp only [UInt32.reduceToNat]
        omega
      have hsmall : 8 * (3 - nCompact.toNat / 2 ^ 24) < 32 := by omega
      rw [UInt32.toNat_shiftRight, hword, hshift, Nat.mod_eq_of_lt hsmall,
        Nat.shiftRight_eq_div_pow]
    · next h =>
      have hge : 3 ≤ nSize := UInt32.le_of_lt (UInt32.not_le.1 (mt hle.1 h))
      have hshift : (8 * (nSize - 3)).toNat = 8 * (nCompact.toNat / 2 ^ 24 - 3) := by
        rw [UInt32.toNat_mul, UInt32.toNat_sub_of_le _ _ hge, hsize]
        simp only [UInt32.reduceToNat]
        omega
      rw [hword, hshift, Nat.shiftLeft_eq]
  have hneg : fNegative = true ↔ nCompact.toNat / 2 ^ 23 % 2 = 1 :=
    bne_iff_ne.trans (sign_bit nCompact)
  rw [hbn]
  simp only [hneg]
  split <;> ring

/-! ## Fields that are put together -/

section GetCompact

variable {bn : Int}

theorem BN_num_bytes_toNat (h : bn.natAbs < 256 ^ 253) :
    (BN_num_bytes bn).toNat = size 256 1 bn.natAbs ∧ size 256 1 bn.natAbs ≤ 253 := by
  have hsize : size 256 1 bn.natAbs ≤ 253 := by
    rw [size_le_iff (by decide), Nat.one_mul]
    exact h
  refine ⟨?_, hsize⟩
  have hdigits : (Nat.digits 256 bn.natAbs).length = size 256 1 bn.natAbs := by
    rw [size, Nat.one_mul]
  unfold BN_num_bytes
  rw [hdigits]
  exact UInt32.toNat_ofNat_of_lt' (lt_of_le_of_lt hsize (by decide))

theorem BN_get_word_toNat (h : bn.natAbs < 2 ^ 64) : (BN_get_word bn).toNat = bn.natAbs := by
  unfold BN_get_word
  rw [if_pos h]
  exact UInt64.toNat_ofNat_of_lt' h

theorem natAbs_BN_rshift (n : Nat) : (BN_rshift bn n).natAbs = bn.natAbs / 2 ^ n := by
  unfold BN_rshift
  rw [Int.natAbs_mul, Nat.shiftRight_eq_div_pow, Int.natAbs_natCast]
  rcases eq_or_ne bn 0 with rfl | hne
  · simp
  · rw [Int.natAbs_sign_of_ne_zero hne, Nat.one_mul]

/-- The first three bytes. -/
def leadingWord (bn : Int) : UInt32 :=
  let nSize := BN_num_bytes bn
  if nSize ≤ 3 then (BN_get_word bn <<< (8 * (3 - nSize)).toUInt64).toUInt32
  else (BN_get_word (BN_rshift bn (8 * (nSize - 3)).toNat)).toUInt32

theorem leadingWord_toNat (h : bn.natAbs < 256 ^ 253) :
    (leadingWord bn).toNat = mantissa 256 1 3 bn.natAbs := by
  obtain ⟨hsize, hle⟩ := BN_num_bytes_toNat h
  have hlt : mantissa 256 1 3 bn.natAbs < 2 ^ 24 := by
    have := mantissa_lt (c := 1) (p := 3) (n := bn.natAbs) (by decide : 1 < 256)
    omega
  unfold leadingWord
  extract_lets nSize
  have hiff : nSize ≤ 3 ↔ size 256 1 bn.natAbs ≤ 3 := by
    rw [UInt32.le_iff_toNat_le, hsize]
    rfl
  unfold mantissa at hlt ⊢
  simp only [hiff, pow_256] at hlt ⊢
  split
  · next h3 =>
    rw [if_pos h3] at hlt
    have hword : (BN_get_word bn).toNat = bn.natAbs := by
      apply BN_get_word_toNat
      have hpow : 0 < 2 ^ (8 * (3 - size 256 1 bn.natAbs)) := Nat.two_pow_pos _
      have := Nat.le_mul_of_pos_right bn.natAbs hpow
      omega
    have hshift : (8 * (3 - nSize)).toUInt64.toNat = 8 * (3 - size 256 1 bn.natAbs) := by
      rw [UInt32.toNat_toUInt64, UInt32.toNat_mul, UInt32.toNat_sub_of_le _ _ (hiff.2 h3), hsize]
      simp only [UInt32.reduceToNat]
      omega
    have hsmall : 8 * (3 - size 256 1 bn.natAbs) < 64 := by omega
    rw [UInt64.toNat_toUInt32, UInt64.toNat_shiftLeft, hword, hshift, Nat.mod_eq_of_lt hsmall,
      Nat.shiftLeft_eq]
    omega
  · next h3 =>
    rw [if_neg h3] at hlt
    have hge : 3 ≤ nSize := UInt32.le_of_lt (UInt32.not_le.1 (mt hiff.1 h3))
    have hshift : (8 * (nSize - 3)).toNat = 8 * (size 256 1 bn.natAbs - 3) := by
      rw [UInt32.toNat_mul, UInt32.toNat_sub_of_le _ _ hge, hsize]
      simp only [UInt32.reduceToNat]
      omega
    rw [UInt64.toNat_toUInt32, BN_get_word_toNat, natAbs_BN_rshift, hshift]
    · exact Nat.mod_eq_of_lt (hlt.trans (by decide))
    · rw [natAbs_BN_rshift, hshift]
      exact hlt.trans (by decide)

theorem toNat_or_of_lt {x y : UInt32} {k : Nat} (hx : x.toNat < 2 ^ k) (hy : 2 ^ k ∣ y.toNat) :
    (x ||| y).toNat = y.toNat + x.toNat := by
  obtain ⟨q, hq⟩ := hy
  rw [UInt32.toNat_or, hq, Nat.or_comm, Nat.mul_comm, ← Nat.shiftLeft_eq,
    Nat.shiftLeft_add_eq_or_of_lt hx]

/-- Mantissa and exponent, after the first bit of the mantissa was tested. -/
def normalized (bn : Int) : UInt32 × UInt32 :=
  if leadingWord bn &&& 0x00800000 ≠ 0 then (leadingWord bn >>> 8, BN_num_bytes bn + 1)
  else (leadingWord bn, BN_num_bytes bn)

theorem normalized_toNat (h : bn.natAbs < 256 ^ 253) :
    (normalized bn).1.toNat = mantissa 256 2 3 bn.natAbs ∧
      (normalized bn).2.toNat = size 256 2 bn.natAbs ∧ size 256 2 bn.natAbs ≤ 254 := by
  obtain ⟨hsize, hle⟩ := BN_num_bytes_toNat h
  have hword := leadingWord_toNat h
  have hlt : 1 * mantissa 256 1 3 bn.natAbs < 256 ^ 3 := mantissa_lt (by decide)
  have hgreater : size 256 1 bn.natAbs < size 256 2 bn.natAbs ↔
      256 ^ 3 ≤ 2 * mantissa 256 1 3 bn.natAbs :=
    size_lt_size_mul (c := 1) (d := 2) (by decide) (by decide) (by decide)
  have hsucc : size 256 2 bn.natAbs ≤ size 256 1 bn.natAbs + 1 :=
    size_mul_le (c := 1) (d := 2) (by decide) (by decide)
  have hmono : size 256 1 bn.natAbs ≤ size 256 2 bn.natAbs := by
    have htwo : 2 * bn.natAbs < 256 ^ size 256 2 bn.natAbs := (size_le_iff (by decide)).1 le_rfl
    rw [size_le_iff (by decide), Nat.one_mul]
    omega
  unfold normalized
  simp only [sign_bit, hword]
  split
  · next hbit =>
    have hs : size 256 2 bn.natAbs = size 256 1 bn.natAbs + 1 := by omega
    have hm : mantissa 256 2 3 bn.natAbs = mantissa 256 1 3 bn.natAbs / 256 :=
      mantissa_mul_of_size_succ (c := 1) (d := 2) (by decide) hs
    refine ⟨?_, ?_, by omega⟩
    · rw [UInt32.toNat_shiftRight, hword, hm, Nat.shiftRight_eq_div_pow]
      rfl
    · rw [UInt32.toNat_add, hsize, hs]
      exact Nat.mod_eq_of_lt (by simp only [UInt32.toNat_one]; omega)
  · next hbit =>
    have hs : size 256 2 bn.natAbs = size 256 1 bn.natAbs := by omega
    have hm : mantissa 256 2 3 bn.natAbs = mantissa 256 1 3 bn.natAbs :=
      mantissa_mul_of_size_eq (c := 1) (d := 2) hs
    exact ⟨hword.trans hm.symm, hsize.trans hs.symm, by omega⟩

/-- The fields of a compact number. -/
theorem GetCompact_toNat (h : bn.natAbs < 256 ^ 253) :
    (GetCompact bn).toNat = size 256 2 bn.natAbs * 2 ^ 24 + ((if bn < 0 then 2 ^ 23 else 0) +
      mantissa 256 2 3 bn.natAbs) := by
  obtain ⟨hmantissa, hsize, hle⟩ := normalized_toNat h
  have hm : 2 * mantissa 256 2 3 bn.natAbs < 256 ^ 3 := mantissa_lt (by decide)
  have hcompact : GetCompact bn = ((normalized bn).1 ||| (normalized bn).2 <<< 24) |||
      (if bn < 0 then 0x00800000 else 0) := rfl
  have hexponent : ((normalized bn).2 <<< 24).toNat = size 256 2 bn.natAbs * 2 ^ 24 := by
    rw [UInt32.toNat_shiftLeft, hsize, Nat.shiftLeft_eq]
    simp only [UInt32.reduceToNat, Nat.reduceMod]
    omega
  have hsign : (if bn < 0 then (0x00800000 : UInt32) else 0).toNat =
      if bn < 0 then 2 ^ 23 else 0 := by
    split <;> rfl
  have hlow : ((normalized bn).1 ||| if bn < 0 then 0x00800000 else 0).toNat =
      (if bn < 0 then 2 ^ 23 else 0) + mantissa 256 2 3 bn.natAbs := by
    rw [toNat_or_of_lt (k := 23) (by omega), hsign, hmantissa]
    rw [hsign]
    split <;> decide
  have hlt : ((normalized bn).1 ||| if bn < 0 then 0x00800000 else 0).toNat < 2 ^ 24 := by
    rw [hlow]
    split <;> omega
  rw [hcompact, UInt32.or_assoc, UInt32.or_comm ((normalized bn).2 <<< 24), ← UInt32.or_assoc,
    toNat_or_of_lt hlt (hexponent ▸ Nat.dvd_mul_left _ _), hexponent, hlow]

end GetCompact

/-! ## Rounding -/

/-- The number with its three leading bytes, or two if the first bit is set; zeros behind. -/
def truncated (n : Int) : Int :=
  let nSize := (Nat.digits 256 n.natAbs).length
  let kept := if 0x80 ≤ n.natAbs / 256 ^ (nSize - 1) then 2 else 3
  n.tdiv (256 ^ (nSize - kept)) * 256 ^ (nSize - kept)

section Rounding

variable {n : Int}

theorem SetCompact_GetCompact (h : n.natAbs < 256 ^ 253) :
    SetCompact (GetCompact n) = n.sign * cut 256 2 3 n.natAbs := by
  have hm : 2 * mantissa 256 2 3 n.natAbs < 256 ^ 3 := mantissa_lt (by decide)
  have hfields := GetCompact_toNat h
  rw [SetCompact_eq, cut]
  rcases Int.lt_trichotomy n 0 with hneg | rfl | hpos
  · rw [if_pos hneg] at hfields
    have hsign : (GetCompact n).toNat / 2 ^ 23 % 2 = 1 := by omega
    have hsize : (GetCompact n).toNat / 2 ^ 24 = size 256 2 n.natAbs := by omega
    have hmantissa : (GetCompact n).toNat % 2 ^ 23 = mantissa 256 2 3 n.natAbs := by omega
    rw [if_pos hsign, hsize, hmantissa, Int.sign_eq_neg_one_of_neg hneg]
  · decide
  · rw [if_neg (by omega)] at hfields
    have hsign : ¬(GetCompact n).toNat / 2 ^ 23 % 2 = 1 := by omega
    have hsize : (GetCompact n).toNat / 2 ^ 24 = size 256 2 n.natAbs := by omega
    have hmantissa : (GetCompact n).toNat % 2 ^ 23 = mantissa 256 2 3 n.natAbs := by omega
    rw [if_neg hsign, hsize, hmantissa, Int.sign_eq_one_of_pos hpos]

/-- The exponent counts one more byte if the first bit is set. -/
theorem size_eq_length (a : Nat) : size 256 2 a =
    (Nat.digits 256 a).length +
      if 0x80 ≤ a / 256 ^ ((Nat.digits 256 a).length - 1) then 1 else 0 := by
  rcases eq_or_ne a 0 with rfl | ha
  · simp [size]
  have hsize : (Nat.digits 256 a).length = size 256 1 a := by rw [size, Nat.one_mul]
  have hpos : 0 < size 256 1 a := size_pos (by decide) (by decide) ha
  have hgreater : size 256 1 a < size 256 2 a ↔ 0x80 ≤ a / 256 ^ (size 256 1 a - 1) := by
    have hpow : 256 ^ size 256 1 a = 256 ^ (size 256 1 a - 1) * 256 := by
      rw [← pow_succ, Nat.sub_add_cancel hpos]
    rw [lt_size_iff (by decide), Nat.le_div_iff_mul_le (Nat.pow_pos (by decide)), hpow]
    omega
  have hsucc : size 256 2 a ≤ size 256 1 a + 1 :=
    size_mul_le (c := 1) (d := 2) (by decide) (by decide)
  have hmono : size 256 1 a ≤ size 256 2 a := by
    have htwo : 2 * a < 256 ^ size 256 2 a := (size_le_iff (by decide)).1 le_rfl
    rw [size_le_iff (by decide), Nat.one_mul]
    omega
  rw [hsize]
  split
  · next hbit =>
    have := hgreater.2 hbit
    omega
  · next hbit =>
    have := mt hgreater.1 hbit
    omega

theorem truncated_eq (n : Int) : truncated n = n.sign * cut 256 2 3 n.natAbs := by
  have hplace : (Nat.digits 256 n.natAbs).length -
      (if 0x80 ≤ n.natAbs / 256 ^ ((Nat.digits 256 n.natAbs).length - 1) then 2 else 3) =
      size 256 2 n.natAbs - 3 := by
    rw [size_eq_length]
    split <;> omega
  unfold truncated
  dsimp only
  rw [hplace, cut_eq (by decide)]
  generalize size 256 2 n.natAbs - 3 = e
  have hdiv (a : Nat) : (a : Int).tdiv (256 ^ e) * 256 ^ e = (a / 256 ^ e * 256 ^ e : Nat) := by
    rw [Int.natCast_mul, Int.natCast_pow, Int.natCast_ediv, Int.natCast_pow,
      Int.tdiv_eq_ediv_of_nonneg (Int.natCast_nonneg a)]
    rfl
  obtain ⟨a, rfl | rfl⟩ := n.eq_nat_or_neg
  · rw [hdiv, Int.natAbs_natCast]
    rcases eq_or_ne a 0 with rfl | ha
    · simp
    · rw [Int.sign_natCast_of_ne_zero ha, Int.one_mul]
  · rw [Int.neg_tdiv, Int.neg_mul, hdiv, Int.natAbs_neg, Int.natAbs_natCast, Int.sign_neg]
    rcases eq_or_ne a 0 with rfl | ha
    · simp
    · rw [Int.sign_natCast_of_ne_zero ha, Int.neg_mul, Int.one_mul]

/-- A number has the same fields after the cut. -/
theorem GetCompact_truncated (h : n.natAbs < 256 ^ 253) :
    GetCompact (SetCompact (GetCompact n)) = GetCompact n := by
  have hcut : cut 256 2 3 n.natAbs ≤ n.natAbs := cut_le (by decide)
  rcases eq_or_ne n 0 with rfl | hne
  · decide
  have hpos : 0 < cut 256 2 3 n.natAbs := by
    have := sub_cut_lt (c := 2) (p := 3) (by decide : 1 < 256) (by decide) (by decide) (by decide)
      (Int.natAbs_ne_zero.2 hne)
    omega
  have habs : (SetCompact (GetCompact n)).natAbs = cut 256 2 3 n.natAbs := by
    rw [SetCompact_GetCompact h, Int.natAbs_mul, Int.natAbs_sign_of_ne_zero hne, Nat.one_mul,
      Int.natAbs_natCast]
  have hneg : SetCompact (GetCompact n) < 0 ↔ n < 0 := by
    rw [SetCompact_GetCompact h, ← Int.sign_eq_neg_one_iff_neg, Int.sign_mul, Int.sign_sign,
      Int.sign_natCast_of_ne_zero hpos.ne', Int.mul_one, Int.sign_eq_neg_one_iff_neg]
  apply UInt32.toNat_inj.1
  rw [GetCompact_toNat (habs ▸ hcut.trans_lt h), GetCompact_toNat h, habs,
    size_cut (by decide) (by decide) (by decide) (by decide),
    mantissa_cut (by decide) (by decide) (by decide) (by decide)]
  simp only [hneg]

theorem GetCompact_mono {m : Int} (hm : 0 ≤ m) (hle : m ≤ n) (h : n.natAbs < 256 ^ 253) :
    GetCompact m ≤ GetCompact n := by
  have habs : m.natAbs ≤ n.natAbs := by omega
  rw [UInt32.le_iff_toNat_le, GetCompact_toNat (habs.trans_lt h), GetCompact_toNat h,
    if_neg (by omega), if_neg (by omega)]
  have hlt : 2 * mantissa 256 2 3 m.natAbs < 256 ^ 3 := mantissa_lt (by decide)
  rcases size_lt_or_mantissa_le (c := 2) (p := 3) (by decide : 1 < 256) habs with
    hsize | ⟨hsize, hmantissa⟩
  · omega
  · omega

/-- A compact number is the number cut to its first bytes, and the order is kept. -/
theorem compact_rounds :
    (∀ n : Int, n.natAbs < 2 ^ (8 * 253) →
      SetCompact (GetCompact n) = truncated n ∧
      (SetCompact (GetCompact n)).sign = n.sign ∧
      (SetCompact (GetCompact n)).natAbs ≤ n.natAbs ∧
      (n ≠ 0 → n.natAbs * (2 ^ 15 - 1) < (SetCompact (GetCompact n)).natAbs * 2 ^ 15) ∧
      GetCompact (SetCompact (GetCompact n)) = GetCompact n) ∧
    ∀ m n : Int, 0 ≤ m → m ≤ n → n.natAbs < 2 ^ (8 * 253) → GetCompact m ≤ GetCompact n := by
  rw [← pow_256]
  constructor
  swap
  · intro m n hm hle h
    exact GetCompact_mono hm hle h
  intro n h
  have hround := SetCompact_GetCompact h
  have hcut : cut 256 2 3 n.natAbs ≤ n.natAbs := cut_le (by decide)
  have hidem := GetCompact_truncated h
  rcases eq_or_ne n 0 with rfl | hne
  · simp [hround, truncated_eq]
  have hclose := sub_cut_lt (c := 2) (p := 3) (by decide : 1 < 256) (by decide) (by decide)
    (by decide) (Int.natAbs_ne_zero.2 hne)
  have habs : (SetCompact (GetCompact n)).natAbs = cut 256 2 3 n.natAbs := by
    rw [hround, Int.natAbs_mul, Int.natAbs_sign_of_ne_zero hne, Nat.one_mul, Int.natAbs_natCast]
  refine ⟨hround.trans (truncated_eq n).symm, ?_, habs ▸ hcut, ?_, hidem⟩
  · have hpos : cut 256 2 3 n.natAbs ≠ 0 := by omega
    rw [hround, Int.sign_mul, Int.sign_sign, Int.sign_natCast_of_ne_zero hpos, Int.mul_one]
  · intro _
    rw [habs]
    have hle : n.natAbs ≤ n.natAbs - cut 256 2 3 n.natAbs + cut 256 2 3 n.natAbs := le_tsub_add
    norm_num at hclose ⊢
    linarith

example : SetCompact (GetCompact 0x12345678) = 0x12345600 := by decide

end Rounding

end CBigNum

end TriTip
