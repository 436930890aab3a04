import TriTip.Base58.EncodeBase58
import TriTip.Block.Compact
import TriTip.Lib.LittleEndian

/-!
# Proof of work

`CheckProofOfWork` (`bitcoin_messages_handlers.cpp`), with `setuint256` and `getuint256` of
`bignum.h`. Numbers of 256 bits are converted through bytes with a sign. A big number that is too
large or negative would not keep its value (`getuint256_toNat`), but such targets are refused before
the comparison, so that a hash is compared with what `nBits` says (`CheckProofOfWork_iff`).
-/

namespace TriTip

open Significand

namespace CBigNum

/-- The bytes of a number of 256 bits, the most significant one first. -/
def uint256Bytes (n : BitVec 256) : List UInt8 := (LittleEndian.encode 32 n.toNat).reverse

def setuint256 (n : BitVec 256) : Int :=
  -- leading zeroes are left out, and a first bit that is set is not a sign
  let bytes := mpiBytes false ((uint256Bytes n).dropWhile fun c => c = 0)
  BN_mpi2bn (mpiSize (.ofNat bytes.length) ++ bytes)

def getuint256 (bn : Int) : BitVec 256 :=
  let vch := BN_bn2mpi bn
  if vch.length < 4 then 0
  else
    let vch := if 4 < vch.length then vch.modify 4 (· &&& 0x7f) else vch
    -- from the last byte down to the first behind the size, at most 32 of them
    .ofNat 256 (LittleEndian.decode ((vch.drop 4).reverse.take 32))

end CBigNum

def bnProofOfWorkLimit : Int := CBigNum.setuint256 (~~~(0 : BitVec 256) >>> 32)

def CheckProofOfWork (hash : BitVec 256) (nBits : UInt32) : Bool :=
  let bnTarget := CBigNum.SetCompact nBits
  -- Check range
  if bnTarget ≤ 0 ∨ bnTarget > bnProofOfWorkLimit then false
  -- Check proof of work matches claimed amount
  else if hash > CBigNum.getuint256 bnTarget then false
  else true

/-- The number that `nBits` is for: sign, mantissa and exponent, with three bytes of the mantissa
before the point. -/
def denoted (nBits : UInt32) : Int :=
  let nSize := nBits.toNat / 2 ^ 24
  let nWord := nBits.toNat % 2 ^ 23
  let magnitude : Nat := nWord * 256 ^ nSize / 256 ^ 3
  if nBits.toNat / 2 ^ 23 % 2 = 1 then -magnitude else magnitude

/-! ## Bytes with a sign -/

namespace CBigNum

theorem bit_cleared (c : UInt8) : c &&& 0x80 = 0 → c &&& 0x7f = c ∧ (c ||| 0x80) &&& 0x7f = c := by
  revert c
  decide +kernel

/-- Without the sign, the bytes are those of the magnitude. -/
theorem value_mpiBytes (neg : Bool) (bytes : List UInt8) :
    BN_bin2bn ((mpiBytes neg bytes).modifyHead (· &&& 0x7f)) = BN_bin2bn bytes := by
  cases bytes with
  | nil => rfl
  | cons c rest =>
    dsimp only [mpiBytes]
    split
    · next hbit =>
      obtain ⟨hplain, hsign⟩ := bit_cleared c hbit
      rw [List.modifyHead_cons]
      cases neg with
      | false => rw [if_neg Bool.false_ne_true, hplain]
      | true => rw [if_pos rfl, hsign]
    · have hzero : (if neg = true then (0x80 : UInt8) else 0) &&& 0x7f = 0 := by
        cases neg <;> rfl
      rw [List.modifyHead_cons, hzero]
      exact Radix.value_zero_cons

theorem decode_reverse (bytes : List UInt8) :
    LittleEndian.decode bytes.reverse = BN_bin2bn bytes := by
  unfold LittleEndian.decode BN_bin2bn Radix.value
  rw [← List.map_reverse, Nat.ofDigits_eq_foldr, List.foldr_map]
  rfl

/-- The sign is lost, and what is above 256 bits. -/
theorem getuint256_toNat (bn : Int) : (getuint256 bn).toNat = bn.natAbs % 2 ^ 256 := by
  unfold getuint256 BN_bn2mpi
  extract_lets bytes vch
  have hlen : (mpiSize (.ofNat bytes.length)).length = 4 := rfl
  have hvch : vch.length = 4 + bytes.length := by
    simp only [vch, List.length_append, hlen]
  have hcleared : (if 4 < vch.length then vch.modify 4 (· &&& 0x7f) else vch).drop 4 =
      bytes.modifyHead (· &&& 0x7f) := by
    cases hbytes : bytes with
    | nil =>
      rw [if_neg (by simp [hvch, hbytes])]
      simp only [vch, hbytes]
      rfl
    | cons c rest =>
      rw [if_pos (by simp [hvch, hbytes])]
      simp only [vch, hbytes]
      rfl
  rw [if_neg (by omega), hcleared, LittleEndian.decode_take, decode_reverse]
  have hvalue : BN_bin2bn (bytes.modifyHead (· &&& 0x7f)) = bn.natAbs :=
    (value_mpiBytes _ _).trans (BN_bin2bn_BN_bn2bin _)
  rw [hvalue, BitVec.toNat_ofNat]
  exact Nat.mod_mod_of_dvd _ dvd_rfl

theorem BN_mpi2bn_mpiBytes (nSize : UInt32) (bytes : List UInt8) :
    BN_mpi2bn (mpiSize nSize ++ mpiBytes false bytes) = BN_bin2bn bytes := by
  have hdrop : (mpiSize nSize ++ mpiBytes false bytes).drop 4 = mpiBytes false bytes :=
    List.drop_left' rfl
  unfold BN_mpi2bn
  rw [hdrop]
  cases bytes with
  | nil => rfl
  | cons c rest =>
    dsimp only [mpiBytes]
    by_cases hbit : c &&& 0x80 = 0
    · rw [if_pos hbit]
      exact if_pos hbit
    · rw [if_neg hbit]
      exact congrArg Nat.cast Radix.value_zero_cons

theorem BN_bin2bn_dropWhile (bytes : List UInt8) :
    BN_bin2bn (bytes.dropWhile fun c => c = 0) = BN_bin2bn bytes := by
  induction bytes with
  | nil => rfl
  | cons c rest ih =>
    rcases eq_or_ne c 0 with rfl | hc
    · rw [List.dropWhile_cons_of_pos (by simp), ih]
      exact Radix.value_zero_cons.symm
    · rw [List.dropWhile_cons_of_neg (by simpa using hc)]

theorem BN_bin2bn_uint256Bytes (n : BitVec 256) : BN_bin2bn (uint256Bytes n) = n.toNat := by
  unfold uint256Bytes
  rw [← decode_reverse, List.reverse_reverse, LittleEndian.decode_encode]
  exact Nat.mod_eq_of_lt n.isLt

theorem setuint256_eq (n : BitVec 256) : setuint256 n = n.toNat := by
  unfold setuint256
  rw [BN_mpi2bn_mpiBytes, BN_bin2bn_dropWhile, BN_bin2bn_uint256Bytes]

end CBigNum

theorem bnProofOfWorkLimit_eq : bnProofOfWorkLimit = 2 ^ 224 - 1 := by
  unfold bnProofOfWorkLimit
  rw [CBigNum.setuint256_eq]
  rfl

/-! ## The target -/

theorem value_eq_div (s m : Nat) : value 256 3 s m = m * 256 ^ s / 256 ^ 3 := by
  unfold value
  split
  · next h =>
    have hpow : 256 ^ 3 = 256 ^ (3 - s) * 256 ^ s := by rw [← pow_add, Nat.sub_add_cancel h]
    rw [hpow, Nat.mul_div_mul_right _ _ (Nat.pow_pos (by decide))]
  · next h =>
    have hpow : 256 ^ s = 256 ^ (s - 3) * 256 ^ 3 := by
      rw [← pow_add, Nat.sub_add_cancel (by omega)]
    rw [hpow, ← Nat.mul_assoc, Nat.mul_div_cancel _ (Nat.pow_pos (by decide))]

theorem SetCompact_eq_denoted (nBits : UInt32) : CBigNum.SetCompact nBits = denoted nBits := by
  unfold denoted
  rw [CBigNum.SetCompact_eq, value_eq_div]
  dsimp only
  split
  · exact Int.neg_one_mul _
  · exact Int.one_mul _

/-- A target in range is converted as it is. -/
theorem getuint256_of_range {bn : Int} (hpos : 0 < bn) (hle : bn ≤ bnProofOfWorkLimit) :
    ((CBigNum.getuint256 bn).toNat : Int) = bn := by
  rw [bnProofOfWorkLimit_eq] at hle
  rw [CBigNum.getuint256_toNat, Nat.mod_eq_of_lt (by omega)]
  omega

/-- Proof of work is a hash that is at most the target, of a target in range. -/
theorem CheckProofOfWork_iff (hash : BitVec 256) (nBits : UInt32) :
    (CheckProofOfWork hash nBits = true ↔
      0 < denoted nBits ∧ denoted nBits ≤ 2 ^ 224 - 1 ∧ (hash.toNat : Int) ≤ denoted nBits) ∧
    (0 < denoted nBits ∧ denoted nBits ≤ 2 ^ 224 - 1 →
      ((CBigNum.getuint256 (CBigNum.SetCompact nBits)).toNat : Int) = denoted nBits) := by
  unfold CheckProofOfWork
  rw [SetCompact_eq_denoted, ← bnProofOfWorkLimit_eq]
  refine ⟨?_, fun ⟨hpos, hle⟩ => getuint256_of_range hpos hle⟩
  dsimp only
  by_cases hrange : 0 < denoted nBits ∧ denoted nBits ≤ bnProofOfWorkLimit
  · have hconverted := getuint256_of_range hrange.1 hrange.2
    have hhash : hash > CBigNum.getuint256 (denoted nBits) ↔ denoted nBits < hash.toNat := by
      rw [gt_iff_lt, BitVec.lt_def]
      omega
    rw [if_neg (by omega)]
    simp only [hhash]
    split <;> simp <;> omega
  · rw [if_pos (by omega)]
    simp
    omega

end TriTip
