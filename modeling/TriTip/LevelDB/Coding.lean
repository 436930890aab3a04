import TriTip.Lib.Base128
import TriTip.Lib.LittleEndian

/-!
# Coding

`coding.cc`: integers of a fixed width, low byte first, integers in groups of seven bits, and
strings with their length in front. What is written is read again in front of anything that follows.
-/

namespace TriTip.leveldb

def EncodeFixed32 (value : UInt32) : List UInt8 := LittleEndian.encode 4 value.toNat

def EncodeFixed64 (value : UInt64) : List UInt8 := LittleEndian.encode 8 value.toNat

/-- The first four bytes. -/
def DecodeFixed32 (ptr : List UInt8) : UInt32 := (LittleEndian.decode (ptr.take 4)).toUInt32

/-- The first eight bytes. -/
def DecodeFixed64 (ptr : List UInt8) : UInt64 := (LittleEndian.decode (ptr.take 8)).toUInt64

def EncodeVarint32 (v : UInt32) : List UInt8 :=
  if v < 0x80 then [v.toUInt8]
  else if v < 0x4000 then [(v ||| 128).toUInt8, (v >>> 7).toUInt8]
  else if v < 0x200000 then
    [(v ||| 128).toUInt8, ((v >>> 7) ||| 128).toUInt8, (v >>> 14).toUInt8]
  else if v < 0x10000000 then
    [(v ||| 128).toUInt8, ((v >>> 7) ||| 128).toUInt8, ((v >>> 14) ||| 128).toUInt8,
      (v >>> 21).toUInt8]
  else
    [(v ||| 128).toUInt8, ((v >>> 7) ||| 128).toUInt8, ((v >>> 14) ||| 128).toUInt8,
      ((v >>> 21) ||| 128).toUInt8, (v >>> 28).toUInt8]

theorem toNat_shiftRight_7 (v : UInt64) : (v >>> 7).toNat = v.toNat / 128 := by
  rw [UInt64.toNat_shiftRight]
  exact Nat.shiftRight_eq_div_pow _ 7

def EncodeVarint64 (v : UInt64) : List UInt8 :=
  if v < 128 then [v.toUInt8]
  else ((v &&& 127) ||| 128).toUInt8 :: EncodeVarint64 (v >>> 7)
termination_by v.toNat
decreasing_by
  next h =>
    have h128 : ¬v.toNat < 128 := h
    rw [toNat_shiftRight_7]
    omega

def PutLengthPrefixedSlice (dst value : List UInt8) : List UInt8 :=
  dst ++ (EncodeVarint32 value.length.toUInt32 ++ value)

def GetVarint32 (input : List UInt8) : Option (UInt32 × List UInt8) :=
  (Base128.gather 5 0 (0 : BitVec 32) input).map fun p => (UInt32.ofBitVec p.1, p.2)

def GetVarint64 (input : List UInt8) : Option (UInt64 × List UInt8) :=
  (Base128.gather 10 0 (0 : BitVec 64) input).map fun p => (UInt64.ofBitVec p.1, p.2)

def GetLengthPrefixedSlice (input : List UInt8) : Option (List UInt8 × List UInt8) :=
  match GetVarint32 input with
  | none => none
  | some (len, input) =>
    if len.toNat ≤ input.length then some (input.take len.toNat, input.drop len.toNat) else none

/-! ## Fixed width -/

@[simp] theorem length_EncodeFixed32 (value : UInt32) : (EncodeFixed32 value).length = 4 :=
  LittleEndian.length_encode 4 _

@[simp] theorem length_EncodeFixed64 (value : UInt64) : (EncodeFixed64 value).length = 8 :=
  LittleEndian.length_encode 8 _

theorem DecodeFixed32_append (value : UInt32) (rest : List UInt8) :
    DecodeFixed32 (EncodeFixed32 value ++ rest) = value := by
  have hlt := value.toNat_lt
  have htake : (EncodeFixed32 value ++ rest).take 4 = EncodeFixed32 value :=
    List.take_left' (length_EncodeFixed32 value)
  apply UInt32.toNat_inj.1
  rw [DecodeFixed32, htake, EncodeFixed32, LittleEndian.decode_encode]
  simp only [Nat.toUInt32_eq, UInt32.toNat_ofNat']
  omega

theorem DecodeFixed64_append (value : UInt64) (rest : List UInt8) :
    DecodeFixed64 (EncodeFixed64 value ++ rest) = value := by
  have hlt := value.toNat_lt
  have htake : (EncodeFixed64 value ++ rest).take 8 = EncodeFixed64 value :=
    List.take_left' (length_EncodeFixed64 value)
  apply UInt64.toNat_inj.1
  rw [DecodeFixed64, htake, EncodeFixed64, LittleEndian.decode_encode]
  simp only [Nat.toUInt64_eq, UInt64.toNat_ofNat']
  omega

/-! ## Groups of seven bits -/

/-- The top bit of a byte, set. -/
theorem or_128_mod (n : Nat) : (n ||| 128) % 256 = n % 128 + 128 := by
  have hall : ∀ m < 256, m ||| 128 = m % 128 + 128 := by decide +kernel
  have hmod : (n ||| 128) % 256 = n % 256 ||| 128 := Nat.or_mod_two_pow (n := 8)
  have hmm : n % 256 % 128 = n % 128 := Nat.mod_mod_of_dvd n (by decide)
  rw [hmod, hall _ (Nat.mod_lt _ (by decide)), hmm]

theorem toUInt8_or_128 (v : UInt32) : (v ||| 128).toUInt8 = UInt8.ofNat (v.toNat % 128 + 128) := by
  apply UInt8.toNat_inj.1
  have h := or_128_mod v.toNat
  rw [UInt32.toNat_toUInt8, UInt32.toNat_or, Base128.toNat_ofNat (by omega)]
  exact h

theorem toUInt8_eq_ofNat (v : UInt32) : v.toUInt8 = UInt8.ofNat v.toNat := by
  apply UInt8.toNat_inj.1
  rw [UInt32.toNat_toUInt8, UInt8.toNat_ofNat']

theorem toNat_shiftRight_of_lt (v : UInt32) {k : Nat} (hk : k < 32) :
    (v >>> UInt32.ofNat k).toNat = v.toNat / 2 ^ k := by
  rw [UInt32.toNat_shiftRight, UInt32.toNat_ofNat', Nat.mod_eq_of_lt (by omega : k < 2 ^ 32),
    Nat.mod_eq_of_lt hk, Nat.shiftRight_eq_div_pow]

/-- The cases of the source are those of one loop. -/
theorem EncodeVarint32_eq (v : UInt32) : EncodeVarint32 v = Base128.encode 4 v.toNat := by
  have hlt := v.toNat_lt
  have h7 : (v >>> 7).toNat = v.toNat / 2 ^ 7 := toNat_shiftRight_of_lt v (by decide)
  have h14 : (v >>> 14).toNat = v.toNat / 2 ^ 14 := toNat_shiftRight_of_lt v (by decide)
  have h21 : (v >>> 21).toNat = v.toNat / 2 ^ 21 := toNat_shiftRight_of_lt v (by decide)
  have h28 : (v >>> 28).toNat = v.toNat / 2 ^ 28 := toNat_shiftRight_of_lt v (by decide)
  have hdiv : v.toNat / 2 ^ 7 = v.toNat / 128 ∧ v.toNat / 2 ^ 14 = v.toNat / 128 / 128 ∧
      v.toNat / 2 ^ 21 = v.toNat / 128 / 128 / 128 ∧
      v.toNat / 2 ^ 28 = v.toNat / 128 / 128 / 128 / 128 := by omega
  simp only [EncodeVarint32, UInt32.lt_iff_toNat_lt, UInt32.reduceToNat, toUInt8_or_128, h7, h14,
    h21, Base128.encode]
  simp only [toUInt8_eq_ofNat, h7, h14, h21, h28, hdiv]
  -- a limit on the number is one on what is left of it after some groups
  have hlimit : (v.toNat < 16384 ↔ v.toNat / 128 < 128) ∧
      (v.toNat < 2097152 ↔ v.toNat / 128 / 128 < 128) ∧
      (v.toNat < 268435456 ↔ v.toNat / 128 / 128 / 128 < 128) := by omega
  simp only [hlimit]
  split_ifs <;> rfl

theorem GetVarint32_append (v : UInt32) (rest : List UInt8) :
    GetVarint32 (EncodeVarint32 v ++ rest) = some (v, rest) := by
  have hlt := v.toNat_lt
  rw [GetVarint32, EncodeVarint32_eq, Base128.gather_encode (by omega) hlt]
  rfl

theorem length_EncodeVarint32_le (v : UInt32) : (EncodeVarint32 v).length ≤ 5 := by
  rw [EncodeVarint32_eq]
  exact Base128.length_encode_le 4 _

theorem toUInt8_and_or (v : UInt64) :
    ((v &&& 127) ||| 128).toUInt8 = UInt8.ofNat (v.toNat % 128 + 128) := by
  apply UInt8.toNat_inj.1
  have hand : (v &&& 127).toNat = v.toNat % 128 := by
    rw [UInt64.toNat_and]
    exact Nat.and_two_pow_sub_one_eq_mod _ 7
  have h := or_128_mod (v.toNat % 128)
  rw [Nat.mod_mod] at h
  rw [UInt64.toNat_toUInt8, UInt64.toNat_or, hand, Base128.toNat_ofNat (by omega)]
  exact h

theorem EncodeVarint64_eq {w : Nat} {v : UInt64} (h : v.toNat < 128 ^ (w + 1)) :
    EncodeVarint64 v = Base128.encode w v.toNat := by
  have hbyte : v.toUInt8 = UInt8.ofNat v.toNat := by
    apply UInt8.toNat_inj.1
    rw [UInt64.toNat_toUInt8, UInt8.toNat_ofNat']
  induction w generalizing v with
  | zero =>
    have hv : v < 128 := by simpa [UInt64.lt_iff_toNat_lt] using h
    rw [EncodeVarint64, if_pos hv, hbyte, Base128.encode]
  | succ w ih =>
    rw [EncodeVarint64, Base128.encode]
    by_cases hv : v < 128
    · have hlt : v.toNat < 128 := by simpa [UInt64.lt_iff_toNat_lt] using hv
      rw [if_pos hv, if_pos hlt, hbyte]
    · have hge : ¬v.toNat < 128 := by simpa [UInt64.lt_iff_toNat_lt] using hv
      have hdiv : (v >>> 7).toNat < 128 ^ (w + 1) := by
        rw [toNat_shiftRight_7, Nat.div_lt_iff_lt_mul (by decide), ← Nat.pow_succ]
        exact h
      have hbyte' : (v >>> 7).toUInt8 = UInt8.ofNat (v >>> 7).toNat := by
        apply UInt8.toNat_inj.1
        rw [UInt64.toNat_toUInt8, UInt8.toNat_ofNat']
      rw [if_neg hv, if_neg hge, toUInt8_and_or, ih hdiv hbyte', toNat_shiftRight_7]

theorem GetVarint64_append (v : UInt64) (rest : List UInt8) :
    GetVarint64 (EncodeVarint64 v ++ rest) = some (v, rest) := by
  have hlt := v.toNat_lt
  have hw : v.toNat < 128 ^ (9 + 1) := by omega
  rw [GetVarint64, EncodeVarint64_eq hw, Base128.gather_encode hw hlt]
  rfl

/-! ## Strings -/

theorem GetLengthPrefixedSlice_append {value : List UInt8} (h : value.length < 2 ^ 32)
    (rest : List UInt8) :
    GetLengthPrefixedSlice (EncodeVarint32 value.length.toUInt32 ++ value ++ rest) =
      some (value, rest) := by
  have hlen : value.length.toUInt32.toNat = value.length := by
    rw [Nat.toUInt32_eq, UInt32.toNat_ofNat', Nat.mod_eq_of_lt h]
  rw [GetLengthPrefixedSlice, List.append_assoc, GetVarint32_append]
  simp [hlen]

end TriTip.leveldb
