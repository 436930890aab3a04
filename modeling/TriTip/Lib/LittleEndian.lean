import TriTip.Lib.Codec

/-!
# Integers as bytes, low byte first

`LittleEndian.encode w n` are the `w` low bytes of a number, `LittleEndian.decode` reads bytes as
a number. `Codec.little` is the codec this gives for a type whose values are numbers of `w` bytes,
with the machine integers as its instances, and `Codec.bytes` the codec of a fixed number of raw
bytes.
-/

namespace LittleEndian

def encode : Nat → Nat → List UInt8
  | 0, _ => []
  | w + 1, n => UInt8.ofNat n :: encode w (n / 256)

def decode (bs : List UInt8) : Nat := bs.foldr (fun b n => b.toNat + 256 * n) 0

@[simp] theorem decode_cons (b : UInt8) (bs : List UInt8) :
    decode (b :: bs) = b.toNat + 256 * decode bs := rfl

@[simp] theorem length_encode (w n : Nat) : (encode w n).length = w := by
  induction w generalizing n with
  | zero => rfl
  | succ w ih => exact congrArg (· + 1) (ih (n / 256))

theorem decode_encode (w n : Nat) : decode (encode w n) = n % 256 ^ w := by
  induction w generalizing n with
  | zero => simp [encode, decode, Nat.mod_one]
  | succ w ih =>
    have hmod : n % 256 ^ (w + 1) = n % 256 + 256 * (n / 256 % 256 ^ w) := by
      rw [Nat.pow_succ', Nat.mod_mul]
    unfold encode
    rw [decode_cons, ih, UInt8.toNat_ofNat', hmod]

theorem decode_append (bs cs : List UInt8) :
    decode (bs ++ cs) = decode bs + 256 ^ bs.length * decode cs := by
  induction bs with
  | nil => simp [decode]
  | cons b bs ih =>
    rw [List.cons_append, decode_cons, ih, decode_cons, List.length_cons, Nat.pow_succ']
    ring

theorem decode_append_replicate_zero (bs : List UInt8) (k : Nat) :
    decode (bs ++ List.replicate k 0) = decode bs := by
  have hzeros : decode (List.replicate k 0) = 0 := by
    induction k with
    | zero => rfl
    | succ k ih =>
      rw [List.replicate_succ, decode_cons, ih]
      rfl
  rw [decode_append, hzeros, Nat.mul_zero, Nat.add_zero]

theorem decode_lt (bs : List UInt8) : decode bs < 256 ^ bs.length := by
  induction bs with
  | nil => decide
  | cons b bs ih =>
    have hb := b.toNat_lt
    rw [decode_cons, List.length_cons, Nat.pow_succ']
    omega

theorem decode_take (k : Nat) (bs : List UInt8) : decode (bs.take k) = decode bs % 256 ^ k := by
  rcases Nat.lt_or_ge k bs.length with h | h
  · conv_rhs => rw [← List.take_append_drop k bs]
    have hlen : (bs.take k).length = k := List.length_take_of_le h.le
    have hlt := decode_lt (bs.take k)
    rw [hlen] at hlt
    rw [decode_append, hlen, Nat.add_mul_mod_self_left, Nat.mod_eq_of_lt hlt]
  · have hlt := (decode_lt bs).trans_le (Nat.pow_le_pow_right (by decide) h)
    rw [List.take_of_length_le h, Nat.mod_eq_of_lt hlt]

end LittleEndian

namespace Codec

variable {α : Type}

/-- `w` bytes, low byte first. A read that fails leaves the variable. -/
def little (w : Nat) (toNat : α → Nat) (ofNat : Nat → α) : Codec α where
  write a := LittleEndian.encode w (toNat a)
  read bs :=
    if bs.length < w then none else some (ofNat (LittleEndian.decode (bs.take w)), bs.drop w)
  thrown a _ := a

theorem little_roundTrips {w : Nat} {toNat : α → Nat} {ofNat : Nat → α} {a : α}
    (hlt : toNat a < 256 ^ w) (h : ofNat (toNat a) = a) : (little w toNat ofNat).RoundTrips a := by
  intro rest
  have hlen := LittleEndian.length_encode w (toNat a)
  unfold little
  dsimp only
  rw [if_neg (by rw [List.length_append, hlen]; omega), List.take_left' hlen, List.drop_left' hlen,
    LittleEndian.decode_encode, Nat.mod_eq_of_lt hlt, h]

/-- Bytes as they are. -/
def bytes (n : Nat) : Codec (Vector UInt8 n) where
  write v := v.toList
  read bs := if h : (bs.take n).length = n then some (⟨(bs.take n).toArray, h⟩, bs.drop n) else none
  thrown v _ := v

theorem bytes_roundTrips {n : Nat} (v : Vector UInt8 n) : (bytes n).RoundTrips v := by
  intro rest
  have hlen : v.toList.length = n := v.length_toList
  have htake : (v.toList ++ rest).take n = v.toList := List.take_left' hlen
  unfold bytes
  dsimp only
  rw [dif_pos (by rw [htake, hlen]), List.drop_left' hlen]
  simp only [htake]
  rfl

def uint8 : Codec UInt8 := little 1 UInt8.toNat UInt8.ofNat

def uint32 : Codec UInt32 := little 4 UInt32.toNat UInt32.ofNat

def uint64 : Codec UInt64 := little 8 UInt64.toNat UInt64.ofNat

def int32 : Codec Int32 := little 4 (fun n => n.toUInt32.toNat) fun n => (UInt32.ofNat n).toInt32

def int64 : Codec Int64 := little 8 (fun n => n.toUInt64.toNat) fun n => (UInt64.ofNat n).toInt64

theorem uint8_roundTrips (b : UInt8) : uint8.RoundTrips b :=
  little_roundTrips b.toNat_lt UInt8.ofNat_toNat

theorem uint32_roundTrips (n : UInt32) : uint32.RoundTrips n :=
  little_roundTrips n.toNat_lt UInt32.ofNat_toNat

theorem uint64_roundTrips (n : UInt64) : uint64.RoundTrips n :=
  little_roundTrips n.toNat_lt UInt64.ofNat_toNat

theorem int32_roundTrips (n : Int32) : int32.RoundTrips n :=
  little_roundTrips n.toUInt32.toNat_lt (by rw [UInt32.ofNat_toNat, Int32.toInt32_toUInt32])

theorem int64_roundTrips (n : Int64) : int64.RoundTrips n :=
  little_roundTrips n.toUInt64.toNat_lt (by rw [UInt64.ofNat_toNat, Int64.toInt64_toUInt64])

end Codec
