import TriTip.Wallet.LoadWallet

/-!
# The bytes of public keys

`Set`, `Serialize` and `Unserialize` of `CPubKey` (`key.h`), with the 65 bytes that a key is kept
in. A key has as many bytes as its first byte says. `Set` compares that with the bytes it is given,
`Unserialize` does not, so that bytes of two keys can become one (`Unserialize_iff`).
-/

namespace TriTip

/-- Write bytes into a buffer. -/
def copyTo (p : List UInt8) (pos : Nat) (bytes : List UInt8) : List UInt8 :=
  p.take pos ++ bytes ++ p.drop (pos + bytes.length)

/-- The lengths in front of vectors, of `serialize.h`. A length that is too large is not read. -/
structure CompactSize where
  WriteCompactSize : UInt64 → List UInt8
  ReadCompactSize : List UInt8 → Option (UInt64 × List UInt8)
  le_MAX_SIZE : ∀ {s n rest}, ReadCompactSize s = some (n, rest) → n ≤ 0x02000000

theorem GetLen_le (vch : List UInt8) : GetLen vch ≤ 65 := by
  cases vch with
  | nil => exact Nat.zero_le 65
  | cons chHeader rest =>
    simp only [GetLen]
    split_ifs <;> decide

/-- The length is that of the first byte. -/
theorem GetLen_take (vch : List UInt8) {n : Nat} (hn : n ≠ 0) :
    GetLen (vch.take n) = GetLen vch := by
  obtain ⟨m, rfl⟩ := Nat.exists_eq_succ_of_ne_zero hn
  cases vch <;> rfl

/-- The data of a public key; what is behind the key is left of others. -/
structure CPubKey.Buffer where
  vch : Vector UInt8 65

namespace CPubKey.Buffer

variable (b : Buffer)

def size : Nat := GetLen b.vch.toList

def IsValid : Bool := 0 < b.size

def Invalidate : Buffer := ⟨b.vch.set 0 0xff⟩

/-- `memcpy` to the beginning of the data. -/
def fill (bytes : List UInt8) (h : bytes.length ≤ 65) : Buffer :=
  ⟨⟨(copyTo b.vch.toList 0 bytes).toArray, by simp [copyTo]; omega⟩⟩

def Set (bytes : List UInt8) : Buffer :=
  if h : GetLen bytes ≠ 0 ∧ GetLen bytes = bytes.length then
    b.fill bytes (h.2 ▸ GetLen_le bytes)
  else b.Invalidate

/-- The key that the data is for. -/
def key : CPubKey where
  vch := b.vch.toList.take b.size
  length_eq := by
    have hle : b.size ≤ 65 := GetLen_le _
    rcases eq_or_ne b.size 0 with hzero | hne
    · rw [hzero]
      rfl
    · rw [GetLen_take _ hne, List.length_take, Vector.length_toList]
      exact (Nat.min_eq_left hle).symm

variable (S : CompactSize)

def Serialize : List UInt8 :=
  S.WriteCompactSize (.ofNat b.size) ++ b.vch.toList.take b.size

/-- With what is left of the stream; `none` is an exception. -/
def Unserialize (s : List UInt8) : Option (Buffer × List UInt8) := do
  let (nSize, s) ← S.ReadCompactSize s
  let len := nSize.toUInt32.toNat
  if s.length < len then none
  else if h : len ≤ 65 then
    some (b.fill (s.take len) ((List.length_take_le len s).trans h), s.drop len)
  else
    -- invalid pubkey, skip available data
    some (b.Invalidate, s.drop len)

variable {b : Buffer}

theorem toList_fill (bytes : List UInt8) (h : bytes.length ≤ 65) :
    (b.fill bytes h).vch.toList = bytes ++ b.vch.toList.drop bytes.length := by
  simp [fill, copyTo]

theorem size_Invalidate (b : Buffer) : b.Invalidate.size = 0 := by
  have hlist : b.Invalidate.vch.toList = 0xff :: b.vch.toList.tail := by
    unfold Invalidate
    rw [Vector.toList_set]
    cases hvch : b.vch.toList with
    | nil =>
      have hlength := b.vch.length_toList
      rw [hvch] at hlength
      cases hlength
    | cons c rest => rfl
  unfold size
  rw [hlist]
  rfl

theorem size_fill {bytes : List UInt8} (hne : bytes ≠ []) (h : bytes.length ≤ 65) :
    (b.fill bytes h).size = GetLen bytes := by
  unfold size
  rw [toList_fill]
  cases bytes with
  | nil => exact absurd rfl hne
  | cons c rest => rfl

/-- A key that has no bytes is the one that is not valid. -/
theorem key_eq_of_size_eq_zero (h : b.size = 0) : b.key = ⟨[], rfl⟩ := by
  simp [key, h]

theorem key_fill_vch {bytes : List UInt8} (hlength : bytes.length ≤ 65)
    (hsize : (b.fill bytes hlength).size = bytes.length) :
    (b.fill bytes hlength).key.vch = bytes := by
  simp only [key, hsize, toList_fill]
  exact List.take_left' rfl

/-- `Set` makes the key of the bytes. -/
theorem key_Set (bytes : List UInt8) : (b.Set bytes).key = .Set bytes := by
  unfold Set CPubKey.Set
  by_cases hlen : GetLen bytes = bytes.length
  swap
  · rw [dif_neg fun h => hlen h.2, dif_neg hlen, key_eq_of_size_eq_zero (size_Invalidate b)]
  rcases eq_or_ne bytes [] with rfl | hne
  · rw [dif_neg (by simp [GetLen]), key_eq_of_size_eq_zero (size_Invalidate b)]
    rfl
  · have hpos : GetLen bytes ≠ 0 := by
      rw [hlen]
      exact List.length_pos_iff.2 hne |>.ne'
    have hfill : bytes.length ≤ 65 := hlen ▸ GetLen_le bytes
    have hvch := key_fill_vch (b := b) hfill ((size_fill hne hfill).trans hlen)
    rw [dif_pos ⟨hpos, hlen⟩, dif_pos hlen]
    cases hkey : (b.fill bytes hfill).key with
    | mk vch length_eq =>
      rw [hkey] at hvch
      cases hvch
      rfl

/-- A key that was read whole: it is not valid, or it has the bytes that were read and no others. -/
def Decoded (b : Buffer) (S : CompactSize) (nSize : UInt64) (read : List UInt8) : Prop :=
  b.IsValid = false ∨
    b.size = nSize.toNat ∧ b.key.vch = read ∧ b.Serialize S = S.WriteCompactSize nSize ++ read

theorem isValid_eq_false_iff : b.IsValid = false ↔ b.size = 0 := by
  unfold IsValid
  rw [decide_eq_false_iff_not, Nat.not_lt, Nat.le_zero]

variable {S : CompactSize} {b' : Buffer} {s read rest : List UInt8} {nSize : UInt64}

/-- What can be left when a key is read. -/
theorem Unserialize_cases (hsize : S.ReadCompactSize s = some (nSize, read))
    (h : b.Unserialize S s = some (b', rest)) :
    65 < nSize.toNat ∧ b' = b.Invalidate ∨
    nSize.toNat ≤ 65 ∧ (read.take nSize.toNat).length = nSize.toNat ∧
      ∃ hlength, b' = b.fill (read.take nSize.toNat) hlength := by
  have hmax : nSize.toNat ≤ 0x02000000 := UInt64.le_iff_toNat_le.1 (S.le_MAX_SIZE hsize)
  have hlen : nSize.toUInt32.toNat = nSize.toNat := by
    rw [UInt64.toNat_toUInt32]
    omega
  unfold Unserialize at h
  rw [hsize, Option.bind_eq_bind, Option.bind_some] at h
  simp only [hlen] at h
  split at h
  · cases h
  next hlong =>
  split at h
  · next hle =>
    cases h
    exact .inr ⟨hle, List.length_take_of_le (Nat.not_lt.1 hlong), _, rfl⟩
  · next hgt =>
    cases h
    exact .inl ⟨Nat.not_le.1 hgt, rfl⟩

/-- Bytes that are as many as the first of them says are read whole. -/
theorem decoded_fill_iff {bytes : List UInt8} (hne : bytes ≠ []) (hlength : bytes.length ≤ 65)
    (hsize : bytes.length = nSize.toNat) :
    (b.fill bytes hlength).Decoded S nSize bytes ↔
      GetLen bytes = 0 ∨ GetLen bytes = nSize.toNat := by
  unfold Decoded
  rw [isValid_eq_false_iff, size_fill hne]
  apply or_congr_right
  constructor
  · exact And.left
  · intro hlen
    have hall := (size_fill (b := b) hne hlength).trans (hlen.trans hsize.symm)
    have hkey := key_fill_vch hlength hall
    refine ⟨hlen, hkey, ?_⟩
    calc (b.fill bytes hlength).Serialize S =
          S.WriteCompactSize (.ofNat (b.fill bytes hlength).size) ++
            (b.fill bytes hlength).key.vch := rfl
      _ = S.WriteCompactSize nSize ++ bytes := by rw [hkey, hall, hsize, UInt64.ofNat_toNat]

end CPubKey.Buffer

open CPubKey.Buffer in
/-- **When a key is read whole**: its bytes are skipped, or there are none and the key was not
valid, or the first of them is for no key or for one of so many bytes. -/
theorem CPubKey.Unserialize_iff (S : CompactSize) (b b' : CPubKey.Buffer) (s read rest : List UInt8)
    (nSize : UInt64) (hsize : S.ReadCompactSize s = some (nSize, read))
    (h : b.Unserialize S s = some (b', rest)) :
    b'.Decoded S nSize (read.take nSize.toNat) ↔
      65 < nSize.toNat ∨ nSize.toNat = 0 ∧ b.IsValid = false ∨
      0 < nSize.toNat ∧ nSize.toNat ≤ 65 ∧ (GetLen read = 0 ∨ GetLen read = nSize.toNat) := by
  obtain ⟨hgt, rfl⟩ | ⟨hle, htake, hlength, rfl⟩ := Unserialize_cases hsize h
  · have hinvalid : b.Invalidate.IsValid = false := isValid_eq_false_iff.2 (size_Invalidate b)
    simp only [hgt, true_or, iff_true]
    exact .inl hinvalid
  rcases Nat.eq_zero_or_pos nSize.toNat with hzero | hpos
  · -- nothing is read, and the key is left as it was
    have hsame : (b.fill (read.take nSize.toNat) hlength).size = b.size := by
      unfold size
      rw [toList_fill, hzero]
      rfl
    have hkept : (b.fill (read.take nSize.toNat) hlength).Decoded S nSize (read.take nSize.toNat) ↔
        b.size = 0 := by
      unfold Decoded
      rw [isValid_eq_false_iff, hsame]
      exact ⟨fun h => h.elim id fun h => h.1.trans hzero, Or.inl⟩
    rw [hkept, isValid_eq_false_iff]
    omega
  · have hne : read.take nSize.toNat ≠ [] := by
      rintro hnil
      rw [hnil] at htake
      exact hpos.ne htake
    rw [decoded_fill_iff hne hlength htake, GetLen_take read hpos.ne']
    omega

/-- Lengths in one byte. -/
def CompactSize.oneByte : CompactSize where
  WriteCompactSize := fun n => writeCompactSize n.toNat
  ReadCompactSize := fun s =>
    match s with
    | [] => none
    | nSize :: rest => if nSize < 253 then some (nSize.toUInt64, rest) else none
  le_MAX_SIZE := by
    intro s n rest h
    cases s with
    | nil => cases h
    | cons nSize bs =>
      dsimp only at h
      split at h
      · cases h
        have hlt := nSize.toNat_lt
        rw [UInt64.le_iff_toNat_le, UInt8.toNat_toUInt64]
        exact (Nat.le_of_lt hlt).trans (by decide)
      · cases h

namespace CPubKey

/-- A key of 33 bytes. -/
def Buffer.compressed : Buffer := ⟨(Vector.replicate 65 7).set 0 2⟩

/-- One byte is read over a key, and the 32 others stay. -/
theorem Unserialize_oneByte :
    ∃ b' : Buffer, Buffer.compressed.Unserialize .oneByte [1, 3] = some (b', []) ∧
      ¬b'.Decoded .oneByte 1 [3] ∧ b'.key.vch = 3 :: List.replicate 32 7 := by
  refine ⟨_, rfl, ?_, by decide⟩
  rintro (hinvalid | ⟨hsize, -⟩)
  · exact absurd hinvalid (by decide)
  · exact absurd hsize (by decide)

/-- 33 bytes are read over a key. -/
theorem Unserialize_iff_compressed :
    ∃ b' : Buffer, b'.Decoded .oneByte 33 ((2 :: List.replicate 32 9).take (33 : UInt64).toNat) ↔
      65 < (33 : UInt64).toNat ∨
      (33 : UInt64).toNat = 0 ∧ Buffer.compressed.IsValid = false ∨
      0 < (33 : UInt64).toNat ∧ (33 : UInt64).toNat ≤ 65 ∧
        (GetLen (2 :: List.replicate 32 9) = 0 ∨
          GetLen (2 :: List.replicate 32 9) = (33 : UInt64).toNat) :=
  ⟨_, Unserialize_iff .oneByte .compressed _ (33 :: 2 :: List.replicate 32 9)
    (2 :: List.replicate 32 9) [] 33 rfl rfl⟩

end CPubKey

end TriTip
