import TriTip.Block.Transaction
import TriTip.Lib.Bloom
import TriTip.Lib.ByteSet
import TriTip.Lib.LittleEndian

/-!
# The filters of peers

`MurmurHash3` (`hash.cpp`) and `CBloomFilter` (`bloom.cpp`). A division by zero or an access out
of range is a `BloomFault`. A usable filter, one with a byte of data or without hash functions,
has none, and its bits behave as a Bloom filter (`insert_spec`, `contains_spec`); the shortcuts
for the one-byte filter with all bits set make no difference to that. `size_t` does not overflow:
a filter comes from a message or from the constructor.
-/

namespace TriTip

/-! ## `MurmurHash3` -/

def ROTL32 (x r : UInt32) : UInt32 := (x <<< r) ||| (x >>> (32 - r))

/-- A word of the body or the tail, as it goes into the hash. -/
def mixWord (k1 : UInt32) : UInt32 :=
  let k1 := k1 * 0xcc9e2d51
  let k1 := ROTL32 k1 15
  k1 * 0x1b873593

/-- The body: words of four bytes; with the tail. -/
def hashBody (h1 : UInt32) : List UInt8 → UInt32 × List UInt8
  | b0 :: b1 :: b2 :: b3 :: rest =>
    let k1 := UInt32.ofNat (LittleEndian.decode [b0, b1, b2, b3])
    let h1 := h1 ^^^ mixWord k1
    let h1 := ROTL32 h1 13
    hashBody (h1 * 5 + 0xe6546b64) rest
  | tail => (h1, tail)

def hashTail (h1 : UInt32) (tail : List UInt8) : UInt32 :=
  match tail with
  | [] => h1
  | _ => h1 ^^^ mixWord (UInt32.ofNat (LittleEndian.decode tail))

def MurmurHash3 (nHashSeed : UInt32) (vDataToHash : List UInt8) : UInt32 :=
  let (h1, tail) := hashBody nHashSeed vDataToHash
  let h1 := hashTail h1 tail
  let h1 := h1 ^^^ UInt32.ofNat vDataToHash.length
  let h1 := h1 ^^^ (h1 >>> 16)
  let h1 := h1 * 0x85ebca6b
  let h1 := h1 ^^^ (h1 >>> 13)
  let h1 := h1 * 0xc2b2ae35
  h1 ^^^ (h1 >>> 16)

/-! ## `CBloomFilter` -/

structure CBloomFilter where
  vData : List UInt8
  nHashFuncs : UInt32
  nTweak : UInt32
  nFlags : UInt8
  deriving DecidableEq

inductive BloomFault where
  | divisionByZero
  | outOfRange
  deriving DecidableEq

def MAX_BLOOM_FILTER_SIZE : Nat := 36000

def MAX_HASH_FUNCS : UInt32 := 50

def bit_mask : Vector UInt8 8 := #v[0x01, 0x02, 0x04, 0x08, 0x10, 0x20, 0x40, 0x80]

/-- `bit_mask[7 & nIndex]`. -/
def bitMask (nIndex : Nat) : UInt8 :=
  bit_mask.get ⟨7 &&& nIndex, Nat.lt_of_le_of_lt Nat.and_le_left (by decide)⟩

namespace CBloomFilter

/-- `vData[i]`. -/
def byteAt (filter : CBloomFilter) (i : Nat) : Except BloomFault UInt8 :=
  filter.vData[i]?.elim (.error .outOfRange) .ok

def Hash (filter : CBloomFilter) (nHashNum : UInt32) (vDataToHash : List UInt8) :
    Except BloomFault Nat :=
  -- 0xFBA4C795 chosen as it guarantees a reasonable bit difference between nHashNum values.
  let hash := MurmurHash3 (nHashNum * 0xFBA4C795 + filter.nTweak) vDataToHash
  if filter.vData.length * 8 = 0 then .error .divisionByZero
  else .ok (hash.toNat % (filter.vData.length * 8))

/-- The one-byte filter that the shortcuts are for. -/
def isFull (filter : CBloomFilter) : Bool := filter.vData = [0xff]

/-- One turn of the loop of `insert`. -/
def insertBit (vKey : List UInt8) (filter : CBloomFilter) (i : Nat) :
    Except BloomFault CBloomFilter := do
  let nIndex ← filter.Hash (UInt32.ofNat i) vKey
  let byte ← filter.byteAt (nIndex >>> 3)
  return { filter with vData := filter.vData.set (nIndex >>> 3) (byte ||| bitMask nIndex) }

def insert (filter : CBloomFilter) (vKey : List UInt8) : Except BloomFault CBloomFilter :=
  if filter.isFull then .ok filter
  else (List.range filter.nHashFuncs.toNat).foldlM (insertBit vKey) filter

/-- The loop of `contains` over the numbers of hash functions. -/
def containsBits (filter : CBloomFilter) (vKey : List UInt8) : List Nat → Except BloomFault Bool
  | [] => .ok true
  | i :: rest => do
    let nIndex ← filter.Hash (UInt32.ofNat i) vKey
    let byte ← filter.byteAt (nIndex >>> 3)
    if byte &&& bitMask nIndex = 0 then return false
    containsBits filter vKey rest

def contains (filter : CBloomFilter) (vKey : List UInt8) : Except BloomFault Bool :=
  if filter.isFull then .ok true
  else filter.containsBits vKey (List.range filter.nHashFuncs.toNat)

def IsWithinSizeConstraints (filter : CBloomFilter) : Bool :=
  filter.vData.length ≤ MAX_BLOOM_FILTER_SIZE && filter.nHashFuncs ≤ MAX_HASH_FUNCS

/-! ## A filter as a set of bits -/

/-- The bit of a key that a hash function picks. -/
def index (filter : CBloomFilter) (i : Nat) (vKey : List UInt8) : Nat :=
  (MurmurHash3 (UInt32.ofNat i * 0xFBA4C795 + filter.nTweak) vKey).toNat % (filter.vData.length * 8)

/-- The bits of a key. -/
def positions (filter : CBloomFilter) (vKey : List UInt8) : Set Nat :=
  {n | ∃ i < filter.nHashFuncs.toNat, filter.index i vKey = n}

def bits (filter : CBloomFilter) : Set Nat := ByteSet.toSet filter.vData

/-- No operation of the filter divides by zero. -/
def Usable (filter : CBloomFilter) : Prop := filter.vData ≠ [] ∨ filter.nHashFuncs = 0

/-- A later state of a filter: all bits that were set are set. -/
structure Extends (filter filter' : CBloomFilter) : Prop where
  length : filter'.vData.length = filter.vData.length
  nHashFuncs : filter'.nHashFuncs = filter.nHashFuncs
  nTweak : filter'.nTweak = filter.nTweak
  nFlags : filter'.nFlags = filter.nFlags
  bits : filter.bits ⊆ filter'.bits

variable {filter filter' filter'' : CBloomFilter} {vKey : List UInt8}

theorem Extends.refl (filter : CBloomFilter) : filter.Extends filter :=
  ⟨rfl, rfl, rfl, rfl, Set.Subset.refl _⟩

theorem Extends.trans (h : filter.Extends filter') (h' : filter'.Extends filter'') :
    filter.Extends filter'' :=
  ⟨h'.length.trans h.length, h'.nHashFuncs.trans h.nHashFuncs, h'.nTweak.trans h.nTweak,
    h'.nFlags.trans h.nFlags, h.bits.trans h'.bits⟩

theorem Extends.index (h : filter.Extends filter') (i : Nat) :
    filter'.index i vKey = filter.index i vKey := by
  unfold CBloomFilter.index
  rw [h.nTweak, h.length]

theorem Extends.positions (h : filter.Extends filter') :
    filter'.positions vKey = filter.positions vKey := by
  unfold CBloomFilter.positions
  rw [h.nHashFuncs]
  simp only [h.index]

theorem Extends.usable (h : filter.Extends filter') (husable : filter.Usable) : filter'.Usable := by
  refine husable.imp (fun hne hnil => hne ?_) fun hzero => h.nHashFuncs.trans hzero
  rw [← List.length_eq_zero_iff, ← h.length, hnil]
  rfl

/-! ## The operations on bits -/

theorem bit_mask_toNat (m : Fin 8) : (bit_mask.get m).toNat = 2 ^ m.val := by
  fin_cases m <;> rfl

theorem bitMask_toNat (n : Nat) : (bitMask n).toNat = 2 ^ (n % 8) := by
  have hmod : 7 &&& n = n % 8 := by
    rw [Nat.and_comm]
    exact Nat.and_two_pow_sub_one_eq_mod n 3
  unfold bitMask
  rw [bit_mask_toNat]
  exact congrArg _ hmod

theorem index_lt (hne : filter.vData ≠ []) (i : Nat) (vKey : List UInt8) :
    filter.index i vKey < filter.vData.length * 8 := by
  have hpos := List.length_pos_of_ne_nil hne
  exact Nat.mod_lt _ (by omega)

theorem Hash_eq (hne : filter.vData ≠ []) (i : Nat) :
    filter.Hash (UInt32.ofNat i) vKey = .ok (filter.index i vKey) := by
  have hpos := List.length_pos_of_ne_nil hne
  unfold Hash index
  dsimp only
  rw [if_neg (by omega)]

/-- The bit that a hash function picks is in the data. -/
theorem exists_byteAt (hne : filter.vData ≠ []) (i : Nat) (vKey : List UInt8) :
    ∃ byte, filter.vData[filter.index i vKey / 8]? = some byte ∧
      filter.byteAt (filter.index i vKey >>> 3) = .ok byte := by
  have hlt : filter.index i vKey / 8 < filter.vData.length := by
    have h := index_lt hne i vKey
    omega
  refine ⟨filter.vData[filter.index i vKey / 8], List.getElem?_eq_getElem hlt, ?_⟩
  unfold byteAt
  rw [Nat.shiftRight_eq_div_pow, List.getElem?_eq_getElem hlt]
  rfl

theorem insertBit_spec (hne : filter.vData ≠ []) (i : Nat) (vKey : List UInt8) :
    ∃ filter', insertBit vKey filter i = .ok filter' ∧ filter.Extends filter' ∧
      filter'.bits = filter.bits ∪ {filter.index i vKey} := by
  obtain ⟨byte, hbyte, hat⟩ := exists_byteAt hne i vKey
  have hbits := ByteSet.toSet_set hbyte (bitMask_toNat (filter.index i vKey))
  refine ⟨⟨filter.vData.set (filter.index i vKey / 8) (byte ||| bitMask (filter.index i vKey)),
    filter.nHashFuncs, filter.nTweak, filter.nFlags⟩, ?_, ?_, hbits⟩
  · unfold insertBit
    rw [Hash_eq hne i]
    dsimp only [bind, Except.bind]
    rw [hat, Nat.shiftRight_eq_div_pow]
    rfl
  · refine ⟨List.length_set, rfl, rfl, rfl, ?_⟩
    unfold bits
    rw [hbits]
    exact Set.subset_union_left

theorem foldlM_insertBit (l : List Nat) (hne : filter.vData ≠ [] ∨ l = []) :
    ∃ filter', l.foldlM (insertBit vKey) filter = .ok filter' ∧ filter.Extends filter' ∧
      filter'.bits = filter.bits ∪ {n | ∃ i ∈ l, filter.index i vKey = n} := by
  induction l generalizing filter with
  | nil => exact ⟨filter, rfl, .refl filter, by simp⟩
  | cons i l ih =>
    have hne : filter.vData ≠ [] := hne.resolve_right (List.cons_ne_nil i l)
    obtain ⟨filter₁, hstep, hextends, hbits⟩ := insertBit_spec hne i vKey
    have hne₁ : filter₁.vData ≠ [] := by
      rw [← List.length_pos_iff, hextends.length]
      exact List.length_pos_of_ne_nil hne
    obtain ⟨filter₂, hrest, hextends', hbits'⟩ := ih (.inl hne₁)
    refine ⟨filter₂, ?_, hextends.trans hextends', ?_⟩
    · rw [List.foldlM_cons, hstep]
      exact hrest
    · rw [hbits', hbits]
      ext n
      simp only [Set.mem_union, Set.mem_singleton_iff, Set.mem_ofPred_eq, List.mem_cons,
        exists_eq_or_imp, hextends.index, or_assoc, @eq_comm _ n]

/-- The full filter has all its bits set. -/
theorem positions_subset_of_isFull (h : filter.isFull = true) :
    Bloom.Contains filter.positions filter.bits vKey := by
  have hdata : filter.vData = [0xff] := of_decide_eq_true h
  rintro n ⟨i, -, rfl⟩
  unfold bits
  have hlt := index_lt (by rw [hdata]; exact List.cons_ne_nil _ _) i vKey
  rw [hdata] at hlt ⊢
  exact ByteSet.mem_toSet_full hlt

/-- The hash functions of a usable filter run on data. -/
theorem Usable.range (h : filter.Usable) :
    filter.vData ≠ [] ∨ List.range filter.nHashFuncs.toNat = [] :=
  h.imp_right fun hzero => by rw [hzero]; rfl

theorem positions_eq : filter.positions vKey =
    {n | ∃ i ∈ List.range filter.nHashFuncs.toNat, filter.index i vKey = n} := by
  unfold positions
  simp only [List.mem_range]

/-- **Inserting a key adds its positions.** -/
theorem insert_spec (h : filter.Usable) (vKey : List UInt8) :
    ∃ filter', filter.insert vKey = .ok filter' ∧ filter.Extends filter' ∧
      filter'.bits = Bloom.insert filter.positions filter.bits vKey := by
  unfold insert
  split
  · next hfull =>
    have hall : Bloom.Contains filter.positions filter.bits vKey := positions_subset_of_isFull hfull
    exact ⟨filter, rfl, .refl filter, (Bloom.insert_eq_self hall).symm⟩
  · unfold Bloom.insert
    rw [positions_eq]
    exact foldlM_insertBit _ h.range

theorem containsBits_spec (vKey : List UInt8) (l : List Nat) (hne : filter.vData ≠ [] ∨ l = []) :
    ∃ b, filter.containsBits vKey l = .ok b ∧
      (b = true ↔ ∀ i ∈ l, filter.index i vKey ∈ filter.bits) := by
  induction l with
  | nil => exact ⟨true, rfl, by simp⟩
  | cons i l ih =>
    have hne : filter.vData ≠ [] := hne.resolve_right (List.cons_ne_nil i l)
    obtain ⟨byte, hbyte, hat⟩ := exists_byteAt hne i vKey
    have hbit : filter.index i vKey ∈ filter.bits ↔ byte &&& bitMask (filter.index i vKey) ≠ 0 := by
      unfold bits
      rw [ByteSet.mem_toSet_iff hbyte, ByteSet.and_mask_ne_zero_iff (bitMask_toNat _)]
    unfold containsBits
    rw [Hash_eq hne i]
    dsimp only [bind, Except.bind]
    rw [hat]
    dsimp only
    split
    · next hclear =>
      refine ⟨false, rfl, nofun, fun hall => ?_⟩
      exact absurd hclear (hbit.1 (hall i List.mem_cons_self))
    · next hset =>
      obtain ⟨b, hb, hiff⟩ := ih (.inl hne)
      refine ⟨b, hb, ?_⟩
      rw [hiff, List.forall_mem_cons, and_iff_right (hbit.2 hset)]

/-- **A key is contained if all its positions are set.** -/
theorem contains_spec (h : filter.Usable) (vKey : List UInt8) :
    ∃ b, filter.contains vKey = .ok b ∧
      (b = true ↔ Bloom.Contains filter.positions filter.bits vKey) := by
  unfold contains
  split
  · next hfull => exact ⟨true, rfl, iff_of_true rfl (positions_subset_of_isFull hfull)⟩
  · obtain ⟨b, hb, hiff⟩ := containsBits_spec vKey _ h.range
    refine ⟨b, hb, hiff.trans ?_⟩
    unfold Bloom.Contains
    rw [positions_eq]
    exact ⟨fun hall n ⟨i, hi, hn⟩ => hn ▸ hall i hi, fun hsub i hi => hsub ⟨i, hi, rfl⟩⟩

theorem contains_eq_true_iff (h : filter.Usable) (vKey : List UInt8) :
    filter.contains vKey = .ok true ↔ Bloom.Contains filter.positions filter.bits vKey := by
  obtain ⟨b, hb, hiff⟩ := contains_spec h vKey
  rw [← hiff, hb]
  exact ⟨Except.ok.inj, congrArg _⟩

/-- What is contained stays contained. -/
theorem Extends.contains (h : filter.Extends filter') (husable : filter.Usable)
    (hk : filter.contains vKey = .ok true) : filter'.contains vKey = .ok true := by
  rw [contains_eq_true_iff husable] at hk
  rw [contains_eq_true_iff (h.usable husable)]
  have hlater : Bloom.Contains filter.positions filter'.bits vKey := hk.mono h.bits
  unfold Bloom.Contains at *
  rw [h.positions]
  exact hlater

/-- What is inserted is contained. -/
theorem contains_of_insert (husable : filter.Usable) (h : filter.insert vKey = .ok filter') :
    filter'.contains vKey = .ok true := by
  obtain ⟨filter₁, hins, hextends, hbits⟩ := insert_spec husable vKey
  rw [h] at hins
  cases hins
  rw [contains_eq_true_iff (hextends.usable husable)]
  unfold Bloom.Contains
  rw [hextends.positions, hbits]
  exact Bloom.contains_insert filter.bits vKey

end CBloomFilter

end TriTip
