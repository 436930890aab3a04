import Mathlib.Algebra.Order.Group.Nat
import Mathlib.Logic.Function.Iterate
import TriTip.Lib.LittleEndian

/-!
# Cyclic redundancy checks

The remainder of a polynomial division, one place at a time (`Crc.step`), with the low bit as the
highest power. Steps are linear (`steps_xor`), and where the low bits are zero they only shift
(`steps_of_low`). So the bytes of a word can be taken all at once (`foldl_feed`), and the remainder
of a word is put together from those of its bytes, which tables can hold (`steps_add_eq`).
-/

namespace Crc

variable {w : Nat} (poly : BitVec w)

/-- One place of the division. -/
def step (c : BitVec w) : BitVec w := (c >>> 1) ^^^ if c.getLsbD 0 then poly else 0

def steps (n : Nat) (c : BitVec w) : BitVec w := (step poly)^[n] c

/-- The remainder after another byte. -/
def feed (c : BitVec w) (b : UInt8) : BitVec w := steps poly 8 (c ^^^ b.toBitVec.setWidth w)

/-- The bytes of a text in a word, low one first. -/
def word : List UInt8 → BitVec w
  | [] => 0
  | b :: bs => b.toBitVec.setWidth w ^^^ (word bs <<< 8)

/-- The low bits of a word. -/
def low (k : Nat) (c : BitVec w) : BitVec w := (c.setWidth k).setWidth w

variable {poly}

theorem step_xor (a b : BitVec w) : step poly (a ^^^ b) = step poly a ^^^ step poly b := by
  unfold step
  rw [BitVec.ushiftRight_xor_distrib, BitVec.getLsbD_xor]
  cases a.getLsbD 0 with
  | false => simp [BitVec.xor_assoc]
  | true =>
    cases b.getLsbD 0 with
    | false => simp [BitVec.xor_assoc, BitVec.xor_comm poly]
    | true =>
      have hcancel : ∀ x y : BitVec w, x ^^^ poly ^^^ (y ^^^ poly) = x ^^^ y := by
        intro x y
        rw [BitVec.xor_assoc, ← BitVec.xor_assoc poly, BitVec.xor_comm poly, BitVec.xor_assoc y,
          BitVec.xor_self, BitVec.xor_zero]
      simp [hcancel]

theorem steps_xor (n : Nat) (a b : BitVec w) :
    steps poly n (a ^^^ b) = steps poly n a ^^^ steps poly n b := by
  induction n generalizing a b with
  | zero => rfl
  | succ n ih => simp only [steps, Function.iterate_succ_apply, step_xor] at ih ⊢; rw [ih]

theorem steps_add (m n : Nat) (c : BitVec w) :
    steps poly (m + n) c = steps poly m (steps poly n c) := Function.iterate_add_apply _ m n c

/-- Zeros are shifted out. -/
theorem steps_of_low {n : Nat} {c : BitVec w} (h : ∀ i < n, c.getLsbD i = false) :
    steps poly n c = c >>> n := by
  induction n generalizing c with
  | zero => simp [steps]
  | succ n ih =>
    have hstep : step poly c = c >>> 1 := by simp [step, h 0 (Nat.succ_pos n)]
    have hrest : ∀ i < n, (c >>> 1).getLsbD i = false := by
      intro i hi
      rw [BitVec.getLsbD_ushiftRight]
      exact h (1 + i) (by omega)
    have hshift : (c >>> 1) >>> n = c >>> (n + 1) := by rw [← BitVec.shiftRight_add, Nat.add_comm]
    rw [← hshift, ← ih hrest, ← hstep]
    exact Function.iterate_succ_apply _ n c

theorem low_xor_high (k : Nat) (c : BitVec w) : low k c ^^^ ((c >>> k) <<< k) = c := by
  apply BitVec.eq_of_getLsbD_eq
  intro i hi
  simp only [low, BitVec.getLsbD_xor, BitVec.getLsbD_setWidth, BitVec.getLsbD_shiftLeft,
    BitVec.getLsbD_ushiftRight, hi]
  rcases Nat.lt_or_ge i k with h | h
  · simp [h]
  · have hsum : k + (i - k) = i := Nat.add_sub_cancel' h
    simp [Nat.not_lt.2 h, hsum]

/-- **A word is divided by its low bits**, and what is above them shifted down. -/
theorem steps_add_eq (n k : Nat) (c : BitVec w) :
    steps poly (n + k) c = steps poly (n + k) (low k c) ^^^ steps poly n (c >>> k) := by
  have hhigh : steps poly k ((c >>> k) <<< k) = c >>> k := by
    have hlow : ∀ i < k, ((c >>> k) <<< k).getLsbD i = false := by
      intro i hi
      simp [hi]
    rw [steps_of_low hlow]
    apply BitVec.eq_of_getLsbD_eq
    intro i hi
    simp only [BitVec.getLsbD_ushiftRight, BitVec.getLsbD_shiftLeft, Nat.add_sub_cancel_left]
    rcases Nat.lt_or_ge (k + i) w with h | h
    · simp [h]
    · simp [Nat.not_lt.2 h, BitVec.getLsbD_of_ge c (k + i) h]
  calc steps poly (n + k) c
      = steps poly (n + k) (low k c ^^^ ((c >>> k) <<< k)) := by rw [low_xor_high]
    _ = steps poly (n + k) (low k c) ^^^ steps poly n (c >>> k) := by
        rw [steps_xor, steps_add n k ((c >>> k) <<< k), hhigh]

/-- A byte above the low ones is reached after the steps for them. -/
theorem steps_shiftLeft {k : Nat} {c : BitVec w} (h : c.toNat * 2 ^ k < 2 ^ w) :
    steps poly k (c <<< k) = c := by
  have hlow : ∀ i < k, (c <<< k).getLsbD i = false := by
    intro i hi
    simp [hi]
  rw [steps_of_low hlow]
  apply BitVec.eq_of_toNat_eq
  rw [BitVec.toNat_ushiftRight, BitVec.toNat_shiftLeft, Nat.shiftLeft_eq, Nat.mod_eq_of_lt h,
    Nat.shiftRight_eq_div_pow, Nat.mul_div_cancel _ (Nat.two_pow_pos k)]

theorem toNat_word_lt (bs : List UInt8) : (word bs : BitVec w).toNat < 2 ^ (8 * bs.length) := by
  induction bs with
  | nil => simp [word]
  | cons b bs ih =>
    have hpow : 2 ^ (8 * (b :: bs).length) = 2 ^ (8 * bs.length) * 2 ^ 8 := by
      rw [List.length_cons, Nat.mul_succ, Nat.pow_add]
    have hbyte : (b.toBitVec.setWidth w).toNat < 2 ^ (8 * (b :: bs).length) := by
      have hlt := b.toNat_lt
      have hpos := Nat.two_pow_pos (8 * bs.length)
      have hle : (b.toBitVec.setWidth w).toNat ≤ b.toNat := by
        rw [BitVec.toNat_setWidth]
        exact Nat.mod_le _ _
      rw [hpow]
      exact (hle.trans_lt hlt).trans_le (Nat.le_mul_of_pos_left _ hpos)
    have hrest : ((word bs : BitVec w) <<< 8).toNat < 2 ^ (8 * (b :: bs).length) := by
      rw [BitVec.toNat_shiftLeft, Nat.shiftLeft_eq, hpow]
      exact (Nat.mod_le _ _).trans_lt (Nat.mul_lt_mul_of_pos_right ih (by decide))
    rw [word, BitVec.toNat_xor]
    exact Nat.xor_lt_two_pow hbyte hrest

/-- Above the bytes of a text there is room for one more. -/
theorem word_mul_lt {bs : List UInt8} (h : 8 * bs.length + 8 ≤ w) :
    (word bs : BitVec w).toNat * 2 ^ 8 + 255 < 2 ^ w := by
  have hlt := toNat_word_lt (w := w) bs
  have hpow : 2 ^ (8 * bs.length) * 2 ^ 8 ≤ 2 ^ w := by
    rw [← Nat.pow_add]
    exact Nat.pow_le_pow_right (by decide) h
  omega

/-- Bits that are not in two words are not there twice. -/
theorem xor_eq_add {a b : BitVec w} (h : ∀ i, a.getLsbD i = false ∨ b.getLsbD i = false) :
    a ^^^ b = a + b := by
  have hand : a &&& b = 0#w := by
    apply BitVec.eq_of_getLsbD_eq
    intro i hi
    rcases h i with h | h <;> simp [h]
  rw [BitVec.add_eq_or_of_and_eq_zero a b hand]
  apply BitVec.eq_of_getLsbD_eq
  intro i hi
  rcases h i with h | h <;> simp [h]

theorem toNat_word {bs : List UInt8} (h : 8 * bs.length ≤ w) :
    (word bs : BitVec w).toNat = LittleEndian.decode bs := by
  induction bs with
  | nil => rfl
  | cons b bs ih =>
    rw [List.length_cons, Nat.mul_succ] at h
    have hroom := word_mul_lt (w := w) h
    have hlt := b.toNat_lt
    have hbyte : b.toNat < 2 ^ w := by omega
    have hdisjoint : ∀ i, (b.toBitVec.setWidth w).getLsbD i = false ∨
        ((word bs : BitVec w) <<< 8).getLsbD i = false := by
      intro i
      rcases Nat.lt_or_ge i 8 with hi | hi
      · right
        simp [hi]
      · left
        simp [BitVec.getLsbD_of_ge b.toBitVec i hi]
    have hword := ih (by omega)
    have hrest : (word bs : BitVec w).toNat * 2 ^ 8 < 2 ^ w :=
      Nat.lt_of_le_of_lt (Nat.le_add_right _ _) hroom
    have hsum : b.toNat + (word bs : BitVec w).toNat * 2 ^ 8 < 2 ^ w := by
      rw [Nat.add_comm]
      exact (Nat.add_le_add_left (Nat.le_of_lt_succ hlt) _).trans_lt hroom
    rw [word, xor_eq_add hdisjoint, BitVec.toNat_add, BitVec.toNat_setWidth, BitVec.toNat_shiftLeft,
      Nat.shiftLeft_eq, Nat.mod_eq_of_lt hrest, UInt8.toNat_toBitVec, Nat.mod_eq_of_lt hbyte,
      Nat.mod_eq_of_lt hsum, LittleEndian.decode_cons, ← hword]
    omega

/-- **The bytes of a word** can be taken all at once. -/
theorem foldl_feed (c : BitVec w) {bs : List UInt8} (h : 8 * bs.length ≤ w) :
    bs.foldl (feed poly) c = steps poly (8 * bs.length) (c ^^^ word bs) := by
  induction bs generalizing c with
  | nil => simp [word, steps]
  | cons b bs ih =>
    rw [List.length_cons, Nat.mul_succ] at h
    have hroom := word_mul_lt (w := w) h
    have hfits : (word bs : BitVec w).toNat * 2 ^ 8 < 2 ^ w :=
      Nat.lt_of_le_of_lt (Nat.le_add_right _ _) hroom
    have hbyte : feed poly c b ^^^ word bs = steps poly 8 (c ^^^ word (b :: bs)) := by
      rw [feed, word, ← BitVec.xor_assoc, steps_xor 8 _ (word bs <<< 8), steps_shiftLeft hfits]
    rw [List.foldl_cons, ih (feed poly c b) (by omega), hbyte, ← steps_add, List.length_cons,
      Nat.mul_succ]

end Crc
