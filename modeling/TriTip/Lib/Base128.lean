import Mathlib.Data.Nat.Bitwise
import Mathlib.Tactic.Ring

/-!
# Numbers in groups of seven bits

`Base128.encode w n` are at most `w + 1` bytes with seven bits of `n` each, low ones first; the top
bit says that another byte follows. `Base128.decode w` reads at most `w` of them. `Base128.gather`
is the same for a word of a fixed width, into which the bits are shifted; it reads the number modulo
the size of the word (`gather_eq`).
-/

namespace Base128

def encode : Nat → Nat → List UInt8
  | 0, n => [UInt8.ofNat n]
  | w + 1, n =>
    if n < 128 then [UInt8.ofNat n] else UInt8.ofNat (n % 128 + 128) :: encode w (n / 128)

def decode : Nat → List UInt8 → Option (Nat × List UInt8)
  | 0, _ => none
  | _ + 1, [] => none
  | w + 1, b :: bs =>
    if b.toNat < 128 then some (b.toNat, bs)
    else (decode w bs).map fun p => (b.toNat % 128 + 128 * p.1, p.2)

theorem toNat_ofNat {n : Nat} (h : n < 256) : (UInt8.ofNat n).toNat = n :=
  UInt8.toNat_ofNat_of_lt' h

theorem decode_encode {w n : Nat} (h : n < 128 ^ (w + 1)) (rest : List UInt8) :
    decode (w + 1) (encode w n ++ rest) = some (n, rest) := by
  induction w generalizing n with
  | zero =>
    have hn : n < 128 := by simpa using h
    have hbyte : (UInt8.ofNat n).toNat = n := toNat_ofNat (by omega)
    simp [encode, decode, hbyte, hn]
  | succ w ih =>
    rw [encode]
    split
    · next hn =>
      have hbyte : (UInt8.ofNat n).toNat = n := toNat_ofNat (by omega)
      simp [decode, hbyte, hn]
    · have hbyte : (UInt8.ofNat (n % 128 + 128)).toNat = n % 128 + 128 :=
        toNat_ofNat (by omega)
      have hdiv : n / 128 < 128 ^ (w + 1) := by
        rw [Nat.div_lt_iff_lt_mul (by decide), ← Nat.pow_succ]
        exact h
      rw [List.cons_append, decode, hbyte, if_neg (by omega), ih hdiv, Option.map_some,
        Option.some.injEq, Prod.mk.injEq]
      exact ⟨by omega, rfl⟩

theorem length_encode_le (w n : Nat) : (encode w n).length ≤ w + 1 := by
  induction w generalizing n with
  | zero => exact Nat.le_refl _
  | succ w ih =>
    rw [encode]
    split
    · simp
    · exact Nat.succ_le_succ (ih _)

theorem encode_ne_nil (w n : Nat) : encode w n ≠ [] := by
  cases w with
  | zero => exact List.cons_ne_nil _ _
  | succ w =>
    rw [encode]
    split <;> exact List.cons_ne_nil _ _

/-- A number that is read is followed by what was not read. -/
theorem suffix_of_decode {w n : Nat} {bs rest : List UInt8} (h : decode w bs = some (n, rest)) :
    ∃ read, bs = read ++ rest ∧ read ≠ [] := by
  induction w generalizing n bs with
  | zero => cases h
  | succ w ih =>
    cases bs with
    | nil => cases h
    | cons b bs =>
      rw [decode] at h
      split at h
      · obtain ⟨-, rfl⟩ := Prod.mk.inj (Option.some.inj h)
        exact ⟨[b], rfl, List.cons_ne_nil _ _⟩
      · obtain ⟨⟨m, rest'⟩, hm, heq⟩ := Option.map_eq_some_iff.1 h
        obtain ⟨-, rfl⟩ := Prod.mk.inj heq
        obtain ⟨read, rfl, -⟩ := ih hm
        exact ⟨b :: read, rfl, List.cons_ne_nil _ _⟩

/-! ## Words -/

section Words

variable {w : Nat}

/-- Seven bits go to the place that the shift says. -/
def gather : Nat → Nat → BitVec w → List UInt8 → Option (BitVec w × List UInt8)
  | 0, _, _, _ => none
  | _ + 1, _, _, [] => none
  | rounds + 1, shift, result, byte :: p =>
    if byte &&& 128 ≠ 0 then
      gather rounds (shift + 7) (result ||| ((byte &&& 127).toBitVec.setWidth w <<< shift)) p
    else some (result ||| (byte.toBitVec.setWidth w <<< shift), p)

theorem and_128_eq_zero (b : UInt8) : b &&& 128 = 0 ↔ b.toNat < 128 := by
  revert b
  have hall : ∀ n : Fin 256, UInt8.ofNat n.val &&& 128 = 0 ↔ n.val < 128 := by decide +kernel
  intro b
  have := hall ⟨b.toNat, b.toNat_lt⟩
  simpa using this

theorem toNat_and_127 (b : UInt8) : (b &&& 127).toNat = b.toNat % 128 := by
  rw [UInt8.toNat_and]
  exact Nat.and_two_pow_sub_one_eq_mod _ 7

/-- Bits are put above those that are there. -/
theorem or_shift {result : BitVec w} {shift : Nat} (h : result.toNat < 2 ^ shift) (x : BitVec 8) :
    result ||| (x.setWidth w <<< shift) = BitVec.ofNat w (result.toNat + 2 ^ shift * x.toNat) := by
  apply BitVec.eq_of_toNat_eq
  have hmod : (x.toNat % 2 ^ w * 2 ^ shift) % 2 ^ w = (x.toNat * 2 ^ shift) % 2 ^ w :=
    Nat.mod_mul_mod _ _ _
  have hor : result.toNat + 2 ^ shift * x.toNat = result.toNat ||| x.toNat <<< shift := by
    rw [Nat.or_comm, ← Nat.shiftLeft_add_eq_or_of_lt h, Nat.shiftLeft_eq]
    ring
  rw [BitVec.toNat_ofNat, hor, BitVec.toNat_or, BitVec.toNat_shiftLeft, BitVec.toNat_setWidth,
    Nat.shiftLeft_eq, hmod, Nat.or_mod_two_pow, Nat.mod_eq_of_lt result.isLt, Nat.shiftLeft_eq]

/-- The number modulo the size of the word. -/
theorem gather_eq {shift : Nat} {result : BitVec w} (h : result.toNat < 2 ^ shift) (rounds : Nat)
    (bs : List UInt8) :
    gather rounds shift result bs =
      (decode rounds bs).map fun p => (BitVec.ofNat w (result.toNat + 2 ^ shift * p.1), p.2) := by
  induction rounds generalizing shift result bs with
  | zero => rfl
  | succ rounds ih =>
    cases bs with
    | nil => rfl
    | cons b bs =>
      have hbyte : (b.toBitVec).toNat = b.toNat := rfl
      have hlow : (b &&& 127).toBitVec.toNat = b.toNat % 128 := toNat_and_127 b
      rw [gather, decode]
      by_cases hb : b.toNat < 128
      · rw [if_neg (not_not.2 ((and_128_eq_zero b).2 hb)), if_pos hb, or_shift h, hbyte]
        rfl
      · have hand : b &&& 128 ≠ 0 := fun heq => hb ((and_128_eq_zero b).1 heq)
        have hlt : (BitVec.ofNat w (result.toNat + 2 ^ shift * (b.toNat % 128))).toNat <
            2 ^ (shift + 7) := by
          have hmul : 2 ^ shift * (b.toNat % 128) ≤ 2 ^ shift * 127 :=
            Nat.mul_le_mul_left _ (by omega)
          have hpow : 2 ^ (shift + 7) = 2 ^ shift * 128 := by rw [Nat.pow_add]
          have hle := Nat.mod_le (result.toNat + 2 ^ shift * (b.toNat % 128)) (2 ^ w)
          rw [BitVec.toNat_ofNat]
          omega
        rw [if_pos hand, if_neg hb, or_shift h, hlow, ih hlt, Option.map_map]
        congr 1
        funext p
        have hsum : result.toNat + 2 ^ shift * (b.toNat % 128 + 128 * p.1) =
            result.toNat + 2 ^ shift * (b.toNat % 128) + 2 ^ (shift + 7) * p.1 := by
          rw [Nat.pow_add]
          ring
        simp only [Function.comp_apply, hsum, Prod.mk.injEq, and_true]
        apply BitVec.eq_of_toNat_eq
        simp only [BitVec.toNat_ofNat, Nat.mod_add_mod]

/-- A number that fits in the word is read. -/
theorem gather_encode {rounds n : Nat} (hrounds : n < 128 ^ (rounds + 1)) (hw : n < 2 ^ w)
    (rest : List UInt8) :
    gather (rounds + 1) 0 (0 : BitVec w) (encode rounds n ++ rest) =
      some (⟨n, hw⟩, rest) := by
  have hzero : (0 : BitVec w).toNat < 2 ^ 0 := by simp
  rw [gather_eq hzero, decode_encode hrounds, Option.map_some, Option.some.injEq, Prod.mk.injEq]
  refine ⟨?_, rfl⟩
  apply BitVec.eq_of_toNat_eq
  simp [Nat.mod_eq_of_lt hw]

end Words

end Base128
