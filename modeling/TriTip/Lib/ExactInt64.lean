import Mathlib

/-!
# Exact sums of machine integers

The sum, the difference and the product of two `Int64` are those of the integers as long as the
result fits.
-/

namespace ExactInt64

/-- The integers that an `Int64` has room for. -/
def Fits (n : Int) : Prop := -2 ^ 63 ≤ n ∧ n < 2 ^ 63

instance {n : Int} : Decidable (Fits n) := inferInstanceAs (Decidable (_ ∧ _))

theorem fits_toInt (a : Int64) : Fits a.toInt := ⟨a.le_toInt, a.toInt_lt⟩

theorem Fits.bmod_eq {n : Int} (h : Fits n) : n.bmod (2 ^ 64) = n :=
  Int.bmod_eq_of_le h.1 h.2

/-- What lies between two integers that fit does. -/
theorem Fits.of_le_of_le {a b n : Int} (ha : Fits a) (hb : Fits b) (h₁ : a ≤ n) (h₂ : n ≤ b) :
    Fits n :=
  ⟨ha.1.trans h₁, h₂.trans_lt hb.2⟩

theorem toInt_add {a b : Int64} (h : Fits (a.toInt + b.toInt)) :
    (a + b).toInt = a.toInt + b.toInt := by
  rw [Int64.toInt_add, h.bmod_eq]

theorem toInt_sub {a b : Int64} (h : Fits (a.toInt - b.toInt)) :
    (a - b).toInt = a.toInt - b.toInt := by
  rw [Int64.toInt_sub, h.bmod_eq]

theorem toInt_mul {a b : Int64} (h : Fits (a.toInt * b.toInt)) :
    (a * b).toInt = a.toInt * b.toInt := by
  rw [Int64.toInt_mul, h.bmod_eq]

/-- A subset of weights that are not negative weighs at most as much as all of them. -/
theorem fits_sum_subset {ι : Type} [Fintype ι] {weight : ι → Int64}
    (hpos : ∀ i, 0 ≤ (weight i).toInt) (hfits : Fits (∑ i, (weight i).toInt)) (s : Finset ι) :
    Fits (∑ i ∈ s, (weight i).toInt) :=
  Fits.of_le_of_le (fits_toInt 0) hfits (Finset.sum_nonneg fun i _ => hpos i)
    (Finset.sum_le_univ_sum_of_nonneg hpos)

end ExactInt64
