import Mathlib.Algebra.Order.Group.Int
import Mathlib.Data.List.Count
import Mathlib.Logic.Function.Basic

/-!
# Counts of references

Objects carry a count. As long as each count is the number of references that there are to its
object (`Kept`), an object whose count is not above zero is one that nobody refers to: it can be
deleted, and what is referred to is still there.
-/

namespace References

variable {κ : Type*} [DecidableEq κ] {count : κ → Option Int} {refs : κ → Nat}

/-- Counts are numbers of references, and there are none to an object that is not there. -/
structure Kept (count : κ → Option Int) (refs : κ → Nat) : Prop where
  eq : ∀ k c, count k = some c → c = refs k
  live : ∀ k, refs k ≠ 0 → (count k).isSome

/-- References are added, one for each place of a list. -/
theorem Kept.add (h : Kept count refs) {l : List κ} (hl : ∀ k ∈ l, (count k).isSome) :
    Kept (fun k => (count k).map (· + (l.count k : Int))) (fun k => refs k + l.count k) where
  eq k c hc := by
    obtain ⟨c', hc', rfl⟩ := Option.map_eq_some_iff.1 hc
    rw [h.eq k c' hc', Int.natCast_add]
  live k hk := by
    rw [Option.isSome_map]
    by_cases hmem : k ∈ l
    · exact hl k hmem
    · rw [List.count_eq_zero_of_not_mem hmem] at hk
      exact h.live k hk

/-- References are given back, one for each place of a list. -/
theorem Kept.remove {l : List κ} (h : Kept count (fun k => refs k + l.count k)) :
    Kept (fun k => (count k).map (· - (l.count k : Int))) refs where
  eq k c hc := by
    obtain ⟨c', hc', rfl⟩ := Option.map_eq_some_iff.1 hc
    rw [h.eq k c' hc', Int.natCast_add]
    exact Int.add_sub_cancel _ _
  live k hk := by
    rw [Option.isSome_map]
    exact h.live k (by omega)

/-- The count and the references of one object change alike. -/
theorem Kept.update (h : Kept count refs) (k : κ) {c : Int} {n : Nat} (hc : c = n) :
    Kept (Function.update count k (some c)) (Function.update refs k n) where
  eq j d hd := by
    by_cases hj : j = k
    · subst hj
      rw [Function.update_self] at hd ⊢
      exact (Option.some.inj hd).symm.trans hc
    · rw [Function.update_of_ne hj] at hd ⊢
      exact h.eq j d hd
  live j hj := by
    by_cases hjk : j = k
    · rw [hjk, Function.update_self]
      rfl
    · rw [Function.update_of_ne hjk] at hj ⊢
      exact h.live j hj

/-- What nobody refers to can go. -/
theorem Kept.delete (h : Kept count refs) {k : κ} {c : Int} (hk : count k = some c) (hc : c ≤ 0) :
    Kept (Function.update count k none) refs := by
  have hzero : refs k = 0 := by
    have := h.eq k c hk
    omega
  refine ⟨fun j d hd => ?_, fun j hj => ?_⟩
  · by_cases hjk : j = k
    · rw [hjk, Function.update_self] at hd
      cases hd
    · rw [Function.update_of_ne hjk] at hd
      exact h.eq j d hd
  · have hjk : j ≠ k := fun hjk => hj (hjk ▸ hzero)
    rw [Function.update_of_ne hjk]
    exact h.live j hj

omit [DecidableEq κ] in
theorem Kept.congr {count' : κ → Option Int} {refs' : κ → Nat} (h : Kept count refs)
    (hcount : ∀ k, count' k = count k) (hrefs : ∀ k, refs' k = refs k) : Kept count' refs' := by
  obtain rfl : count' = count := funext hcount
  obtain rfl : refs' = refs := funext hrefs
  exact h

end References
