import Mathlib

/-!
# Searches along a list

A search goes over the elements of a list that it passes and stops at the first one it finds.
`Reaches passes found l` says that there is one to be found behind elements that are passed; for two
ways to go on over the same list they are compared by what they pass.
-/

namespace Scan

variable {α : Type*} {passes found : α → Prop}

/-- One of the elements is what is looked for, and the search goes on over those before it. -/
def Reaches (passes found : α → Prop) (l : List α) : Prop :=
  ∃ pre a post, l = pre ++ a :: post ∧ (∀ b ∈ pre, passes b) ∧ found a

@[simp] theorem not_reaches_nil : ¬ Reaches passes found [] := by
  rintro ⟨pre, a, post, h, -⟩
  simp at h

@[simp] theorem reaches_cons {a : α} {l : List α} :
    Reaches passes found (a :: l) ↔ found a ∨ passes a ∧ Reaches passes found l := by
  constructor
  · rintro ⟨pre, b, post, h, hpre, hb⟩
    cases pre with
    | nil =>
      obtain ⟨rfl, rfl⟩ := List.cons.inj h
      exact Or.inl hb
    | cons c pre =>
      obtain ⟨rfl, rfl⟩ := List.cons.inj h
      refine Or.inr ⟨hpre _ List.mem_cons_self, pre, b, post, rfl, ?_, hb⟩
      exact fun d hd => hpre d (List.mem_cons_of_mem _ hd)
  · rintro (ha | ⟨ha, pre, b, post, rfl, hpre, hb⟩)
    · exact ⟨[], a, l, rfl, by simp, ha⟩
    · refine ⟨a :: pre, b, post, rfl, ?_, hb⟩
      intro d hd
      rcases List.mem_cons.1 hd with rfl | hd
      · exact ha
      · exact hpre d hd

/-- What is found is in the list. -/
theorem Reaches.exists_mem {l : List α} (h : Reaches passes found l) : ∃ a ∈ l, found a := by
  obtain ⟨pre, a, post, rfl, -, ha⟩ := h
  exact ⟨a, by simp, ha⟩

end Scan
