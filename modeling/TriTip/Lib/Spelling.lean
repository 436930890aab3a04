import Mathlib.Data.List.Forall2

/-!
# Words from masks

A word spells a mask if it is made of one part for each element of the mask, of those that the
element stands for.
-/

namespace Spelling

variable {α β : Type*} {r : β → List α → Prop} {b : β} {m : List β} {a : α} {s : List α}

def Spells (r : β → List α → Prop) (m : List β) (s : List α) : Prop :=
  ∃ parts, List.Forall₂ r m parts ∧ s = parts.flatten

@[simp] theorem spells_nil_iff : Spells r [] s ↔ s = [] := by
  constructor
  · rintro ⟨parts, hparts, rfl⟩
    rw [List.forall₂_nil_left_iff.mp hparts, List.flatten_nil]
  · rintro rfl
    exact ⟨[], List.Forall₂.nil, rfl⟩

theorem spells_cons_iff :
    Spells r (b :: m) s ↔ ∃ part s', r b part ∧ Spells r m s' ∧ s = part ++ s' := by
  constructor
  · rintro ⟨parts, hparts, rfl⟩
    obtain ⟨part, parts, hpart, htail, rfl⟩ := List.forall₂_cons_left_iff.mp hparts
    exact ⟨part, parts.flatten, hpart, ⟨parts, htail, rfl⟩, List.flatten_cons⟩
  · rintro ⟨part, s', hpart, ⟨parts, hparts, rfl⟩, rfl⟩
    exact ⟨part :: parts, List.Forall₂.cons hpart hparts, List.flatten_cons.symm⟩

/-- An element that stands for single elements takes the first one. -/
theorem spells_cons_single_iff {p : α → Prop} (hb : ∀ part, r b part ↔ ∃ a, part = [a] ∧ p a) :
    Spells r (b :: m) s ↔ ∃ a s', s = a :: s' ∧ p a ∧ Spells r m s' := by
  rw [spells_cons_iff]
  constructor
  · rintro ⟨part, s', hpart, hs', rfl⟩
    obtain ⟨a, rfl, ha⟩ := (hb part).mp hpart
    exact ⟨a, s', rfl, ha, hs'⟩
  · rintro ⟨a, s', rfl, ha, hs'⟩
    exact ⟨[a], s', (hb [a]).mpr ⟨a, rfl, ha⟩, hs', rfl⟩

/-- An element that stands for anything takes nothing, or one more element. -/
theorem spells_cons_any_iff (hb : ∀ part, r b part) :
    Spells r (b :: m) s ↔ Spells r m s ∨ ∃ a s', s = a :: s' ∧ Spells r (b :: m) s' := by
  constructor
  · intro h
    obtain ⟨part, s', -, hs', rfl⟩ := spells_cons_iff.mp h
    cases part with
    | nil => exact Or.inl hs'
    | cons a part =>
      exact Or.inr ⟨a, part ++ s', rfl, spells_cons_iff.mpr ⟨part, s', hb part, hs', rfl⟩⟩
  · rintro (hs | ⟨a, s', rfl, hs'⟩)
    · exact spells_cons_iff.mpr ⟨[], s, hb [], hs, rfl⟩
    · obtain ⟨part, rest, -, hrest, rfl⟩ := spells_cons_iff.mp hs'
      exact spells_cons_iff.mpr ⟨a :: part, rest, hb _, hrest, rfl⟩

end Spelling
