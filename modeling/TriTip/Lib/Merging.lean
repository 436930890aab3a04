import Mathlib

/-!
# Merging sets that overlap

From a collection of sets the classes of the chains are made one set at a time: the classes that the
next set meets are united with it (`Merges`). What is kept is that the classes are not empty, that
an element is in one of them only, that each set so far lies in one, and that two elements of one
are linked by a chain (`IsMerged`); from this the classes are the classes of the chains
(`IsMerged.iff_linked`). A collection is of any type with members.
-/

namespace Merging

variable {α S : Type*} [Membership α S]

/-- A set of the collection has both. -/
def Shares (G : Set S) (a b : α) : Prop := ∃ g ∈ G, a ∈ g ∧ b ∈ g

/-- A chain of sets of the collection leads from one to the other. -/
def Linked (G : Set S) : α → α → Prop := Relation.TransGen (Shares G)

/-- A common element. -/
def Meets (s g : S) : Prop := ∃ x : α, x ∈ s ∧ x ∈ g

section

variable {G G' P P' : Set S} {g : S} {a b : α}

theorem Shares.symm (h : Shares G a b) : Shares G b a := by
  obtain ⟨g, hg, ha, hb⟩ := h
  exact ⟨g, hg, hb, ha⟩

theorem Shares.linked (h : Shares G a b) : Linked G a b := Relation.TransGen.single h

theorem Linked.symm (h : Linked G a b) : Linked G b a := by
  induction h with
  | single h => exact h.symm.linked
  | tail _ h ih => exact h.symm.linked.trans ih

theorem Linked.mono (hsub : G ⊆ G') (h : Linked G a b) : Linked G' a b := by
  have hshares : Shares G ≤ Shares G' := by
    rintro a b ⟨g, hg, hab⟩
    exact ⟨g, hsub hg, hab⟩
  exact Relation.TransGen.mono hshares a b h

/-- The classes after a set is merged in. -/
structure Merges (P : Set S) (g : S) (P' : Set S) (m : S) : Prop where
  mem_merged : ∀ a : α, a ∈ m ↔ a ∈ g ∨ ∃ s ∈ P, a ∈ s ∧ Meets s g
  mem_iff : ∀ t, t ∈ P' ↔ t = m ∨ t ∈ P ∧ ¬Meets t g

/-- The sets so far, and their classes. -/
structure IsMerged (G P : Set S) : Prop where
  nonempty : ∀ s ∈ P, ∃ a : α, a ∈ s
  eq_of_mem : ∀ s ∈ P, ∀ t ∈ P, ∀ a : α, a ∈ s → a ∈ t → s = t
  exists_class : ∀ g ∈ G, ∃ s ∈ P, ∀ a : α, a ∈ g → a ∈ s
  linked : ∀ s ∈ P, ∀ a ∈ s, ∀ b ∈ s, Linked G a b

namespace IsMerged

theorem empty : IsMerged (∅ : Set S) ∅ := by
  constructor <;> simp

/-- The chains stay in one class. -/
theorem exists_of_linked (h : IsMerged G P) (hab : Linked G a b) : ∃ s ∈ P, a ∈ s ∧ b ∈ s := by
  induction hab with
  | single hab =>
    obtain ⟨g, hg, ha, hb⟩ := hab
    obtain ⟨s, hs, hgs⟩ := h.exists_class g hg
    exact ⟨s, hs, hgs _ ha, hgs _ hb⟩
  | tail _ hbc ih =>
    obtain ⟨s, hs, ha, hb⟩ := ih
    obtain ⟨g, hg, hb', hc⟩ := hbc
    obtain ⟨t, ht, hgt⟩ := h.exists_class g hg
    obtain rfl := h.eq_of_mem s hs t ht _ hb (hgt _ hb')
    exact ⟨s, hs, ha, hgt _ hc⟩

/-- **The classes are the classes of the chains.** -/
theorem iff_linked (h : IsMerged G P) : (∃ s ∈ P, a ∈ s ∧ b ∈ s) ↔ Linked G a b := by
  constructor
  · rintro ⟨s, hs, ha, hb⟩
    exact h.linked s hs a ha b hb
  · exact h.exists_of_linked

/-- The classes cover what the sets do. -/
theorem covers (h : IsMerged G P) : (∃ s ∈ P, a ∈ s) ↔ ∃ g ∈ G, a ∈ g := by
  constructor
  · rintro ⟨s, hs, ha⟩
    cases h.linked s hs a ha a ha with
    | single hab =>
      obtain ⟨g, hg, ha, -⟩ := hab
      exact ⟨g, hg, ha⟩
    | tail _ hab =>
      obtain ⟨g, hg, -, ha⟩ := hab
      exact ⟨g, hg, ha⟩
  · rintro ⟨g, hg, ha⟩
    obtain ⟨s, hs, hgs⟩ := h.exists_class g hg
    exact ⟨s, hs, hgs a ha⟩

/-- An element of the merged class is linked to the elements of the new set. -/
theorem linked_of_merged (h : IsMerged G P) {m : S} (hm : Merges P g P' m) {x : α} (hx : x ∈ g)
    (ha : a ∈ m) : Linked (insert g G) a x := by
  have hshares : ∀ y : α, y ∈ g → Linked (insert g G) y x := fun y hy =>
    Shares.linked ⟨g, Set.mem_insert g G, hy, hx⟩
  rcases (hm.mem_merged a).1 ha with ha | ⟨s, hs, ha, y, hys, hyg⟩
  · exact hshares a ha
  · have hay : Linked G a y := h.linked s hs a ha y hys
    exact (hay.mono (Set.subset_insert g G)).trans (hshares y hyg)

/-- **Merging one more set.** -/
theorem merge (h : IsMerged G P) {m : S} (hm : Merges P g P' m) (hg : ∃ x : α, x ∈ g) :
    IsMerged (insert g G) P' := by
  -- a class that is left has nothing in common with the merged one
  have happart : ∀ t ∈ P, ¬Meets t g → ∀ a : α, a ∈ t → a ∉ m := by
    intro t ht hmeets a hat ham
    rcases (hm.mem_merged a).1 ham with hag | ⟨s, hs, has, hsg⟩
    · exact hmeets ⟨a, hat, hag⟩
    · obtain rfl := h.eq_of_mem s hs t ht a has hat
      exact hmeets hsg
  have hmP : m ∈ P' := (hm.mem_iff m).2 (.inl rfl)
  constructor
  case nonempty =>
    intro s hs
    rcases (hm.mem_iff s).1 hs with rfl | ⟨hs, -⟩
    · obtain ⟨x, hx⟩ := hg
      exact ⟨x, (hm.mem_merged x).2 (.inl hx)⟩
    · exact h.nonempty s hs
  case eq_of_mem =>
    intro s hs t ht a has hat
    rcases (hm.mem_iff s).1 hs with rfl | ⟨hs, hsg⟩
    · rcases (hm.mem_iff t).1 ht with rfl | ⟨ht, htg⟩
      · rfl
      · exact absurd has (happart t ht htg a hat)
    · rcases (hm.mem_iff t).1 ht with rfl | ⟨ht, -⟩
      · exact absurd hat (happart s hs hsg a has)
      · exact h.eq_of_mem s hs t ht a has hat
  case exists_class =>
    intro g' hg'
    rcases Set.mem_insert_iff.1 hg' with rfl | hg'
    · exact ⟨m, hmP, fun a ha => (hm.mem_merged a).2 (.inl ha)⟩
    · obtain ⟨s, hs, hgs⟩ := h.exists_class g' hg'
      by_cases hsg : Meets s g
      · exact ⟨m, hmP, fun a ha => (hm.mem_merged a).2 (.inr ⟨s, hs, hgs a ha, hsg⟩)⟩
      · exact ⟨s, (hm.mem_iff s).2 (.inr ⟨hs, hsg⟩), hgs⟩
  case linked =>
    intro s hs a ha b hb
    rcases (hm.mem_iff s).1 hs with rfl | ⟨hs, -⟩
    · obtain ⟨x, hx⟩ := hg
      exact (h.linked_of_merged hm hx ha).trans (h.linked_of_merged hm hx hb).symm
    · exact (h.linked s hs a ha b hb).mono (Set.subset_insert g G)

end IsMerged

end

end Merging
