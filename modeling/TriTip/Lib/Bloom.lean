import Mathlib

/-!
# Bloom filters

A Bloom filter is a set of positions: inserting a key adds its positions, and a key is taken for
contained if all its positions are there. It has no false negatives (`contains_insert`,
`Contains.mono`).
-/

namespace Bloom

variable {κ ι : Type*} (positions : κ → Set ι)

def insert (s : Set ι) (k : κ) : Set ι := s ∪ positions k

def Contains (s : Set ι) (k : κ) : Prop := positions k ⊆ s

variable {positions}

theorem contains_insert (s : Set ι) (k : κ) : Contains positions (insert positions s k) k :=
  Set.subset_union_right

theorem Contains.mono {s t : Set ι} {k : κ} (h : Contains positions s k) (hst : s ⊆ t) :
    Contains positions t k := Set.Subset.trans h hst

/-- Inserting what is contained changes nothing. -/
theorem insert_eq_self {s : Set ι} {k : κ} (h : Contains positions s k) :
    insert positions s k = s := Set.union_eq_self_of_subset_right h

end Bloom
