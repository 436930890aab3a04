import Mathlib

/-!
# Key-value stores

A store maps keys to values; a batch is a list of writes and erasures that are made in order. What a
key has after a batch is what the last entry for it says, and what it had before if there is none.
-/

namespace KeyValue

variable {K V : Type} [DecidableEq K]

abbrev Store (K V : Type) := K → Option V

/-- A key with its new value, or with `none` for an erasure. -/
abbrev Batch (K V : Type) := List (K × Option V)

def applyBatch (s : Store K V) (batch : Batch K V) : Store K V :=
  batch.foldl (fun s entry => Function.update s entry.1 entry.2) s

/-- Keys without an entry keep what they have. -/
theorem applyBatch_of_not_mem {s : Store K V} {batch : Batch K V} {k : K}
    (h : ∀ entry ∈ batch, entry.1 ≠ k) : applyBatch s batch k = s k := by
  induction batch generalizing s with
  | nil => rfl
  | cons entry batch ih =>
    change applyBatch (Function.update s entry.1 entry.2) batch k = s k
    rw [ih fun e he => h e (List.mem_cons_of_mem _ he),
      Function.update_of_ne (Ne.symm (h entry List.mem_cons_self))]

/-- A key with one entry has what that says. -/
theorem applyBatch_of_mem {s : Store K V} {batch : Batch K V}
    (hnodup : (batch.map Prod.fst).Nodup) {k : K} {v : Option V} (h : (k, v) ∈ batch) :
    applyBatch s batch k = v := by
  induction batch generalizing s with
  | nil => cases h
  | cons entry batch ih =>
    rw [List.map_cons, List.nodup_cons] at hnodup
    change applyBatch (Function.update s entry.1 entry.2) batch k = v
    rcases List.mem_cons.1 h with rfl | hmem
    · have hother : ∀ e ∈ batch, e.1 ≠ k := fun e he heq =>
        hnodup.1 (List.mem_map.2 ⟨e, he, heq⟩)
      rw [applyBatch_of_not_mem hother, Function.update_self]
    · exact ih hnodup.2 hmem

end KeyValue
