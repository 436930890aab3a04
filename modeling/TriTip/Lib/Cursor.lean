import Mathlib

/-!
# Writing into a buffer

A `Cursor` stands in a buffer of a fixed size, behind the cells that have been written through it;
it cannot be moved out of the buffer. `put` writes a cell and moves on, and fails where there is no
room. What has been written is the first part of the buffer (`written`), what is behind it (`rest`)
is as it was.
-/

structure Cursor (α : Type*) (size : Nat) where
  cells : Vector α size
  pos : Nat
  pos_le : pos ≤ size

namespace Cursor

variable {α : Type*} {size : Nat}

def put (c : Cursor α size) (x : α) : Option (Cursor α size) :=
  if h : c.pos < size then some ⟨c.cells.set c.pos x, c.pos + 1, h⟩ else none

def written (c : Cursor α size) : List α := c.cells.toList.take c.pos

def rest (c : Cursor α size) : List α := c.cells.toList.drop c.pos

@[simp] theorem length_written (c : Cursor α size) : c.written.length = c.pos := by
  rw [written, List.length_take, Vector.length_toList]
  exact Nat.min_eq_left c.pos_le

theorem written_append_rest (c : Cursor α size) : c.written ++ c.rest = c.cells.toList :=
  List.take_append_drop _ _

theorem put_of_lt {c : Cursor α size} (h : c.pos < size) (x : α) :
    ∃ c', c.put x = some c' ∧ c'.written = c.written ++ [x] ∧ c'.rest = c.rest.drop 1 := by
  have hlen : c.pos < c.cells.toList.length := by rwa [Vector.length_toList]
  refine ⟨⟨c.cells.set c.pos x, c.pos + 1, h⟩, dif_pos h, ?_, ?_⟩
  · unfold written
    rw [Vector.toList_set, List.take_succ_eq_append_getElem (by rwa [List.length_set]),
      List.getElem_set_self, List.take_set_of_le le_rfl]
  · unfold rest
    rw [Vector.toList_set, List.drop_set_of_lt (Nat.lt_succ_self _), List.drop_drop]

/-- There is room for what is put, one cell after another. -/
theorem foldlM_put {c : Cursor α size} {l : List α} (h : c.pos + l.length ≤ size) :
    ∃ c', l.foldlM put c = some c' ∧ c'.written = c.written ++ l := by
  induction l generalizing c with
  | nil => exact ⟨c, rfl, (List.append_nil _).symm⟩
  | cons x l ih =>
    rw [List.length_cons] at h
    obtain ⟨c₁, hput, hwritten, -⟩ := c.put_of_lt (by omega) x
    have hpos : c₁.pos = c.pos + 1 := by
      rw [← c₁.length_written, hwritten]
      simp
    obtain ⟨c', hfold, hrest⟩ := ih (show c₁.pos + l.length ≤ size by omega)
    refine ⟨c', ?_, ?_⟩
    · rw [List.foldlM_cons, hput]
      exact hfold
    · rw [hrest, hwritten, List.append_assoc, List.singleton_append]

end Cursor
