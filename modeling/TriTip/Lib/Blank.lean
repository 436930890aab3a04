import Mathlib

/-!
# Blanking places of a list and dropping the blank end

A list keeps values at places; a blank `x` marks a place that is empty, `p` tells blanks, and
blanks at the end are dropped. Blanking places one after another, with the end dropped each time,
gives what blanking all of them and dropping the end once gives (`rdropWhile_foldl_set`), which
only depends on which places they are (`foldl_set_congr`), and a value is put back by padding with
blanks (`set_of_blanked`).
-/

namespace Blank

variable {α : Type*} {p : α → Bool} {x : α}

theorem rdropWhile_append_of_all {l w : List α} (h : ∀ y ∈ w, p y = true) :
    (l ++ w).rdropWhile p = l.rdropWhile p := by
  induction w using List.reverseRecOn with
  | nil => rw [List.append_nil]
  | append_singleton w y ih =>
    rw [← List.append_assoc, List.rdropWhile_concat_pos _ _ _ (h y (by simp))]
    exact ih fun z hz => h z (List.mem_append_left _ hz)

/-- A list is what is left of it and a blank end. -/
theorem exists_blank_end (p : α → Bool) (l : List α) :
    ∃ w, l = l.rdropWhile p ++ w ∧ ∀ y ∈ w, p y = true :=
  ⟨l.rtakeWhile p, List.rdropWhile_append_rtakeWhile.symm,
    fun _ hy => List.mem_rtakeWhile_imp hy⟩

theorem rdropWhile_set (hx : p x = true) (l : List α) (n : Nat) :
    ((l.rdropWhile p).set n x).rdropWhile p = (l.set n x).rdropWhile p := by
  obtain ⟨w, hw, hall⟩ := exists_blank_end p l
  conv_rhs => rw [hw, List.set_append]
  split
  · exact (rdropWhile_append_of_all hall).symm
  · next hge =>
    rw [List.set_eq_of_length_le (Nat.not_lt.1 hge), rdropWhile_append_of_all]
    intro y hy
    rcases List.mem_or_eq_of_mem_set hy with hy | rfl
    · exact hall y hy
    · exact hx

/-- Dropping the blank end in between makes no difference. -/
theorem rdropWhile_foldl_set (hx : p x = true) (ns : List Nat) (l : List α) :
    (ns.foldl (fun l n => l.set n x) (l.rdropWhile p)).rdropWhile p =
      (ns.foldl (fun l n => l.set n x) l).rdropWhile p := by
  induction ns generalizing l with
  | nil => exact List.rdropWhile_idempotent p l
  | cons n ns ih =>
    rw [List.foldl_cons, List.foldl_cons, ← ih, rdropWhile_set hx, ih]

theorem getElem?_foldl_set (ns : List Nat) (l : List α) (i : Nat) :
    (ns.foldl (fun l n => l.set n x) l)[i]? = if i ∈ ns then l[i]?.map fun _ => x else l[i]? := by
  induction ns generalizing l with
  | nil => rfl
  | cons n ns ih =>
    rw [List.foldl_cons, ih, List.getElem?_set']
    by_cases hin : n = i
    · subst hin
      rw [if_pos rfl, if_pos List.mem_cons_self]
      cases l[n]? <;> simp
    · rw [if_neg hin]
      have hmem : i ∈ n :: ns ↔ i ∈ ns := by
        rw [List.mem_cons, or_iff_right (Ne.symm hin)]
      simp only [hmem]

/-- It only matters which places are blanked. -/
theorem foldl_set_congr {ns ns' : List Nat} (h : ∀ n, n ∈ ns ↔ n ∈ ns') (l : List α) :
    ns.foldl (fun l n => l.set n x) l = ns'.foldl (fun l n => l.set n x) l := by
  refine List.ext_getElem? fun i => ?_
  rw [getElem?_foldl_set, getElem?_foldl_set]
  simp only [h]

/-- When all blanks are the same, a list is what is left of it and some of them. -/
theorem rdropWhile_append_replicate {l : List α} (hall : ∀ y ∈ l, p y = true → y = x) :
    l.rdropWhile p ++ List.replicate (l.length - (l.rdropWhile p).length) x = l := by
  obtain ⟨w, hw, hblank⟩ := exists_blank_end p l
  have hlen : l.length - (l.rdropWhile p).length = w.length := by
    have h := congrArg List.length hw
    rw [List.length_append] at h
    omega
  have hrep : w = List.replicate w.length x := by
    refine List.eq_replicate_iff.2 ⟨rfl, fun y hy => hall y ?_ (hblank y hy)⟩
    rw [hw]
    exact List.mem_append_right _ hy
  rw [hlen, ← hrep]
  exact hw.symm

/-- **A value is put back** into a list without a blank end, of which its place had been blanked. -/
theorem set_of_blanked {l : List α} {n : Nat} (hx : p x = true) (hn : n < l.length)
    (hlast : ∀ y, l.getLast? = some y → p y = false) (hall : ∀ y ∈ l, p y = true → y = x) :
    ((l.set n x).rdropWhile p ++
      List.replicate (n + 1 - ((l.set n x).rdropWhile p).length) x).set n l[n] = l := by
  have hpad : n + 1 - ((l.set n x).rdropWhile p).length =
      (l.set n x).length - ((l.set n x).rdropWhile p).length := by
    have hle := (List.rdropWhile_prefix p (l.set n x)).length_le
    rw [List.length_set] at hle ⊢
    by_cases hend : n + 1 = l.length
    · rw [hend]
    · -- the last value is still there, so that nothing is dropped
      have hkeep : (l.set n x).rdropWhile p = l.set n x := by
        refine List.rdropWhile_eq_self_iff.2 fun hne => ?_
        rw [Bool.not_eq_true]
        refine hlast _ ?_
        rw [← List.getLast?_eq_some_getLast hne, List.getLast?_eq_getElem?,
          List.getLast?_eq_getElem?, List.length_set, List.getElem?_set_ne (by omega)]
      rw [hkeep, List.length_set]
      omega
  rw [hpad, rdropWhile_append_replicate, List.set_set, List.set_getElem_self]
  intro y hy hblank
  rcases List.mem_or_eq_of_mem_set hy with hy | rfl
  · exact hall y hy hblank
  · rfl

end Blank
