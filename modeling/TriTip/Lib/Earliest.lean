import Mathlib

/-!
# The earliest of several times

`update` keeps the earlier of two times, where 0 is no time that is known. It takes a 0 for a time
when a later one is kept, and forgets that one: what is kept in the end (`foldl_update`) is the
earliest of the times that `counting` leaves of a list.
-/

namespace Earliest

variable {α : Type} [LinearOrder α] [Zero α]

def update (kept time : α) : α :=
  if kept = 0 ∨ time < kept then time else kept

/-- All the times, if one is before 0, else those behind the last 0. -/
def counting (times : List α) : List α :=
  if ∃ t ∈ times, t < 0 then times else (times.reverse.takeWhile (· ≠ 0)).reverse

theorem counting_of_neg {times : List α} (h : ∃ t ∈ times, t < 0) : counting times = times :=
  if_pos h

theorem counting_of_nonneg {times : List α} (h : ¬∃ t ∈ times, t < 0) :
    counting times = (times.reverse.takeWhile (· ≠ 0)).reverse :=
  if_neg h

theorem mem_of_mem_counting {times : List α} {t : α} (h : t ∈ counting times) : t ∈ times := by
  unfold counting at h
  split_ifs at h
  · exact h
  · exact List.mem_reverse.1 ((List.takeWhile_sublist _).subset (List.mem_reverse.1 h))

/-- Behind a 0 no time counts. -/
theorem counting_concat_zero {times : List α} (h : ¬∃ t ∈ times, t < 0) :
    counting (times ++ [0]) = [] := by
  rw [counting_of_nonneg]
  · simp
  · rintro ⟨t, ht, hneg⟩
    rcases List.mem_append.1 ht with ht | ht
    · exact h ⟨t, ht, hneg⟩
    · exact (List.mem_singleton.1 ht ▸ hneg).false

theorem counting_concat_pos {times : List α} (h : ¬∃ t ∈ times, t < 0) {t : α} (ht : 0 < t) :
    counting (times ++ [t]) = counting times ++ [t] := by
  rw [counting_of_nonneg h, counting_of_nonneg]
  · simp [ht.ne']
  · rintro ⟨t', ht', hneg⟩
    rcases List.mem_append.1 ht' with ht' | ht'
    · exact h ⟨t', ht', hneg⟩
    · exact ht.not_gt (List.mem_singleton.1 ht' ▸ hneg)

/-- The earliest of the times that count, or 0 if none does. -/
def IsEarliest (times : List α) (kept : α) : Prop :=
  counting times = [] ∧ kept = 0 ∨ kept ≠ 0 ∧ kept ∈ counting times ∧ ∀ t ∈ counting times, kept ≤ t

/-- What is kept is before 0 if and only if one of the times is. -/
theorem IsEarliest.neg_iff {times : List α} {kept : α} (h : IsEarliest times kept) :
    kept < 0 ↔ ∃ t ∈ times, t < 0 := by
  constructor
  · rintro hneg
    rcases h with ⟨-, rfl⟩ | ⟨-, hmem, -⟩
    · exact absurd hneg (lt_irrefl _)
    · exact ⟨kept, mem_of_mem_counting hmem, hneg⟩
  · rintro hneg
    have hcount := counting_of_neg hneg
    obtain ⟨t, ht, htneg⟩ := hneg
    rcases h with ⟨hnil, -⟩ | ⟨-, -, hle⟩
    · rw [hcount] at hnil
      exact absurd (hnil ▸ ht) List.not_mem_nil
    · rw [hcount] at hle
      exact (hle t ht).trans_lt htneg

/-- One time more. -/
theorem IsEarliest.update {times : List α} {kept : α} (h : IsEarliest times kept) (t : α) :
    IsEarliest (times ++ [t]) (update kept t) := by
  unfold Earliest.update
  by_cases hneg : ∃ t ∈ times, t < 0
  · -- all times count, before as after
    have hcount := counting_of_neg hneg
    have hkept := h.neg_iff.2 hneg
    have hneg' : ∃ t' ∈ times ++ [t], t' < 0 :=
      hneg.imp fun t' ht' => ⟨List.mem_append_left _ ht'.1, ht'.2⟩
    obtain ⟨-, rfl⟩ | ⟨hne, hmem, hle⟩ := h
    · exact absurd hkept (lt_irrefl _)
    · rw [hcount] at hmem hle
      rw [IsEarliest, counting_of_neg hneg', List.forall_mem_append, List.forall_mem_singleton]
      simp only [hne, false_or]
      split_ifs with hlt
      · exact .inr ⟨(hlt.trans hkept).ne, List.mem_append_right _ (List.mem_singleton_self t),
          fun t' ht' => hlt.le.trans (hle t' ht'), le_rfl⟩
      · exact .inr ⟨hne, List.mem_append_left _ hmem, hle, not_lt.1 hlt⟩
  · have hkept : 0 ≤ kept := not_lt.1 fun hlt => hneg (h.neg_iff.1 hlt)
    rcases lt_trichotomy t 0 with ht | rfl | ht
    · -- the first time before 0 is before all
      have hneg' : ∃ t' ∈ times ++ [t], t' < 0 :=
        ⟨t, List.mem_append_right _ (List.mem_singleton_self t), ht⟩
      rw [if_pos (.inr (ht.trans_le hkept)), IsEarliest, counting_of_neg hneg',
        List.forall_mem_append, List.forall_mem_singleton]
      refine .inr ⟨ht.ne, List.mem_append_right _ (List.mem_singleton_self t), ?_, le_rfl⟩
      exact fun t' ht' => ht.le.trans (not_lt.1 fun hlt => hneg ⟨t', ht', hlt⟩)
    · have hzero : (if kept = 0 ∨ 0 < kept then (0 : α) else kept) = 0 :=
        if_pos (hkept.eq_or_lt.imp_left Eq.symm)
      rw [hzero]
      exact .inl ⟨counting_concat_zero hneg, rfl⟩
    · rw [IsEarliest, counting_concat_pos hneg ht, List.forall_mem_append,
        List.forall_mem_singleton]
      obtain ⟨hnil, rfl⟩ | ⟨hne, hmem, hle⟩ := h
      · rw [if_pos (.inl rfl), hnil]
        exact .inr ⟨ht.ne', List.mem_singleton_self t, nofun, le_rfl⟩
      · simp only [hne, false_or]
        split_ifs with hlt
        · exact .inr ⟨ht.ne', List.mem_append_right _ (List.mem_singleton_self t),
            fun t' ht' => hlt.le.trans (hle t' ht'), le_rfl⟩
        · exact .inr ⟨hne, List.mem_append_left _ hmem, hle, not_lt.1 hlt⟩

/-- **What is kept in the end** is the earliest of the times that count. -/
theorem isEarliest_foldl (times : List α) : IsEarliest times (times.foldl update 0) := by
  induction times using List.reverseRecOn with
  | nil => exact .inl ⟨by simp [counting], rfl⟩
  | append_singleton times t ih =>
    rw [List.foldl_append]
    exact ih.update t

end Earliest
