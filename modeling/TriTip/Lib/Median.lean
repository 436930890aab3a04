import Mathlib

/-!
# The middle of the last samples

`MedianFilter.input` keeps the last samples, `MedianFilter.sorted` sorts them. What is at a place of
the sorted samples is told by counting (`getElem?_sorted_le_iff`): it is at most `x` if and only if
more samples than that place are. At the place in the middle, a least value shows up once more than
half of the samples have it (`getElem?_sorted_eq_least_iff`).
-/

namespace MedianFilter

variable {α : Type}

/-- One more sample; of `nSize` samples the oldest, which is in front, goes. -/
def input (nSize : Nat) (vValues : List α) (value : α) : List α :=
  (if vValues.length = nSize then vValues.tail else vValues) ++ [value]

/-- The filter keeps the last samples. -/
theorem input_rtake {nSize : Nat} (h : 0 < nSize) (vValues : List α) (value : α) :
    input nSize (vValues.rtake nSize) value = (vValues ++ [value]).rtake nSize := by
  obtain ⟨n, rfl⟩ := Nat.exists_eq_add_of_lt h
  rw [Nat.zero_add, List.rtake_concat_succ]
  unfold input
  congr 1
  have hlen : (vValues.rtake (n + 1)).length = min (n + 1) vValues.length := by
    unfold List.rtake
    rw [List.length_drop]
    omega
  split
  · next hfull =>
    unfold List.rtake
    rw [List.tail_drop]
    congr 1
    omega
  · next hroom =>
    unfold List.rtake
    congr 1
    omega

variable [LE α] [DecidableLE α]

def sorted (vValues : List α) : List α := vValues.insertionSort (· ≤ ·)

theorem sorted_perm (vValues : List α) : (sorted vValues).Perm vValues :=
  List.perm_insertionSort _ _

@[simp] theorem length_sorted (vValues : List α) : (sorted vValues).length = vValues.length :=
  (sorted_perm vValues).length_eq

variable [Std.IsLinearOrder α]

theorem sorted_pairwise (vValues : List α) : (sorted vValues).Pairwise (· ≤ ·) := by
  have htotal : Std.Total (α := α) (· ≤ ·) := ⟨fun _ _ => Std.le_total⟩
  have htrans : IsTrans α (· ≤ ·) := ⟨fun _ _ _ => Std.le_trans⟩
  exact List.pairwise_insertionSort (· ≤ ·) vValues

/-- What a place of the sorted samples holds, by counting. -/
theorem getElem?_sorted_le_iff {vValues : List α} {k : Nat} {y : α}
    (h : (sorted vValues)[k]? = some y) (x : α) :
    y ≤ x ↔ k < vValues.countP fun a => a ≤ x := by
  obtain ⟨hlt, hy⟩ := List.getElem?_eq_some_iff.1 h
  have hpair := List.pairwise_iff_getElem.1 (sorted_pairwise vValues)
  have hsplit := List.take_append_drop k (sorted vValues)
  have hcount : (vValues.countP fun a => a ≤ x) =
      ((sorted vValues).take k).countP (fun a => a ≤ x) +
        ((sorted vValues).drop k).countP fun a => a ≤ x := by
    rw [← List.countP_append, hsplit, (sorted_perm vValues).countP_eq]
  constructor
  · intro hyx
    -- the samples up to `k` are all at most `x`
    have hbefore : ((sorted vValues).take k).countP (fun a => a ≤ x) = k := by
      have hall : ∀ a ∈ (sorted vValues).take k, decide (a ≤ x) = true := by
        intro a ha
        obtain ⟨j, hj, rfl⟩ := List.mem_take_iff_getElem.1 ha
        refine decide_eq_true (Std.le_trans ?_ hyx)
        rw [← hy]
        exact hpair j k (by omega) hlt (by omega)
      rw [List.countP_eq_length.2 hall, List.length_take]
      omega
    have hhere : 0 < ((sorted vValues).drop k).countP fun a => a ≤ x := by
      refine List.countP_pos_iff.2 ⟨y, ?_, decide_eq_true hyx⟩
      rw [← hy]
      exact List.mem_drop_iff_getElem.2 ⟨0, by omega, by simp⟩
    omega
  · intro hlt'
    by_contra hyx
    -- the samples from `k` on are all greater than `x`
    have hafter : ((sorted vValues).drop k).countP (fun a => a ≤ x) = 0 := by
      refine List.countP_eq_zero.2 fun a ha hax => hyx ?_
      obtain ⟨j, hj, rfl⟩ := List.mem_drop_iff_getElem.1 ha
      refine Std.le_trans ?_ (of_decide_eq_true hax)
      rw [← hy]
      rcases Nat.eq_zero_or_pos j with rfl | hpos
      · exact Std.le_refl _
      · exact hpair k (k + j) hlt (by omega) (by omega)
    have hbefore := List.countP_le_length (p := fun a => decide (a ≤ x))
      (l := (sorted vValues).take k)
    rw [List.length_take] at hbefore
    omega

/-- A least value is at a place of the sorted samples if and only if more samples have it. -/
theorem getElem?_sorted_eq_least_iff [DecidableEq α] {vValues : List α} {k : Nat} {y least : α}
    (hleast : ∀ a, least ≤ a) (h : (sorted vValues)[k]? = some y) :
    y = least ↔ k < vValues.count least := by
  have hle : ∀ a : α, a ≤ least ↔ a = least := fun a =>
    ⟨fun ha => Std.le_antisymm ha (hleast a), fun ha => ha ▸ Std.le_refl a⟩
  rw [← hle y, getElem?_sorted_le_iff h, List.count]
  refine iff_of_eq (congrArg (k < ·) (List.countP_congr fun a _ => ?_))
  simp [hle]

end MedianFilter
