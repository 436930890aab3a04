import Mathlib

/-!
# Numbering items between numbered ones

Items in a list have a number or none; the numbers need not be in the order of the list. An item
without a number gets the one after all that come before it in the list, and the numbered items
that are then in its way move up. `gaps` has, for each item without a number, where it comes in the
old numbering; `newNumber` is the number that an item gets. New numbers are apart
(`newNumber_ne`), and keep the order of the old ones (`newNumber_lt_of_lt`).

A program that has the numbers that the items without one have got, but not where they come in the
old numbering, may still count them, if no number lies between the two (`countP_taken`).
-/

namespace Renumber

variable {α : Type} (number : α → Option ℕ)

/-- The number after all that are in a list, or `e` if that is more. -/
def endFrom (e : ℕ) : List α → ℕ
  | [] => e
  | a :: l =>
    match number a with
    | none => endFrom e l
    | some p => endFrom (max e (p + 1)) l

/-- Where the items without a number come in the old numbering. -/
def gapsFrom (e : ℕ) : List α → List ℕ
  | [] => []
  | a :: l =>
    match number a with
    | none => e :: gapsFrom e l
    | some p => gapsFrom (max e (p + 1)) l

abbrev gaps (l : List α) : List ℕ := gapsFrom number 0 l

/-- The number that an item gets after the items `before`. -/
def newNumber (before : List α) (a : α) : ℕ :=
  match number a with
  | none => endFrom number 0 before + (gaps number before).length
  | some p => p + (gaps number before).countP (· ≤ p)

variable {number}

theorem endFrom_append (e : ℕ) (l l' : List α) :
    endFrom number e (l ++ l') = endFrom number (endFrom number e l) l' := by
  induction l generalizing e with
  | nil => rfl
  | cons a l ih =>
    rw [List.cons_append, endFrom, endFrom]
    cases number a <;> exact ih _

theorem gapsFrom_append (e : ℕ) (l l' : List α) :
    gapsFrom number e (l ++ l') =
      gapsFrom number e l ++ gapsFrom number (endFrom number e l) l' := by
  induction l generalizing e with
  | nil => rfl
  | cons a l ih =>
    rw [List.cons_append, gapsFrom, gapsFrom, endFrom]
    cases number a with
    | none => exact congrArg (e :: ·) (ih e)
    | some p => exact ih _

theorem gaps_append (l l' : List α) :
    gaps number (l ++ l') = gaps number l ++ gapsFrom number (endFrom number 0 l) l' :=
  gapsFrom_append 0 l l'

theorem gaps_concat_of_none {l : List α} {a : α} (ha : number a = none) :
    gaps number (l ++ [a]) = gaps number l ++ [endFrom number 0 l] := by
  rw [gaps_append, gapsFrom, ha]
  rfl

theorem gaps_concat_of_some {l : List α} {a : α} {p : ℕ} (ha : number a = some p) :
    gaps number (l ++ [a]) = gaps number l := by
  rw [gaps_append, gapsFrom, ha]
  exact List.append_nil _

theorem endFrom_concat_of_none {e : ℕ} {l : List α} {a : α} (ha : number a = none) :
    endFrom number e (l ++ [a]) = endFrom number e l := by
  rw [endFrom_append, endFrom, ha]
  rfl

theorem endFrom_concat_of_some {e : ℕ} {l : List α} {a : α} {p : ℕ} (ha : number a = some p) :
    endFrom number e (l ++ [a]) = max (endFrom number e l) (p + 1) := by
  rw [endFrom_append, endFrom, ha]
  rfl

theorem le_endFrom (number : α → Option ℕ) (e : ℕ) (l : List α) : e ≤ endFrom number e l := by
  induction l generalizing e with
  | nil => exact le_rfl
  | cons a l ih =>
    rw [endFrom]
    cases number a with
    | none => exact ih e
    | some p => exact (le_max_left ..).trans (ih _)

/-- A number in the list is less than its end. -/
theorem lt_endFrom {e : ℕ} {l : List α} {a : α} (ha : a ∈ l) {p : ℕ} (hp : number a = some p) :
    p < endFrom number e l := by
  induction l generalizing e with
  | nil => cases ha
  | cons b l ih =>
    rw [endFrom]
    rcases List.mem_cons.1 ha with rfl | ha
    · rw [hp]
      exact (le_max_right ..).trans (le_endFrom number _ l)
    · cases number b <;> exact ih ha

theorem le_of_mem_gapsFrom {e : ℕ} {l : List α} {g : ℕ} (h : g ∈ gapsFrom number e l) :
    e ≤ g ∧ g ≤ endFrom number e l := by
  induction l generalizing e with
  | nil => cases h
  | cons a l ih =>
    rw [gapsFrom] at h
    rw [endFrom]
    cases ha : number a with
    | none =>
      simp only [ha] at h
      rcases List.mem_cons.1 h with rfl | h
      · exact ⟨le_rfl, le_endFrom number _ l⟩
      · exact ih h
    | some p =>
      simp only [ha] at h
      exact ⟨(le_max_left ..).trans (ih h).1, (ih h).2⟩

/-- The gaps that come later are behind a number that is less than them. -/
theorem countP_gaps_append {l : List α} {p : ℕ} (h : p < endFrom number 0 l) (l' : List α) :
    (gaps number (l ++ l')).countP (· ≤ p) = (gaps number l).countP (· ≤ p) := by
  rw [gaps_append, List.countP_append, Nat.add_eq_left, List.countP_eq_zero]
  intro g hg
  rw [decide_eq_true_iff, not_le]
  exact h.trans_le (le_of_mem_gapsFrom hg).1

theorem countP_gaps_le (number : α → Option ℕ) (l l' : List α) (p : ℕ) :
    (gaps number l).countP (· ≤ p) ≤ (gaps number (l ++ l')).countP (· ≤ p) := by
  rw [gaps_append, List.countP_append]
  exact Nat.le_add_right ..

/-- All the gaps are before a number that is not less than the end. -/
theorem countP_gaps_eq_length {l : List α} {p : ℕ} (h : endFrom number 0 l ≤ p) :
    (gaps number l).countP (· ≤ p) = (gaps number l).length := by
  rw [List.countP_eq_length]
  intro g hg
  exact decide_eq_true ((le_of_mem_gapsFrom hg).2.trans h)

theorem newNumber_of_none {before : List α} {a : α} (ha : number a = none) :
    newNumber number before a = endFrom number 0 before + (gaps number before).length := by
  rw [newNumber, ha]

theorem newNumber_of_some (before : List α) {a : α} {p : ℕ} (ha : number a = some p) :
    newNumber number before a = p + (gaps number before).countP (· ≤ p) := by
  rw [newNumber, ha]

/-- The first number that is free after a list: each item without a number has taken one. -/
def nextNumber (number : α → Option ℕ) (l : List α) : ℕ :=
  endFrom number 0 l + (gaps number l).length

theorem nextNumber_concat (number : α → Option ℕ) (l : List α) (a : α) :
    nextNumber number (l ++ [a]) = max (nextNumber number l) (newNumber number l a + 1) := by
  unfold nextNumber
  cases ha : number a with
  | none =>
    rw [endFrom_concat_of_none ha, gaps_concat_of_none ha, newNumber_of_none ha,
      List.length_append, List.length_singleton]
    omega
  | some p =>
    rw [endFrom_concat_of_some ha, gaps_concat_of_some ha, newNumber_of_some _ ha]
    have hcount : (gaps number l).countP (· ≤ p) ≤ (gaps number l).length := List.countP_le_length
    rcases le_or_gt (endFrom number 0 l) p with h | h
    · rw [countP_gaps_eq_length h]
      omega
    · omega

theorem nextNumber_le_append (number : α → Option ℕ) (l l' : List α) :
    nextNumber number l ≤ nextNumber number (l ++ l') := by
  unfold nextNumber
  rw [endFrom_append, gaps_append, List.length_append]
  have := le_endFrom number (endFrom number 0 l) l'
  omega

/-- What an item gets is less than what is free after it. -/
theorem newNumber_lt (before after : List α) (a : α) :
    newNumber number before a < nextNumber number (before ++ a :: after) := by
  have h := nextNumber_le_append number (before ++ [a]) after
  rw [nextNumber_concat, List.append_assoc, List.singleton_append] at h
  omega

section

variable {before mid : List α} {a b : α}

/-- What comes later without a number gets a greater one. -/
theorem newNumber_lt_of_none (hb : number b = none) :
    newNumber number before a < newNumber number (before ++ a :: mid) b := by
  rw [newNumber_of_none hb]
  exact newNumber_lt before mid a

/-- A number is not the new one of an item that comes before it and had none. -/
theorem newNumber_ne_of_none (ha : number a = none) {q : ℕ} (hb : number b = some q) :
    newNumber number before a ≠ newNumber number (before ++ a :: mid) b := by
  rw [newNumber_of_none ha, newNumber_of_some _ hb]
  rcases le_or_gt (endFrom number 0 before) q with h | h
  · -- the number is in the way of the item, which is counted with all before it
    have hle := countP_gaps_le number (before ++ [a]) mid q
    rw [countP_gaps_eq_length (by rwa [endFrom_concat_of_none ha]), gaps_concat_of_none ha,
      List.length_append, List.length_singleton, List.append_assoc, List.singleton_append] at hle
    omega
  · rw [countP_gaps_append h]
    have hcount : (gaps number before).countP (· ≤ q) ≤ (gaps number before).length :=
      List.countP_le_length
    omega

/-- A number that is greater and comes later stays greater. -/
theorem newNumber_lt_of_lt {p q : ℕ} (ha : number a = some p) (hb : number b = some q)
    (hpq : p < q) : newNumber number before a < newNumber number (before ++ a :: mid) b := by
  rw [newNumber_of_some _ ha, newNumber_of_some _ hb]
  have hmono : (gaps number before).countP (· ≤ p) ≤ (gaps number before).countP (· ≤ q) :=
    List.countP_mono_left fun g _ hg => decide_eq_true ((of_decide_eq_true hg).trans hpq.le)
  have hle := countP_gaps_le number before (a :: mid) q
  omega

/-- A number that is less and comes later stays less. -/
theorem newNumber_lt_of_gt {p q : ℕ} (ha : number a = some p) (hb : number b = some q)
    (hqp : q < p) : newNumber number (before ++ a :: mid) b < newNumber number before a := by
  rw [newNumber_of_some _ ha, newNumber_of_some _ hb]
  have hend : q < endFrom number 0 (before ++ [a]) :=
    hqp.trans (lt_endFrom (List.mem_append_right _ (List.mem_singleton_self a)) ha)
  have hcount := countP_gaps_append hend mid
  rw [gaps_concat_of_some ha, List.append_assoc, List.singleton_append] at hcount
  have hmono : (gaps number before).countP (· ≤ q) ≤ (gaps number before).countP (· ≤ p) :=
    List.countP_mono_left fun g _ hg => decide_eq_true ((of_decide_eq_true hg).trans hqp.le)
  omega

/-- **Two items get different numbers** if they had. -/
theorem newNumber_ne (hne : ∀ p, number a = some p → number b ≠ some p) :
    newNumber number before a ≠ newNumber number (before ++ a :: mid) b := by
  cases hb : number b with
  | none => exact (newNumber_lt_of_none hb).ne
  | some q =>
    cases ha : number a with
    | none => exact newNumber_ne_of_none ha hb
    | some p =>
      have hpq : p ≠ q := fun h => hne p ha (h ▸ hb)
      rcases hpq.lt_or_gt with h | h
      · exact (newNumber_lt_of_lt ha hb h).ne
      · exact (newNumber_lt_of_gt ha hb h).ne'

end

/-! ## Counting the numbers that were given -/

/-- The numbers that the items without one get. -/
def taken (number : α → Option ℕ) (l : List α) : List ℕ :=
  (gaps number l).mapIdx fun u g => g + u

/-- No number is between where an item without one comes and what that gets. -/
def Clear (number : α → Option ℕ) (l : List α) : Prop :=
  ∀ before a after p, l = before ++ a :: after → number a = some p →
    ∀ u g, (gaps number before)[u]? = some g → g ≤ p → g + u ≤ p

theorem taken_concat_of_none {l : List α} {a : α} (ha : number a = none) :
    taken number (l ++ [a]) = taken number l ++ [nextNumber number l] := by
  unfold taken
  rw [gaps_concat_of_none ha, List.mapIdx_concat]
  rfl

theorem taken_concat_of_some {l : List α} {a : α} {p : ℕ} (ha : number a = some p) :
    taken number (l ++ [a]) = taken number l := by
  unfold taken
  rw [gaps_concat_of_some ha]

theorem countP_mapIdx_add {gs : List ℕ} {p : ℕ}
    (h : ∀ u g, gs[u]? = some g → g ≤ p → g + u ≤ p) :
    (gs.mapIdx fun u g => g + u).countP (· ≤ p) = gs.countP (· ≤ p) := by
  conv_rhs => rw [← List.zipIdx_map_fst 0 gs]
  rw [List.mapIdx_eq_zipIdx_map, List.countP_map, List.countP_map]
  refine List.countP_congr fun r hr => ?_
  have hget := List.mem_zipIdx_iff_getElem?.1 hr
  simp only [Function.comp_apply, decide_eq_true_iff]
  exact ⟨fun hle => (Nat.le_add_right ..).trans hle, h r.2 r.1 hget⟩

theorem countP_taken {l before after : List α} {a : α} {p : ℕ} (hclear : Clear number l)
    (hl : l = before ++ a :: after) (ha : number a = some p) :
    (taken number before).countP (· ≤ p) = (gaps number before).countP (· ≤ p) :=
  countP_mapIdx_add (hclear before a after p hl ha)

/-- Of two items of a list one is before the other. -/
theorem before_or_after {l : List α} {a b : α} (ha : a ∈ l) (hb : b ∈ l) (hne : a ≠ b) :
    (∃ before mid after, l = before ++ a :: (mid ++ b :: after)) ∨
      ∃ before mid after, l = before ++ b :: (mid ++ a :: after) := by
  obtain ⟨before, after, rfl⟩ := List.append_of_mem ha
  rcases List.mem_append.1 hb with hb | hb
  · obtain ⟨before, mid, rfl⟩ := List.append_of_mem hb
    exact .inr ⟨before, mid, after, by rw [List.append_assoc, List.cons_append]⟩
  · obtain ⟨mid, after, rfl⟩ := List.append_of_mem ((List.mem_cons.1 hb).resolve_left hne.symm)
    exact .inl ⟨before, mid, after, rfl⟩

end Renumber
