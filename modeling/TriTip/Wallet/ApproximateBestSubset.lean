import TriTip.Lib.ExactInt64

/-!
# The search for a subset of coins

`ApproximateBestSubset` of `wallet.cpp` tries random subsets of the coins and keeps the one of the
least sum that reaches the target. A `vector<char>` of flags is the set of the indices that have the
flag. Whatever the random bits are, `vfBest` sums to `nBest`, which reaches the target
(`bestSum_ApproximateBestSubset`).
-/

namespace TriTip

open ExactInt64

/-- Where the search is. -/
structure SubsetSearch (n : Nat) where
  vfIncluded : Finset (Fin n)
  nTotal : Int64
  fReachedTarget : Bool
  vfBest : Finset (Fin n)
  nBest : Int64

section

variable {n : Nat} (vValue : Fin n → Int64) (nTargetValue : Int64)

/-- The body of the inner loop: a coin is included, and left out again if that reaches the
target. -/
def includeCoin (s : SubsetSearch n) (i : Fin n) : SubsetSearch n :=
  let nTotal := s.nTotal + vValue i
  let vfIncluded := insert i s.vfIncluded
  if nTargetValue ≤ nTotal then
    { vfIncluded := vfIncluded.erase i
      nTotal := nTotal - vValue i
      fReachedTarget := true
      vfBest := if nTotal < s.nBest then vfIncluded else s.vfBest
      nBest := if nTotal < s.nBest then nTotal else s.nBest }
  else { s with vfIncluded, nTotal }

/-- The first pass includes coins at random, the second those that are not included. -/
def searchPass (tries : SubsetSearch n → Fin n → Bool) (s : SubsetSearch n) : SubsetSearch n :=
  (List.finRange n).foldl
    (fun s i => if tries s i then includeCoin vValue nTargetValue s i else s) s

/-- One repetition, with the bits that `insecure_rand` yields in it. -/
def searchRep (insecure_rand : Nat → Bool) (s : SubsetSearch n) : SubsetSearch n :=
  let s := { s with vfIncluded := ∅, nTotal := 0, fReachedTarget := false }
  let s := searchPass vValue nTargetValue (fun _ i => insecure_rand i) s
  if s.fReachedTarget then s
  else searchPass vValue nTargetValue (fun s i => i ∉ s.vfIncluded) s

/-- The repetitions that are left. -/
def searchReps (insecure_rand : Nat → Nat → Bool) : Nat → SubsetSearch n → SubsetSearch n
  | 0, s => s
  | iterations + 1, s =>
    if s.nBest = nTargetValue then s
    else
      searchReps insecure_rand iterations
        (searchRep vValue nTargetValue (insecure_rand iterations) s)

/-- `vfBest` and `nBest`. -/
def ApproximateBestSubset (insecure_rand : Nat → Nat → Bool) (nTotalLower : Int64)
    (iterations : Nat) : Finset (Fin n) × Int64 :=
  let s := searchReps vValue nTargetValue insecure_rand iterations
    { vfIncluded := ∅, nTotal := 0, fReachedTarget := false
      vfBest := Finset.univ, nBest := nTotalLower }
  (s.vfBest, s.nBest)

end

section

variable {n : Nat} {vValue : Fin n → Int64} {nTargetValue : Int64}

/-- The sums are those of the sets, and the best one reaches the target. -/
structure SubsetSearch.Sums (vValue : Fin n → Int64) (nTargetValue : Int64) (s : SubsetSearch n) :
    Prop where
  total : s.nTotal.toInt = ∑ i ∈ s.vfIncluded, (vValue i).toInt
  best : s.nBest.toInt = ∑ i ∈ s.vfBest, (vValue i).toInt
  le_best : nTargetValue ≤ s.nBest

variable (hpos : ∀ i, 0 ≤ (vValue i).toInt) (hfits : Fits (∑ i, (vValue i).toInt))

include hpos hfits in
theorem SubsetSearch.Sums.includeCoin {s : SubsetSearch n} (h : s.Sums vValue nTargetValue)
    {i : Fin n} (hi : i ∉ s.vfIncluded) :
    (TriTip.includeCoin vValue nTargetValue s i).Sums vValue nTargetValue := by
  have hsum : ∑ j ∈ insert i s.vfIncluded, (vValue j).toInt =
      s.nTotal.toInt + (vValue i).toInt := by
    rw [Finset.sum_insert hi, h.total, add_comm]
  have hexact : (s.nTotal + vValue i).toInt = ∑ j ∈ insert i s.vfIncluded, (vValue j).toInt := by
    rw [hsum]
    exact toInt_add (hsum ▸ fits_sum_subset hpos hfits _)
  unfold TriTip.includeCoin
  by_cases hreach : nTargetValue ≤ s.nTotal + vValue i
  · rw [if_pos hreach]
    constructor
    · change (s.nTotal + vValue i - vValue i).toInt = _
      rw [Int64.add_sub_cancel, Finset.erase_insert hi]
      exact h.total
    · by_cases hbetter : s.nTotal + vValue i < s.nBest
      · simpa only [if_pos hbetter] using hexact
      · simpa only [if_neg hbetter] using h.best
    · by_cases hbetter : s.nTotal + vValue i < s.nBest
      · simpa only [if_pos hbetter] using hreach
      · simpa only [if_neg hbetter] using h.le_best
  · rw [if_neg hreach]
    exact ⟨hexact, h.best, h.le_best⟩

theorem mem_includeCoin {s : SubsetSearch n} {i j : Fin n} (hij : j ≠ i) :
    j ∈ (includeCoin vValue nTargetValue s i).vfIncluded ↔ j ∈ s.vfIncluded := by
  unfold includeCoin
  simp only []
  split <;> simp [hij]

include hpos hfits in
/-- A pass includes no coin twice: the first one comes to each coin once, the second one looks. -/
theorem SubsetSearch.Sums.foldl {tries : SubsetSearch n → Fin n → Bool} {l : List (Fin n)}
    (hl : l.Nodup) {s : SubsetSearch n} (h : s.Sums vValue nTargetValue)
    (hnew : (∀ i ∈ l, i ∉ s.vfIncluded) ∨ ∀ s i, tries s i = true → i ∉ s.vfIncluded) :
    (l.foldl (fun s i => if tries s i then TriTip.includeCoin vValue nTargetValue s i else s)
      s).Sums vValue nTargetValue := by
  induction l generalizing s with
  | nil => exact h
  | cons i l ih =>
    rw [List.nodup_cons] at hl
    rw [List.foldl_cons]
    by_cases hinc : tries s i = true
    · rw [if_pos hinc]
      have hi : i ∉ s.vfIncluded := hnew.elim (fun h => h i List.mem_cons_self) fun h => h s i hinc
      refine ih hl.2 (h.includeCoin hpos hfits hi) (hnew.imp_left fun hnew j hj => ?_)
      rw [mem_includeCoin (ne_of_mem_of_not_mem hj hl.1)]
      exact hnew j (List.mem_cons_of_mem _ hj)
    · rw [if_neg hinc]
      exact ih hl.2 h (hnew.imp_left fun hnew j hj => hnew j (List.mem_cons_of_mem _ hj))

include hpos hfits in
theorem SubsetSearch.Sums.searchRep {insecure_rand : Nat → Bool}
    {s : SubsetSearch n} (h : s.Sums vValue nTargetValue) :
    (TriTip.searchRep vValue nTargetValue insecure_rand s).Sums vValue nTargetValue := by
  have hfirst : (searchPass vValue nTargetValue (fun _ i => insecure_rand i)
      { s with vfIncluded := ∅, nTotal := 0, fReachedTarget := false }).Sums vValue nTargetValue :=
    Sums.foldl hpos hfits (List.nodup_finRange n) ⟨rfl, h.best, h.le_best⟩
      (.inl fun _ _ => Finset.notMem_empty _)
  unfold TriTip.searchRep
  simp only []
  split
  · exact hfirst
  · exact Sums.foldl hpos hfits (List.nodup_finRange n) hfirst
      (.inr fun s i h => of_decide_eq_true h)

include hpos hfits in
theorem SubsetSearch.Sums.searchReps (insecure_rand : Nat → Nat → Bool)
    (iterations : Nat) {s : SubsetSearch n} (h : s.Sums vValue nTargetValue) :
    (TriTip.searchReps vValue nTargetValue insecure_rand iterations s).Sums vValue
      nTargetValue := by
  induction iterations generalizing s with
  | zero => exact h
  | succ iterations ih =>
    unfold TriTip.searchReps
    split
    · exact h
    · exact ih (h.searchRep hpos hfits)

include hpos hfits in
/-- The subset that is found has the sum that is reported, and the sum reaches the target. -/
theorem bestSum_ApproximateBestSubset (insecure_rand : Nat → Nat → Bool)
    {nTotalLower : Int64} (hlower : nTotalLower.toInt = ∑ i, (vValue i).toInt)
    (hle : nTargetValue ≤ nTotalLower) (iterations : Nat) :
    let best := ApproximateBestSubset vValue nTargetValue insecure_rand nTotalLower iterations
    best.2.toInt = ∑ i ∈ best.1, (vValue i).toInt ∧ nTargetValue ≤ best.2 := by
  have hstart : SubsetSearch.Sums vValue nTargetValue
      ⟨∅, 0, false, Finset.univ, nTotalLower⟩ := ⟨rfl, hlower, hle⟩
  have hend := hstart.searchReps hpos hfits insecure_rand iterations
  exact ⟨hend.best, hend.le_best⟩

end

end TriTip
