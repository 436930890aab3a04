import TriTip.Lib.Counter
import TriTip.Wallet.ApproximateBestSubset

/-!
# The search for a subset of coins, with its vectors and counters

`ApproximateBestSubset` of `wallet.cpp` as it is written: the subsets are vectors of flags, the
repetitions are counted by an `int` and the coins by an `unsigned int`. With less than `2 ^ 32`
coins it does what the search with sets does (`approximateBestSubset_eq`), and the flags in `vfBest`
sum to `nBest` (`sum_vfBest_eq_nBest`). With more of them the first pass does not end
(`approximateBestSubset_eq_none`).
-/

namespace TriTip.SubsetVectors

open ExactInt64

/-- The variables of the search. -/
structure FlagSearch (n : Nat) where
  vfIncluded : Vector Bool n
  nTotal : Int64
  fReachedTarget : Bool
  vfBest : Vector Bool n
  nBest : Int64

section

variable {Coin : Type} (vValue : List (Int64 × Coin)) (nTargetValue : Int64)

def includeCoin (s : FlagSearch vValue.length) (i : Fin vValue.length) :
    FlagSearch vValue.length :=
  let nTotal := s.nTotal + (vValue.get i).1
  let vfIncluded := s.vfIncluded.set i true
  if nTotal ≥ nTargetValue then
    { vfIncluded := vfIncluded.set i false
      nTotal := nTotal - (vValue.get i).1
      fReachedTarget := true
      vfBest := if nTotal < s.nBest then vfIncluded else s.vfBest
      nBest := if nTotal < s.nBest then nTotal else s.nBest }
  else { s with vfIncluded, nTotal }

/-- The test of a coin: a random bit in the first pass, its flag in the second one. -/
def takesCoin {n : Nat} (insecure_rand : Nat → UInt32) (nPass : Nat) (s : FlagSearch n)
    (i : Fin n) : Bool :=
  if nPass = 0 then insecure_rand i &&& 1 ≠ 0 else !s.vfIncluded[i]

/-- The body of the inner loop. -/
def tryCoin (insecure_rand : Nat → UInt32) (nPass : Nat) (i : Fin vValue.length)
    (s : FlagSearch vValue.length) : FlagSearch vValue.length :=
  if takesCoin insecure_rand nPass s i then includeCoin vValue nTargetValue s i else s

/-- The passes from `nPass` on. The index of the coin is an `unsigned int`; `turns` are what its
loop has in each pass. -/
def passes (insecure_rand : Nat → UInt32) (turns nPass : Nat) (s : FlagSearch vValue.length) :
    Option (FlagSearch vValue.length) :=
  if nPass < 2 ∧ !s.fReachedTarget then do
    let s ← Counter.loop (2 ^ 32) vValue.length
      (tryCoin vValue nTargetValue insecure_rand nPass) turns 0 s
    passes insecure_rand turns (nPass + 1) s
  else some s
termination_by 2 - nPass

/-- The variables at the start of a repetition. -/
def FlagSearch.restart {n : Nat} (s : FlagSearch n) : FlagSearch n :=
  { s with vfIncluded := Vector.replicate n false, nTotal := 0, fReachedTarget := false }

/-- A counter that is less than another one does not overflow. -/
theorem toInt_next {nRep iterations : Int32} (h : nRep < iterations) :
    (nRep + 1).toInt = nRep.toInt + 1 := by
  have hlt : nRep.toInt < iterations.toInt := Int32.lt_iff_toInt_lt.mp h
  have hmax : iterations.toInt < 2 ^ 31 := iterations.toInt_lt
  have hmin : -2 ^ 31 ≤ nRep.toInt := nRep.le_toInt
  rw [Int32.toInt_add]
  apply Int.bmod_eq_of_le
  · rw [Int32.toInt_one]
    omega
  · rw [Int32.toInt_one]
    omega

/-- The repetitions from `nRep` on. -/
def repetitions (insecure_rand : Int32 → Nat → UInt32) (turns : Nat) (iterations nRep : Int32)
    (s : FlagSearch vValue.length) : Option (FlagSearch vValue.length) :=
  if h : nRep < iterations ∧ s.nBest ≠ nTargetValue then do
    let s ← passes vValue nTargetValue (insecure_rand nRep) turns 0 s.restart
    repetitions insecure_rand turns iterations (nRep + 1) s
  else some s
termination_by (iterations.toInt - nRep.toInt).toNat
decreasing_by
  have hlt := Int32.lt_iff_toInt_lt.mp h.1
  have hnext := toInt_next h.1
  omega

/-- The variables at the start of the search. -/
def FlagSearch.start (n : Nat) (nTotalLower : Int64) : FlagSearch n :=
  { vfIncluded := Vector.replicate n false
    nTotal := 0
    fReachedTarget := false
    vfBest := Vector.replicate n true
    nBest := nTotalLower }

end

/-- `vfBest` and `nBest`, with what `insecure_rand` yields in each repetition for each coin. -/
def ApproximateBestSubset {Coin : Type} (vValue : List (Int64 × Coin))
    (nTotalLower nTargetValue : Int64) (iterations : Int32)
    (insecure_rand : Int32 → Nat → UInt32) (turns : Nat) :
    Option (Vector Bool vValue.length × Int64) := do
  let s ← repetitions vValue nTargetValue insecure_rand turns iterations 0
    (FlagSearch.start vValue.length nTotalLower)
  some (s.vfBest, s.nBest)

/-! ## Flags as sets -/

section Flags

variable {n : Nat}

/-- The indices that have the flag. -/
def flagged (v : Vector Bool n) : Finset (Fin n) := {i | v[i] = true}

@[simp] theorem mem_flagged {v : Vector Bool n} {i : Fin n} : i ∈ flagged v ↔ v[i] = true := by
  simp [flagged]

@[simp] theorem flagged_replicate_false : flagged (Vector.replicate n false) = ∅ := by
  ext i
  simp

@[simp] theorem flagged_replicate_true : flagged (Vector.replicate n true) = Finset.univ := by
  ext i
  simp

@[simp] theorem flagged_ofFn (best : Finset (Fin n)) :
    flagged (Vector.ofFn fun i => decide (i ∈ best)) = best := by
  ext i
  simp

theorem mem_flagged_set {v : Vector Bool n} {i j : Fin n} {b : Bool} :
    j ∈ flagged (v.set i b) ↔ if j = i then b = true else j ∈ flagged v := by
  by_cases h : j = i
  · subst h
    simp
  · have hne : (i : Nat) ≠ j := fun heq => h (Fin.ext heq.symm)
    simp [h, hne]

@[simp] theorem flagged_set_true (v : Vector Bool n) (i : Fin n) :
    flagged (v.set i true) = insert i (flagged v) := by
  ext j
  rw [mem_flagged_set, Finset.mem_insert]
  by_cases h : j = i
  · simp [h]
  · simp [h]

@[simp] theorem flagged_set_false (v : Vector Bool n) (i : Fin n) :
    flagged (v.set i false) = (flagged v).erase i := by
  ext j
  rw [mem_flagged_set, Finset.mem_erase]
  by_cases h : j = i
  · simp [h]
  · simp [h]

/-- The search with sets that a search with flags stands for. -/
def FlagSearch.sets (s : FlagSearch n) : SubsetSearch n where
  vfIncluded := flagged s.vfIncluded
  nTotal := s.nTotal
  fReachedTarget := s.fReachedTarget
  vfBest := flagged s.vfBest
  nBest := s.nBest

theorem FlagSearch.sets_restart (s : FlagSearch n) :
    s.restart.sets = { s.sets with vfIncluded := ∅, nTotal := 0, fReachedTarget := false } := by
  simp [FlagSearch.sets, FlagSearch.restart]

theorem FlagSearch.sets_start (nTotalLower : Int64) :
    (FlagSearch.start n nTotalLower).sets = ⟨∅, 0, false, Finset.univ, nTotalLower⟩ := by
  simp [FlagSearch.sets, FlagSearch.start]

end Flags

/-! ## The search with flags is the search with sets -/

section Search

variable {Coin : Type} {vValue : List (Int64 × Coin)} {nTargetValue : Int64}

/-- The amount of a coin. -/
def amount (vValue : List (Int64 × Coin)) (i : Fin vValue.length) : Int64 := (vValue.get i).1

theorem sets_includeCoin (s : FlagSearch vValue.length) (i : Fin vValue.length) :
    (includeCoin vValue nTargetValue s i).sets =
      TriTip.includeCoin (amount vValue) nTargetValue s.sets i := by
  unfold includeCoin TriTip.includeCoin FlagSearch.sets amount
  by_cases hreach : nTargetValue ≤ s.nTotal + (vValue.get i).1
  · by_cases hbetter : s.nTotal + (vValue.get i).1 < s.nBest
    · simp only [ge_iff_le, hreach, hbetter, if_true, flagged_set_true, flagged_set_false]
    · simp only [ge_iff_le, hreach, hbetter, if_true, if_false, flagged_set_true,
        flagged_set_false]
  · simp only [ge_iff_le, hreach, if_false, flagged_set_true]

/-- A pass that comes to each coin once. -/
def pass (vValue : List (Int64 × Coin)) (nTargetValue : Int64) (insecure_rand : Nat → UInt32)
    (nPass : Nat) (s : FlagSearch vValue.length) : FlagSearch vValue.length :=
  (List.finRange vValue.length).foldl
    (fun s i => tryCoin vValue nTargetValue insecure_rand nPass i s) s

/-- A pass whose test is one of the sets alone. -/
theorem sets_pass {insecure_rand : Nat → UInt32} {nPass : Nat}
    {tries : SubsetSearch vValue.length → Fin vValue.length → Bool}
    (htries : ∀ s i, tries s.sets i = takesCoin insecure_rand nPass s i)
    (s : FlagSearch vValue.length) :
    (pass vValue nTargetValue insecure_rand nPass s).sets =
      searchPass (amount vValue) nTargetValue tries s.sets := by
  unfold pass searchPass
  symm
  apply List.foldl_hom FlagSearch.sets
  intro s i
  unfold tryCoin
  rw [htries]
  split
  · exact (sets_includeCoin s i).symm
  · rfl

variable (nTargetValue)

theorem sets_pass_zero (insecure_rand : Nat → UInt32) (s : FlagSearch vValue.length) :
    (pass vValue nTargetValue insecure_rand 0 s).sets =
      searchPass (amount vValue) nTargetValue (fun _ i => insecure_rand i &&& 1 ≠ 0) s.sets := by
  apply sets_pass
  intro s i
  rfl

theorem sets_pass_one (insecure_rand : Nat → UInt32) (s : FlagSearch vValue.length) :
    (pass vValue nTargetValue insecure_rand 1 s).sets =
      searchPass (amount vValue) nTargetValue (fun s i => i ∉ s.vfIncluded) s.sets := by
  apply sets_pass
  intro s i
  simp [takesCoin, FlagSearch.sets]

variable {turns : Nat} (hlen : vValue.length < 2 ^ 32) (hturns : vValue.length < turns)

include hlen hturns in
theorem passes_next {insecure_rand : Nat → UInt32} {nPass : Nat} {s : FlagSearch vValue.length}
    (hpass : nPass < 2) (hreached : s.fReachedTarget = false) :
    passes vValue nTargetValue insecure_rand turns nPass s =
      passes vValue nTargetValue insecure_rand turns (nPass + 1)
        (pass vValue nTargetValue insecure_rand nPass s) := by
  have hgo : nPass < 2 ∧ (!s.fReachedTarget) = true := ⟨hpass, by rw [hreached]; rfl⟩
  rw [passes, if_pos hgo, Counter.loop_eq hlen hturns]
  rfl

theorem passes_reached {insecure_rand : Nat → UInt32} {nPass : Nat}
    {s : FlagSearch vValue.length} (hreached : s.fReachedTarget = true) :
    passes vValue nTargetValue insecure_rand turns nPass s = some s := by
  rw [passes, if_neg]
  simp [hreached]

theorem passes_two (insecure_rand : Nat → UInt32) (s : FlagSearch vValue.length) :
    passes vValue nTargetValue insecure_rand turns 2 s = some s := by
  rw [passes, if_neg]
  simp

include hlen hturns in
/-- The two passes of a repetition. -/
theorem exists_passes (insecure_rand : Nat → UInt32) (s : FlagSearch vValue.length) :
    ∃ s', passes vValue nTargetValue insecure_rand turns 0 s.restart = some s' ∧
      s'.sets = searchRep (amount vValue) nTargetValue (fun i => insecure_rand i &&& 1 ≠ 0)
        s.sets := by
  have hfirst := sets_pass_zero nTargetValue insecure_rand s.restart
  rw [passes_next nTargetValue hlen hturns (by omega) rfl]
  rw [FlagSearch.sets_restart] at hfirst
  unfold searchRep
  simp only [← hfirst]
  by_cases hreached :
      (pass vValue nTargetValue insecure_rand 0 s.restart).sets.fReachedTarget = true
  · refine ⟨_, passes_reached nTargetValue hreached, ?_⟩
    rw [if_pos hreached]
  · refine ⟨pass vValue nTargetValue insecure_rand 1
      (pass vValue nTargetValue insecure_rand 0 s.restart), ?_, ?_⟩
    · rw [passes_next nTargetValue hlen hturns (by omega) (Bool.eq_false_of_not_eq_true hreached),
        passes_two]
    · rw [if_neg hreached, sets_pass_one]

/-- The bits of a repetition, by how many are left after it. -/
def repetitionBits (insecure_rand : Int32 → Nat → UInt32) (iterations : Int32) (left i : Nat) :
    Bool :=
  insecure_rand (Int32.ofInt (iterations.toInt - 1 - left)) i &&& 1 ≠ 0

include hlen hturns in
/-- By induction on the repetitions that are left. -/
theorem exists_repetitions (insecure_rand : Int32 → Nat → UInt32) {iterations nRep : Int32}
    {left : Nat} (hleft : (iterations.toInt - nRep.toInt).toNat = left)
    (s : FlagSearch vValue.length) :
    ∃ s', repetitions vValue nTargetValue insecure_rand turns iterations nRep s = some s' ∧
      s'.sets = searchReps (amount vValue) nTargetValue
        (repetitionBits insecure_rand iterations) left s.sets := by
  induction left generalizing nRep s with
  | zero =>
    refine ⟨s, ?_, rfl⟩
    rw [repetitions, dif_neg]
    intro h
    have hlt := Int32.lt_iff_toInt_lt.mp h.1
    omega
  | succ left ih =>
    have hlt : nRep < iterations := by
      rw [Int32.lt_iff_toInt_lt]
      omega
    have hnext := toInt_next hlt
    rw [repetitions]
    by_cases hbest : s.nBest = nTargetValue
    · refine ⟨s, dif_neg fun h => h.2 hbest, ?_⟩
      exact (if_pos hbest).symm
    · have hrep : Int32.ofInt (iterations.toInt - 1 - left) = nRep := by
        rw [show iterations.toInt - 1 - left = nRep.toInt by omega, Int32.ofInt_toInt]
      have hless : (iterations.toInt - (nRep + 1).toInt).toNat = left := by omega
      obtain ⟨s₁, hpasses, hs₁⟩ := exists_passes nTargetValue hlen hturns (insecure_rand nRep) s
      obtain ⟨s₂, hreps, hs₂⟩ := ih hless s₁
      refine ⟨s₂, ?_, ?_⟩
      · rw [dif_pos ⟨hlt, hbest⟩, hpasses]
        exact hreps
      · have hstep : searchReps (amount vValue) nTargetValue
            (repetitionBits insecure_rand iterations) (left + 1) s.sets =
            searchReps (amount vValue) nTargetValue (repetitionBits insecure_rand iterations) left
              (searchRep (amount vValue) nTargetValue
                (repetitionBits insecure_rand iterations left) s.sets) := if_neg hbest
        rw [hs₂, hs₁, hstep]
        unfold repetitionBits
        rw [hrep]

include hlen hturns in
/-- With enough turns the search with flags ends, and it finds what the search with sets does. -/
theorem approximateBestSubset_eq (nTotalLower : Int64) (iterations : Int32)
    (insecure_rand : Int32 → Nat → UInt32) :
    let best := TriTip.ApproximateBestSubset (amount vValue) nTargetValue
      (repetitionBits insecure_rand iterations) nTotalLower iterations.toInt.toNat
    ApproximateBestSubset vValue nTotalLower nTargetValue iterations insecure_rand turns =
      some (Vector.ofFn fun i => decide (i ∈ best.1), best.2) := by
  intro best
  have hall : (iterations.toInt - (0 : Int32).toInt).toNat = iterations.toInt.toNat := by
    rw [Int32.toInt_zero, Int.sub_zero]
  obtain ⟨s, hs, hsets⟩ := exists_repetitions nTargetValue hlen hturns insecure_rand hall
    (FlagSearch.start vValue.length nTotalLower)
  rw [FlagSearch.sets_start] at hsets
  have hbest : best = (s.sets.vfBest, s.sets.nBest) := by
    rw [hsets]
    rfl
  have hflags : (Vector.ofFn fun i => decide (i ∈ s.sets.vfBest)) = s.vfBest := by
    ext i hi
    simp [FlagSearch.sets]
  rw [hbest, hflags]
  unfold ApproximateBestSubset
  rw [hs]
  rfl

end Search

/-! ## What the search ends with -/

section Best

variable {Coin : Type} {vValue : List (Int64 × Coin)} {nTotalLower nTargetValue : Int64}

theorem sum_amount (vValue : List (Int64 × Coin)) :
    ∑ i, (amount vValue i).toInt = (vValue.map fun v => v.1.toInt).sum :=
  Fin.sum_univ_fun_getElem vValue fun v => v.1.toInt

theorem amount_nonneg (hpos : ∀ v ∈ vValue, 0 < v.1) (i : Fin vValue.length) :
    0 ≤ (amount vValue i).toInt := by
  have hlt : (0 : Int64) < amount vValue i := hpos _ (List.get_mem vValue i)
  rw [Int64.lt_iff_toInt_lt] at hlt
  exact le_of_lt hlt

/-- Without a repetition all coins are the best there is. -/
theorem approximateBestSubset_eq_all {iterations : Int32}
    (hnone : ¬(0 < iterations ∧ nTotalLower ≠ nTargetValue))
    (insecure_rand : Int32 → Nat → UInt32) (turns : Nat) :
    ApproximateBestSubset vValue nTotalLower nTargetValue iterations insecure_rand turns =
      some (Vector.replicate vValue.length true, nTotalLower) := by
  have hstop : ¬(0 < iterations ∧
      (FlagSearch.start vValue.length nTotalLower).nBest ≠ nTargetValue) := hnone
  unfold ApproximateBestSubset
  rw [repetitions, dif_neg hstop]
  rfl

/-- If the repetitions, where there are any, have less than `2 ^ 32` coins, the search ends, the
flags sum to the amount that is reported, and that is between the target and all the coins. -/
theorem sum_vfBest_eq_nBest (hpos : ∀ v ∈ vValue, 0 < v.1)
    (hlower : nTotalLower.toInt = (vValue.map fun v => v.1.toInt).sum)
    (hle : nTargetValue ≤ nTotalLower) (iterations : Int32)
    (hlen : 0 < iterations → nTotalLower ≠ nTargetValue → vValue.length < 2 ^ 32)
    (insecure_rand : Int32 → Nat → UInt32) :
    ∃ (vfBest : Vector Bool vValue.length) (nBest : Int64),
      (∀ turns, vValue.length < turns →
        ApproximateBestSubset vValue nTotalLower nTargetValue iterations insecure_rand turns =
          some (vfBest, nBest)) ∧
      nBest.toInt = ∑ i ∈ flagged vfBest, (vValue.get i).1.toInt ∧
      nTargetValue ≤ nBest ∧ nBest ≤ nTotalLower := by
  have hnonneg := amount_nonneg hpos
  have htotal : nTotalLower.toInt = ∑ i, (amount vValue i).toInt := by
    rw [hlower, sum_amount]
  have hfits : Fits (∑ i, (amount vValue i).toInt) := htotal ▸ fits_toInt nTotalLower
  by_cases hrep : 0 < iterations ∧ nTotalLower ≠ nTargetValue
  · have hlt := hlen hrep.1 hrep.2
    obtain ⟨hsum, hreach⟩ := bestSum_ApproximateBestSubset hnonneg hfits
      (repetitionBits insecure_rand iterations) htotal hle iterations.toInt.toNat
    refine ⟨_, _, fun turns hturns => approximateBestSubset_eq nTargetValue hlt hturns _ _ _,
      ?_, hreach, ?_⟩
    · rw [flagged_ofFn]
      exact hsum
    · rw [Int64.le_iff_toInt_le, hsum, htotal]
      exact Finset.sum_le_univ_sum_of_nonneg hnonneg
  · refine ⟨_, _, fun turns _ => approximateBestSubset_eq_all hrep insecure_rand turns, ?_, hle,
      Int64.le_refl nTotalLower⟩
    rw [flagged_replicate_true]
    exact htotal

theorem sum_vfBest_eq_nBest_three :
    let vValue : List (Int64 × String) := [(3, "a"), (5, "b"), (4, "c")]
    let insecure_rand : Int32 → Nat → UInt32 := fun nRep i => nRep.toUInt32 + UInt32.ofNat i
    ∃ (vfBest : Vector Bool vValue.length) (nBest : Int64),
      (∀ turns, vValue.length < turns →
        ApproximateBestSubset vValue 12 6 1000 insecure_rand turns = some (vfBest, nBest)) ∧
      nBest.toInt = ∑ i ∈ flagged vfBest, (vValue.get i).1.toInt ∧ 6 ≤ nBest ∧ nBest ≤ 12 := by
  intro vValue insecure_rand
  apply sum_vfBest_eq_nBest
  · decide
  · decide
  · decide
  · intro _ _
    decide

/-- From `2 ^ 32` coins on the index wraps around in the first pass. -/
theorem approximateBestSubset_eq_none {iterations : Int32} (hlen : 2 ^ 32 ≤ vValue.length)
    (hiterations : 0 < iterations) (hbest : nTotalLower ≠ nTargetValue)
    (insecure_rand : Int32 → Nat → UInt32) (turns : Nat) :
    ApproximateBestSubset vValue nTotalLower nTargetValue iterations insecure_rand turns =
      none := by
  have hpass : passes vValue nTargetValue (insecure_rand 0) turns 0
      (FlagSearch.start vValue.length nTotalLower).restart = none := by
    rw [passes, if_pos ⟨by omega, rfl⟩, Counter.loop_eq_none hlen (by omega)]
    rfl
  unfold ApproximateBestSubset
  rw [repetitions, dif_pos ⟨hiterations, hbest⟩, hpass]
  rfl

/-- As many coins of one unit each, for a payment of one. -/
theorem no_end_of_equal_coins :
    let vValue : List (Int64 × Unit) := List.replicate (2 ^ 32) (1, ())
    (∀ v ∈ vValue, 0 < v.1) ∧ (2 ^ 32 : Int64).toInt = (vValue.map fun v => v.1.toInt).sum ∧
      (0 : Int64) < 1 ∧ (1 : Int64) ≤ 2 ^ 32 ∧
      ∀ turns, ApproximateBestSubset vValue (2 ^ 32) 1 1 (fun _ _ => 0) turns = none := by
  intro vValue
  have hlen : vValue.length = 2 ^ 32 := List.length_replicate
  refine ⟨?_, ?_, by decide, by decide, fun turns => ?_⟩
  · intro v hv
    rw [List.eq_of_mem_replicate hv]
    decide
  · rw [List.map_replicate, List.sum_replicate]
    decide
  · apply approximateBestSubset_eq_none hlen.ge
    · decide
    · decide

end Best

end TriTip.SubsetVectors
