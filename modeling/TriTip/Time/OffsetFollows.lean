import TriTip.Time.TimeData

/-!
# The time offset: whether it follows the peers

The offset is set at an odd number of samples only, and the filter stays at 200 once it is there.
So after the call that brings the 199th sample the offset is the median of that moment for good
(`offset_after`). The exact condition for it to be the median of the last or the last but one window
is `follows_iff`. Of the filter's own `median`, which `util.h` defines, only its value at an odd
number of samples is known: it is a parameter.
-/

namespace TriTip

namespace TimeData

/-- The samples in the filter after a run. -/
def window (run : List Sample) : List Int64 :=
  (0 :: run.map fun c => c.nTime - c.now).rtake maxSamples

/-- A median within 70 minutes; 0 for one that is not. -/
def clipped (nMedian : Int64) : Int64 :=
  if -(70 * 60) < nMedian ∧ nMedian < 70 * 60 then nMedian else 0

/-- What becomes the offset. -/
def adopted (nMedian : Int64) : Int64 := if abs64 nMedian < 70 * 60 then nMedian else 0

/-- After how many of `n` calls the offset was set last. -/
def refreshed (n : Nat) : Nat := min n 198 / 2 * 2

theorem length_window (run : List Sample) : (window run).length = min 200 (run.length + 1) := by
  unfold window List.rtake
  rw [List.length_drop, List.length_cons, List.length_map]
  simp only [maxSamples]
  omega

theorem adopted_eq_clipped {nMedian : Int64} (h : nMedian ≠ Int64.minValue) :
    adopted nMedian = clipped nMedian := by
  unfold adopted clipped
  simp only [abs64_lt_iff, h, false_or]

/-- No median becomes the least number. -/
theorem adopted_minValue_ne_clipped (nMedian : Int64) :
    adopted Int64.minValue ≠ clipped nMedian := by
  have hadopted : adopted Int64.minValue = Int64.minValue := by decide
  rw [hadopted]
  unfold clipped
  split
  · next hbound =>
    rintro rfl
    exact absurd hbound.1 (by decide)
  · decide

/-! ## The state after a run -/

/-- The samples are the last ones, and the known addresses those of the run. -/
structure After (run : List Sample) (s : TimeData) : Prop where
  known : ∀ ip, ip ∈ s.setKnown ↔ ip ∈ run.map fun c => c.ip
  samples : s.vTimeOffsets = window run

theorem start_after : start.After [] := by
  refine ⟨fun ip => Iff.rfl, ?_⟩
  decide

theorem window_concat (run : List Sample) (c : Sample) :
    window (run ++ [c]) = MedianFilter.input maxSamples (window run) (c.nTime - c.now) := by
  unfold window
  rw [MedianFilter.input_rtake (by decide), List.map_append, ← List.cons_append]
  rfl

/-- A call from a new address. -/
theorem step_after {run : List Sample} {s : TimeData} (h : s.After run) {c : Sample}
    (hnew : c.ip ∉ run.map fun c => c.ip) :
    (s.step c).After (run ++ [c]) ∧
      (s.step c).nTimeOffset =
        if 5 ≤ (window (run ++ [c])).length ∧ (window (run ++ [c])).length % 2 = 1 then
          adopted (median (window (run ++ [c])))
        else s.nTimeOffset := by
  have hip : c.ip ∉ s.setKnown := fun hk => hnew ((h.known c.ip).1 hk)
  have hsamples : MedianFilter.input maxSamples s.vTimeOffsets (c.nTime - c.now) =
      window (run ++ [c]) := by rw [h.samples, window_concat]
  have hknown : ∀ ip, ip ∈ c.ip :: s.setKnown ↔ ip ∈ (run ++ [c]).map fun c => c.ip := by
    intro ip
    rw [List.mem_cons, h.known, List.map_append, List.mem_append, List.map_singleton,
      List.mem_singleton, or_comm]
  obtain ⟨vValues, hvalues⟩ : ∃ vValues, window (run ++ [c]) = vValues := ⟨_, rfl⟩
  rw [hvalues] at hsamples ⊢
  unfold step AddTimeData
  dsimp only
  rw [if_neg hip, hsamples]
  split
  · unfold adopted Reset
    split_ifs
    · exact ⟨⟨hknown, hvalues.symm⟩, rfl⟩
    · exact ⟨⟨hknown, hvalues.symm⟩, rfl⟩
    · exact ⟨⟨hknown, hvalues.symm⟩, rfl⟩
  · exact ⟨⟨hknown, hvalues.symm⟩, rfl⟩

/-- **The offset after a run** of at least four calls from different addresses is what the last odd
number of samples gave, which was the 199th at the latest. -/
theorem offset_after {run : List Sample} (hdistinct : (run.map fun c => c.ip).Nodup) :
    (run.foldl step start).After run ∧
      (run.foldl step start).nTimeOffset = if run.length < 4 then 0
        else adopted (median (window (run.take (refreshed run.length)))) := by
  induction run using List.reverseRecOn with
  | nil => exact ⟨start_after, rfl⟩
  | append_singleton run c ih =>
    rw [List.map_append, List.map_singleton, List.nodup_append] at hdistinct
    obtain ⟨hafter, hoffset⟩ := ih hdistinct.1
    have hnew : c.ip ∉ run.map fun c => c.ip :=
      fun hm => hdistinct.2.2 _ hm _ (List.mem_singleton.2 rfl) rfl
    obtain ⟨hafter', hoffset'⟩ := step_after hafter hnew
    rw [List.foldl_append, List.foldl_cons, List.foldl_nil]
    refine ⟨hafter', ?_⟩
    rw [hoffset', length_window, hoffset, List.length_append, List.length_singleton]
    by_cases hodd : 5 ≤ min 200 (run.length + 1 + 1) ∧ min 200 (run.length + 1 + 1) % 2 = 1
    · -- set just now: the run up to here is the whole run
      have hwhole : refreshed (run.length + 1) = (run ++ [c]).length := by
        unfold refreshed
        rw [List.length_append, List.length_singleton]
        omega
      rw [if_pos hodd, if_neg (by omega), hwhole, List.take_length]
    · rw [if_neg hodd]
      by_cases hfew : run.length + 1 < 4
      · rw [if_pos hfew, if_pos (by omega)]
      · -- as it was before this call
        have hsame : refreshed (run.length + 1) = refreshed run.length := by
          unfold refreshed
          omega
        have hle : refreshed run.length ≤ run.length := by
          unfold refreshed
          omega
        rw [if_neg hfew, if_neg (by omega), hsame, List.take_append_of_le_length hle]

/-! ## The median of the last windows -/

/-- The offset is the median of the last window or of the one before, where one of 70 minutes or
more counts as 0. -/
def Follows (filterMedian : List Int64 → Int64) (run : List Sample) : Prop :=
  (run.foldl step start).nTimeOffset = clipped (filterMedian (window run)) ∨
    (run.foldl step start).nTimeOffset = clipped (filterMedian (window run.dropLast))

/-- Not more than half of the samples were the least number when the offset was set last; and from
the 200th call on the median of that moment is again the one of the last window or of the one
before. -/
def KeepsUp (filterMedian : List Int64 → Int64) (run : List Sample) : Prop :=
  let vLast := window (run.take (refreshed run.length))
  vLast.count Int64.minValue ≤ vLast.length / 2 ∧
    (200 ≤ run.length → clipped (filterMedian vLast) = clipped (filterMedian (window run)) ∨
      clipped (filterMedian vLast) = clipped (filterMedian (window run.dropLast)))

/-- **When the time offset follows the peers.** After every run of calls from different addresses
that has brought five samples, with the initial one. -/
theorem follows_iff {filterMedian : List Int64 → Int64}
    (hodd : ∀ vValues : List Int64, vValues.length % 2 = 1 → filterMedian vValues = median vValues)
    {run : List Sample} (hdistinct : (run.map fun c => c.ip).Nodup) (hfive : 5 ≤ run.length + 1) :
    Follows filterMedian run ↔ KeepsUp filterMedian run := by
  obtain ⟨-, hoffset⟩ := offset_after hdistinct
  rw [if_neg (by omega)] at hoffset
  unfold Follows KeepsUp
  dsimp only
  set vLast := window (run.take (refreshed run.length)) with hlast
  have hlen : vLast.length = refreshed run.length + 1 := by
    rw [hlast, length_window, List.length_take]
    unfold refreshed
    omega
  have hmedian : filterMedian vLast = median vLast := by
    refine hodd vLast ?_
    rw [hlen]
    unfold refreshed
    omega
  have hne : vLast ≠ [] := List.ne_nil_of_length_pos (by omega)
  have hmin := median_eq_minValue_iff hne
  rw [hoffset]
  by_cases hm : median vLast = Int64.minValue
  · rw [hm]
    have hmost := hmin.1 hm
    constructor
    · rintro (h | h) <;> exact absurd h (adopted_minValue_ne_clipped _)
    · intro h
      omega
  · have hfew : vLast.count Int64.minValue ≤ vLast.length / 2 := by
      by_contra hmost
      exact hm (hmin.2 (by omega))
    rw [adopted_eq_clipped hm, ← hmedian, and_iff_right hfew]
    refine ⟨fun h _ => h, fun h => ?_⟩
    by_cases hmany : 200 ≤ run.length
    · exact h hmany
    · -- the last window or the one before is the odd one
      by_cases heven : run.length % 2 = 0 ∧ run.length ≤ 198
      · have hwhole : refreshed run.length = run.length := by
          unfold refreshed
          omega
        left
        rw [hlast, hwhole, List.take_length]
      · have hbefore : refreshed run.length = run.length - 1 := by
          unfold refreshed
          omega
        right
        rw [hlast, hbefore, ← List.dropLast_eq_take]

section Runs

/-- The mean of the two middle samples, of an even number of them. -/
def meanMedian (vValues : List Int64) : Int64 :=
  if vValues.length % 2 = 1 then median vValues
  else ((MedianFilter.sorted vValues).getD (vValues.length / 2 - 1) 0 + median vValues) / 2

theorem follows_iff_nearPeers :
    Follows meanMedian ([1, 2, 3, 4].map fun n => ⟨CNetAddr.ofIPv4 8 8 8 n, 60, 0⟩) ↔
      KeepsUp meanMedian ([1, 2, 3, 4].map fun n => ⟨CNetAddr.ofIPv4 8 8 8 n, 60, 0⟩) :=
  follows_iff (fun vValues h => if_pos h) (by decide) (by decide)

/-- 200 peers with our time, and then 200 peers whose time is 1000 seconds ahead. -/
def latePeers : List Sample :=
  (List.range 400).map fun n =>
    ⟨CNetAddr.ofIPv4 8 8 (.ofNat (n / 256)) (.ofNat n), if n < 200 then 0 else 1000, 0⟩

/-- All samples of the last window are 1000, but the offset is 0. -/
theorem offset_after_latePeers :
    (latePeers.map fun c => c.ip).Nodup ∧ 5 ≤ latePeers.length + 1 ∧
      (latePeers.foldl step start).nTimeOffset = 0 ∧ ¬Follows meanMedian latePeers := by
  -- the last two bytes of the addresses are the numbers of the peers
  have hnumbers : (latePeers.map fun c => c.ip).map (fun a =>
      (a.ip.getD 14 0).toNat * 256 + (a.ip.getD 15 0).toNat) = List.range 400 := by
    decide +kernel
  have hdistinct : (latePeers.map fun c => c.ip).Nodup :=
    List.Nodup.of_map _ (by rw [hnumbers]; exact List.nodup_range)
  have hlen : latePeers.length = 400 := by
    unfold latePeers
    rw [List.length_map, List.length_range]
  have hoffset := (offset_after hdistinct).2
  rw [hlen, if_neg (by decide)] at hoffset
  have hmedian : adopted (median (window (latePeers.take (refreshed 400)))) = 0 := by decide +kernel
  have hlast : clipped (meanMedian (window latePeers)) = 1000 := by decide +kernel
  have hbefore : clipped (meanMedian (window latePeers.dropLast)) = 1000 := by decide +kernel
  rw [hmedian] at hoffset
  refine ⟨hdistinct, by rw [hlen]; decide, hoffset, ?_⟩
  rintro (h | h)
  · rw [hoffset, hlast] at h
    exact absurd h (by decide)
  · rw [hoffset, hbefore] at h
    exact absurd h (by decide)

end Runs

end TimeData

end TriTip
