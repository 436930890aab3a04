import TriTip.Net.Address
import TriTip.Lib.Median
import TriTip.Lib.Run

/-!
# The time offset

`AddTimeData` of `util.cpp`: the difference of a peer's time to the clock is a sample, and at
every odd number of samples from five on the middle one becomes the time offset if it is within 70
minutes. The filter of `util.h` is `MedianFilter` with 200 places, starting from the sample 0;
`abs64` negates in 64 bits, so that it leaves the least number as it is.
-/

namespace TriTip

def abs64 (n : Int64) : Int64 := if 0 ≤ n then n else -n

/-- The static variables `AddTimeData` works on. -/
structure TimeData where
  setKnown : List CNetAddr
  vTimeOffsets : List Int64
  nTimeOffset : Int64
  fDone : Bool
  strMiscWarning : String
  deriving DecidableEq

namespace TimeData

def maxSamples : Nat := 200

def start : TimeData where
  setKnown := []
  vTimeOffsets := [0]
  nTimeOffset := 0
  fDone := false
  strMiscWarning := ""

def GetTimeOffset (s : TimeData) : Int64 := s.nTimeOffset

def GetAdjustedTime (s : TimeData) (now : Int64) : Int64 := now + s.GetTimeOffset

/-- The middle sample, of an odd number of them. -/
def median (vValues : List Int64) : Int64 :=
  (MedianFilter.sorted vValues).getD (vValues.length / 2) 0

def warning : String :=
  "Warning: Please check that your computer's date and time are correct! If your clock is wrong " ++
    "Bitcoin will not work properly."

/-- The offset is reset, with a warning if nobody has a time near ours. -/
def Reset (s : TimeData) : TimeData :=
  if !s.fDone && !s.vTimeOffsets.any fun nOffset => nOffset ≠ 0 ∧ abs64 nOffset < 5 * 60 then
    { s with nTimeOffset := 0, fDone := true, strMiscWarning := warning }
  else { s with nTimeOffset := 0 }

def AddTimeData (ip : CNetAddr) (nTime now : Int64) (s : TimeData) : TimeData :=
  let nOffsetSample := nTime - now
  -- Ignore duplicates
  if ip ∈ s.setKnown then s
  else
    let s := { s with
      setKnown := ip :: s.setKnown
      vTimeOffsets := MedianFilter.input maxSamples s.vTimeOffsets nOffsetSample }
    if 5 ≤ s.vTimeOffsets.length ∧ s.vTimeOffsets.length % 2 = 1 then
      let nMedian := median s.vTimeOffsets
      -- Only let other nodes change our time by so much
      if abs64 nMedian < 70 * 60 then { s with nTimeOffset := nMedian } else s.Reset
    else s

/-- A time that a peer gives, and the clock when it does. -/
structure Sample where
  ip : CNetAddr
  nTime : Int64
  now : Int64

def step (s : TimeData) (c : Sample) : TimeData := AddTimeData c.ip c.nTime c.now s

/-- The offset is within 70 minutes. -/
def Bounded (s : TimeData) : Prop := -(70 * 60) < s.nTimeOffset ∧ s.nTimeOffset < 70 * 60

/-- A sample of a new address that makes the samples odd in number, at least five, and more than
half of them the least 64-bit number. -/
def Skews (s : TimeData) (c : Sample) : Prop :=
  let vValues := MedianFilter.input maxSamples s.vTimeOffsets (c.nTime - c.now)
  c.ip ∉ s.setKnown ∧ 5 ≤ vValues.length ∧ vValues.length % 2 = 1 ∧
    vValues.length / 2 < vValues.count Int64.minValue

/-- The absolute value is within the limit for one number too many. -/
theorem abs64_lt_iff (n : Int64) :
    abs64 n < 70 * 60 ↔ n = Int64.minValue ∨ (-(70 * 60) < n ∧ n < 70 * 60) := by
  have h1 : (70 * 60 : Int64).toInt = 4200 := by decide
  have h2 : (-(70 * 60) : Int64).toInt = -4200 := by decide
  have h3 : (0 : Int64).toInt = 0 := rfl
  have hlow := n.le_toInt
  have hhigh := n.toInt_lt
  have hmin : n = Int64.minValue ↔ n.toInt = -2 ^ 63 := by
    rw [← Int64.toInt_inj, Int64.toInt_minValue]
  rw [hmin, Int64.lt_iff_toInt_lt, Int64.lt_iff_toInt_lt, Int64.lt_iff_toInt_lt, h1, h2]
  unfold abs64
  by_cases h0 : 0 ≤ n
  · rw [if_pos h0]
    rw [Int64.le_iff_toInt_le, h3] at h0
    omega
  · rw [if_neg h0, Int64.toInt_neg]
    rw [Int64.le_iff_toInt_le, h3] at h0
    by_cases hm : n.toInt = -2 ^ 63
    · rw [hm]
      decide
    · rw [Int.bmod_eq_of_le (by omega) (by omega)]
      omega

/-- The middle sample is the least number if more than half of them are. -/
theorem median_eq_minValue_iff {vValues : List Int64} (h : vValues ≠ []) :
    median vValues = Int64.minValue ↔ vValues.length / 2 < vValues.count Int64.minValue := by
  have hlen : vValues.length / 2 < (MedianFilter.sorted vValues).length := by
    rw [MedianFilter.length_sorted]
    exact Nat.div_lt_self (List.length_pos_iff.2 h) (by decide)
  have hget := List.getElem?_eq_getElem hlen
  rw [← MedianFilter.getElem?_sorted_eq_least_iff Int64.minValue_le hget]
  unfold median
  rw [List.getD_eq_getElem?_getD, hget, Option.getD_some]

theorem start_bounded : start.Bounded := ⟨by decide, by decide⟩

theorem Reset_bounded (s : TimeData) : s.Reset.Bounded := by
  unfold Reset
  split <;> exact start_bounded

/-- From a bounded offset, the step that leaves the bounds is the one that skews. -/
theorem step_bounded_iff {s : TimeData} (h : s.Bounded) (c : Sample) :
    (s.step c).Bounded ↔ ¬s.Skews c := by
  unfold step AddTimeData Skews
  dsimp only
  by_cases hip : c.ip ∈ s.setKnown
  · rw [if_pos hip]
    exact ⟨fun _ hs => hs.1 hip, fun _ => h⟩
  rw [if_neg hip]
  set vValues := MedianFilter.input maxSamples s.vTimeOffsets (c.nTime - c.now)
  by_cases hodd : 5 ≤ vValues.length ∧ vValues.length % 2 = 1
  · have hne : vValues ≠ [] := by
      intro hnil
      rw [hnil] at hodd
      exact absurd hodd.1 (by decide)
    rw [if_pos hodd, ← median_eq_minValue_iff hne]
    split
    · next habs =>
      rcases (abs64_lt_iff _).1 habs with hmin | hbound
      · refine ⟨fun hb => ?_, fun hs => absurd ⟨hip, hodd.1, hodd.2, hmin⟩ hs⟩
        have hlow : -(70 * 60) < median vValues := hb.1
        rw [hmin] at hlow
        exact absurd hlow (by decide)
      · refine ⟨fun _ hs => ?_, fun _ => hbound⟩
        rw [hs.2.2.2] at hbound
        exact absurd hbound.1 (by decide)
    · next habs =>
      refine ⟨fun _ hs => habs ?_, fun _ => Reset_bounded _⟩
      exact (abs64_lt_iff _).2 (Or.inl hs.2.2.2)
  · rw [if_neg hodd]
    exact ⟨fun _ hs => hodd ⟨hs.2.1, hs.2.2.1⟩, fun _ => h⟩

/-- **When the time offset stays within 70 minutes.** In a run of samples it does in every state,
if and only if no sample of the run skews the state it comes to. -/
theorem reachable_bounded_iff (run : List Sample) :
    (∀ pre : List Sample, pre <+: run → (pre.foldl step start).Bounded) ↔
      ∀ (pre : List Sample) (c : Sample), pre ++ [c] <+: run → ¬(pre.foldl step start).Skews c := by
  constructor
  · intro h pre c hpre hskew
    have hbefore := h pre ((List.prefix_append pre [c]).trans hpre)
    have hafter := h (pre ++ [c]) hpre
    rw [List.foldl_append] at hafter
    exact (step_bounded_iff hbefore c).1 hafter hskew
  · intro h pre hpre
    apply Run.foldl_of_prefix (fun _ s => Bounded s) start_bounded _ hpre
    intro pre c hpre hbefore
    exact (step_bounded_iff hbefore c).2 (h pre c hpre)

section Runs

/-- Four peers whose time is the least number, at a clock of 0. -/
def farPeers : List Sample :=
  [1, 2, 3, 4].map fun n => ⟨CNetAddr.ofIPv4 8 8 8 n, Int64.minValue, 0⟩

theorem offset_after_farPeers : (farPeers.foldl step start).nTimeOffset = Int64.minValue := by
  decide +kernel

end Runs

end TimeData

end TriTip
