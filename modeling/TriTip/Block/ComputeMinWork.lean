import TriTip.Block.ProcessBlock
import TriTip.Block.ProofOfWork
import TriTip.Lib.ExactInt64

/-!
# The least work after a checkpoint

`ComputeMinWork` and its use in `ProcessBlock` (`bitcoin_messages_handlers.cpp`). The target grows
by four for every eight weeks begun, up to the limit (`ComputeMinWork_eq`), so that a block that is
accepted is accepted at any later time too (`target_after_checkpoint`).
-/

namespace TriTip

open Significand CBigNum

def nTargetSpacing : Int64 := 10 * 60

/-- Two weeks. -/
def nTargetTimespan : Int64 := 14 * 24 * 60 * 60

theorem toInt_timespan : (nTargetTimespan * 4).toInt = 4838400 := by decide

/-- The loop; `none` if `nTime` has no room. -/
def MinWorkLoop (bnResult : Int) (nTime : Int64) : Option Int :=
  if _h : 0 < nTime ∧ bnResult < bnProofOfWorkLimit then
    if _hfits : ExactInt64.Fits (nTime.toInt - (nTargetTimespan * 4).toInt) then
      -- Maximum 400% adjustment, in best-case exactly 4-times-normal target time
      MinWorkLoop (bnResult * 4) (nTime - nTargetTimespan * 4)
    else none
  else some bnResult
termination_by nTime.toInt.toNat
decreasing_by
  rw [ExactInt64.toInt_sub _hfits, toInt_timespan]
  have hpos : 0 < nTime.toInt := Int64.lt_iff_toInt_lt.1 _h.1
  omega

def ComputeMinWork (fTestNet : Bool) (nBase : UInt32) (nTime : Int64) : Option UInt32 :=
  -- Testnet has min-difficulty blocks after nTargetSpacing*2 time between blocks
  if fTestNet ∧ nTime > nTargetSpacing * 2 then some (GetCompact bnProofOfWorkLimit)
  else do
    let bnResult ← MinWorkLoop (SetCompact nBase) nTime
    let bnResult := if bnResult > bnProofOfWorkLimit then bnProofOfWorkLimit else bnResult
    return GetCompact bnResult

/-- The comparison in `ProcessBlock`, of `bnNewBlock` and `bnRequired`. -/
def tooLittleWork (fTestNet : Bool) (nBits checkpointBits : UInt32) (deltaTime : Int64) : Bool :=
  (ComputeMinWork fTestNet checkpointBits deltaTime).any fun nRequired =>
    SetCompact nBits > SetCompact nRequired

/-! ## The loop -/

/-- How many times eight weeks have begun. -/
def periods (nTime : Int64) : Nat := nTime.toInt.toNat ⌈/⌉ (4 * nTargetTimespan.toInt.toNat)

theorem periods_eq (nTime : Int64) : periods nTime = (nTime.toInt.toNat + 4838399) / 4838400 := by
  have hperiod : 4 * nTargetTimespan.toInt.toNat = 4838400 := by decide
  unfold periods
  rw [Nat.ceilDiv_eq_add_pred_div, hperiod]
  omega

theorem periods_mono {nTime nTime' : Int64} (h : nTime ≤ nTime') :
    periods nTime ≤ periods nTime' := by
  have hle : nTime.toInt ≤ nTime'.toInt := Int64.le_iff_toInt_le.1 h
  rw [periods_eq, periods_eq]
  apply Nat.div_le_div_right
  omega

/-- The limit apart, a target is multiplied once in every period. -/
theorem MinWorkLoop_eq {bnResult : Int} (hpos : 0 < bnResult) (nTime : Int64) :
    ∃ bn, MinWorkLoop bnResult nTime = some bn ∧
      min bnProofOfWorkLimit bn = min bnProofOfWorkLimit (bnResult * 4 ^ periods nTime) := by
  induction bnResult, nTime using MinWorkLoop.induct with
  | case1 bnResult nTime h hfits ih =>
    have htime : 0 < nTime.toInt := Int64.lt_iff_toInt_lt.1 h.1
    obtain ⟨bn, hloop, hbn⟩ := ih (by omega)
    have hperiods : periods nTime = periods (nTime - nTargetTimespan * 4) + 1 := by
      rw [periods_eq, periods_eq, ExactInt64.toInt_sub hfits, toInt_timespan]
      omega
    refine ⟨bn, ?_, ?_⟩
    · rw [MinWorkLoop, dif_pos h, dif_pos hfits]
      exact hloop
    · rw [hbn, hperiods, pow_succ', Int.mul_assoc]
  | case2 bnResult nTime h hfits =>
    -- what is taken from a positive number does not leave the range
    have htime : 0 < nTime.toInt := Int64.lt_iff_toInt_lt.1 h.1
    have hlt := nTime.toInt_lt
    refine absurd ⟨?_, ?_⟩ hfits <;> rw [toInt_timespan] <;> omega
  | case3 bnResult nTime h =>
    refine ⟨bnResult, ?_, ?_⟩
    · rw [MinWorkLoop, dif_neg h]
    · rcases not_and_or.1 h with htime | hlimit
      · have hzero : periods nTime = 0 := by
          have hle : nTime.toInt ≤ 0 := Int64.le_iff_toInt_le.1 (Int64.not_lt.1 htime)
          rw [periods_eq]
          omega
        rw [hzero, pow_zero, Int.mul_one]
      · have hgrown : bnResult ≤ bnResult * 4 ^ periods nTime :=
          le_mul_of_one_le_right hpos.le (one_le_pow₀ (by decide))
        rw [min_eq_left (Int.not_lt.1 hlimit), min_eq_left ((Int.not_lt.1 hlimit).trans hgrown)]

/-- On the main network. -/
theorem ComputeMinWork_eq {nBase : UInt32} (hpos : 0 < SetCompact nBase) (nTime : Int64) :
    ComputeMinWork false nBase nTime =
      some (GetCompact (min bnProofOfWorkLimit (SetCompact nBase * 4 ^ periods nTime))) := by
  obtain ⟨bn, hloop, hbn⟩ := MinWorkLoop_eq hpos nTime
  unfold ComputeMinWork
  rw [if_neg (by simp), hloop, ← hbn]
  have hclamped : (if bn > bnProofOfWorkLimit then bnProofOfWorkLimit else bn) =
      min bnProofOfWorkLimit bn := by
    split
    · next h => exact (min_eq_left h.le).symm
    · next h => exact (min_eq_right (Int.not_lt.1 h)).symm
  exact congrArg (fun bn => some (GetCompact bn)) hclamped

/-! ## Targets -/

/-- A target that went through the compact form. -/
theorem SetCompact_GetCompact_of_nonneg {n : Int} (hpos : 0 ≤ n) (hle : n ≤ bnProofOfWorkLimit) :
    SetCompact (GetCompact n) = (cut 256 2 3 n.toNat : Int) := by
  rw [bnProofOfWorkLimit_eq] at hle
  have hsmall : n.natAbs < 256 ^ 253 := by
    have hpow : (2 ^ 224 : Nat) < 256 ^ 253 := by norm_num
    omega
  obtain ⟨a, rfl⟩ := Int.eq_ofNat_of_zero_le hpos
  rw [SetCompact_GetCompact hsmall, Int.natAbs_natCast, Int.toNat_natCast]
  rcases eq_or_ne a 0 with rfl | ha
  · rfl
  · rw [Int.sign_natCast_of_ne_zero ha, Int.one_mul]

/-- A target of the compact form is not changed. -/
theorem SetCompact_GetCompact_SetCompact {nBits : UInt32} (hpos : 0 < SetCompact nBits)
    (hle : SetCompact nBits ≤ bnProofOfWorkLimit) :
    SetCompact (GetCompact (SetCompact nBits)) = SetCompact nBits := by
  have hvalue : (SetCompact nBits).toNat =
      value 256 3 (nBits.toNat / 2 ^ 24) (nBits.toNat % 2 ^ 23) := by
    rw [SetCompact_eq] at hpos ⊢
    split at hpos
    · omega
    · next hsign => rw [if_neg hsign, Int.one_mul, Int.toNat_natCast]
  have hmantissa : 2 * (nBits.toNat % 2 ^ 23) < 256 ^ 3 := by omega
  rw [SetCompact_GetCompact_of_nonneg hpos.le hle, hvalue, cut_value (by decide) hmantissa,
    ← hvalue]
  exact Int.toNat_of_nonneg hpos.le

theorem SetCompact_GetCompact_mono {m n : Int} (hpos : 0 ≤ m) (hmn : m ≤ n)
    (hle : n ≤ bnProofOfWorkLimit) : SetCompact (GetCompact m) ≤ SetCompact (GetCompact n) := by
  rw [SetCompact_GetCompact_of_nonneg hpos (hmn.trans hle),
    SetCompact_GetCompact_of_nonneg (hpos.trans hmn) hle]
  have hcut : cut 256 2 3 m.toNat ≤ cut 256 2 3 n.toNat :=
    cut_mono (by decide) (by decide) (by decide) (by decide) (Int.toNat_le_toNat hmn)
  exact_mod_cast hcut

section Target

variable {nBase : UInt32} (hpos : 0 < SetCompact nBase)

include hpos

/-- The target before it is made compact. -/
theorem target_pos (nTime : Int64) :
    0 ≤ min bnProofOfWorkLimit (SetCompact nBase * 4 ^ periods nTime) := by
  have hlimit : 0 ≤ bnProofOfWorkLimit := by
    rw [bnProofOfWorkLimit_eq]
    decide
  have hgrown : 0 ≤ SetCompact nBase * 4 ^ periods nTime := by positivity
  exact le_min hlimit hgrown

/-- The target that is allowed is not below the one at the checkpoint. -/
theorem target_ge (nTime : Int64) :
    min (SetCompact nBase) (SetCompact (GetCompact bnProofOfWorkLimit)) ≤
      SetCompact (GetCompact (min bnProofOfWorkLimit (SetCompact nBase * 4 ^ periods nTime))) := by
  have hgrown : SetCompact nBase ≤ SetCompact nBase * 4 ^ periods nTime :=
    le_mul_of_one_le_right hpos.le (one_le_pow₀ (by decide))
  rcases le_or_gt (SetCompact nBase) bnProofOfWorkLimit with hle | hgt
  · apply (min_le_left _ _).trans
    calc SetCompact nBase = SetCompact (GetCompact (SetCompact nBase)) :=
          (SetCompact_GetCompact_SetCompact hpos hle).symm
      _ ≤ _ := SetCompact_GetCompact_mono hpos.le (le_min hle hgrown) (min_le_left _ _)
  · rw [min_eq_left (hgt.le.trans hgrown)]
    exact min_le_right _ _

theorem target_mono {nTime nTime' : Int64} (h : nTime ≤ nTime') :
    SetCompact (GetCompact (min bnProofOfWorkLimit (SetCompact nBase * 4 ^ periods nTime))) ≤
      SetCompact (GetCompact (min bnProofOfWorkLimit (SetCompact nBase * 4 ^ periods nTime'))) := by
  apply SetCompact_GetCompact_mono (target_pos hpos nTime) _ (min_le_left _ _)
  apply min_le_min_left
  exact Int.mul_le_mul_of_nonneg_left (pow_le_pow_right₀ (by decide) (periods_mono h)) hpos.le

/-- More time does not make the work too little. -/
theorem tooLittleWork_mono {nBits : UInt32} {nTime nTime' : Int64} (h : nTime ≤ nTime')
    (hwork : tooLittleWork false nBits nBase nTime = false) :
    tooLittleWork false nBits nBase nTime' = false := by
  have hmono := target_mono hpos h
  unfold tooLittleWork at hwork ⊢
  rw [ComputeMinWork_eq hpos, Option.any_some, decide_eq_false_iff_not] at hwork ⊢
  omega

end Target

/-! ## `ProcessBlock` -/

section Process

variable {H : Type}

/-- The main network. -/
def BlockRules.mainNet (R : BlockRules H)
    (GetLastCheckpoint : List (H × CBlockIndex) → Option CBlockIndex) : ProcessRules H where
  toBlockRules := R
  GetLastCheckpoint := GetLastCheckpoint
  tooLittleWork := tooLittleWork false

variable [Zero H] [DecidableEq H] {R : BlockRules H}
  {GetLastCheckpoint : List (H × CBlockIndex) → Option CBlockIndex} {s : BlockStore H}
  {block : CBlock H} {nTime : UInt32}

theorem toInt_ofUInt32 (nTime : UInt32) : (Int64.ofInt nTime.toNat).toInt = nTime.toNat := by
  have hlt := nTime.toNat_lt
  exact Int64.toInt_ofInt_of_le (by omega) (by omega)

/-- The time since a checkpoint does not wrap. -/
theorem toInt_deltaTime (nTime checkpointTime : UInt32) :
    (Int64.ofInt nTime.toNat - Int64.ofInt checkpointTime.toNat).toInt =
      nTime.toNat - checkpointTime.toNat := by
  have hlt := nTime.toNat_lt
  have hlt' := checkpointTime.toNat_lt
  rw [ExactInt64.toInt_sub, toInt_ofUInt32, toInt_ofUInt32]
  rw [toInt_ofUInt32, toInt_ofUInt32]
  constructor <;> omega

omit [Zero H] in
/-- A block that passes the tests against a checkpoint passes them later too. -/
theorem checkCheckpoint_later {pcheckpoint : CBlockIndex}
    (hcheckpoint : GetLastCheckpoint s.mapBlockIndex = some pcheckpoint)
    (hpos : 0 < SetCompact pcheckpoint.nBits) (hle : block.nTime ≤ nTime)
    (hok : BlockStore.CheckCheckpoint (R.mainNet GetLastCheckpoint) s block = .ok ()) :
    BlockStore.CheckCheckpoint (R.mainNet GetLastCheckpoint) s { block with nTime := nTime } =
      .ok () := by
  unfold BlockStore.CheckCheckpoint at hok ⊢
  have hlast : (R.mainNet GetLastCheckpoint).GetLastCheckpoint s.mapBlockIndex = some pcheckpoint :=
    hcheckpoint
  rw [hlast] at hok ⊢
  dsimp only at hok ⊢
  split at hok
  · next hbest => rw [if_pos hbest]
  · next hbest =>
    obtain ⟨_, htime, hwork⟩ := exists_of_bind_eq_ok hok
    rw [ensure_eq_ok, Bool.not_eq_true', decide_eq_false_iff_not] at htime
    rw [ensure_eq_ok, Bool.not_eq_true'] at hwork
    have hmono : block.GetBlockTime - Int64.ofInt pcheckpoint.nTime.toNat ≤
        Int64.ofInt nTime.toNat - Int64.ofInt pcheckpoint.nTime.toNat := by
      have hnat : block.nTime.toNat ≤ nTime.toNat := hle
      rw [Int64.le_iff_toInt_le]
      unfold CBlockHeader.GetBlockTime
      rw [toInt_deltaTime, toInt_deltaTime]
      omega
    have hlater : ¬Int64.ofInt nTime.toNat - Int64.ofInt pcheckpoint.nTime.toNat < 0 :=
      Int64.not_lt.2 (Int64.le_trans (Int64.not_lt.1 htime) hmono)
    have hwork' := tooLittleWork_mono hpos hmono hwork
    rw [if_neg hbest]
    unfold BlockRules.mainNet CBlockHeader.GetBlockTime
    dsimp only
    rw [hwork', decide_eq_false hlater]
    rfl

theorem eq_error_of_ensure_bind {ε α : Type} {ok : Bool} {e e' : ε} {f : Unit → Except ε α}
    (h : (ensure ok e >>= f) = .error e') (hne : e ≠ e') : f () = .error e' := by
  cases ok with
  | true => exact h
  | false => exact absurd (Except.error.inj h) hne

/-- Too little work is only reported by the tests against a checkpoint. -/
theorem checkCheckpoint_of_tooLittleWork {R : ProcessRules H} {s' : BlockStore H}
    {nAdjustedTime : Int64} {pfrom : Option Nat}
    (h : s.ProcessBlock R nAdjustedTime pfrom block = some (.error .tooLittleWork, s')) :
    BlockStore.CheckCheckpoint R s block = .error .tooLittleWork := by
  have hnew : BlockStore.CheckNew R s nAdjustedTime block = .error .tooLittleWork := by
    unfold BlockStore.ProcessBlock at h
    cases hcheck : BlockStore.CheckNew R s nAdjustedTime block with
    | error e =>
      rw [hcheck] at h
      cases h
      rfl
    | ok u =>
      rw [hcheck] at h
      dsimp only at h
      split at h
      · cases pfrom with
        | none => cases h
        | some pfrom =>
          obtain ⟨hashEnd, -, h⟩ := Option.bind_eq_some_iff.1 h
          cases h
      · cases h
  unfold BlockStore.CheckNew at hnew
  replace hnew := eq_error_of_ensure_bind hnew (by simp)
  replace hnew := eq_error_of_ensure_bind hnew (by simp)
  cases hcheck : CheckBlock R.toBlockRules nAdjustedTime true true block with
  | error e =>
    rw [hcheck] at hnew
    cases hnew
  | ok built =>
    rw [hcheck] at hnew
    exact hnew

/-- The target that is allowed after a checkpoint: four times that of the checkpoint for every eight
weeks begun, and at most the limit; a block is not refused because of the time that has passed. -/
theorem target_after_checkpoint {nBase : UInt32} (hpos : 0 < denoted nBase) :
    (∀ nTime, ComputeMinWork false nBase nTime =
      some (GetCompact (min (2 ^ 224 - 1) (denoted nBase * 4 ^ periods nTime)))) ∧
    (∀ nTime nBits, ComputeMinWork false nBase nTime = some nBits →
      min (denoted nBase) (SetCompact (GetCompact (2 ^ 224 - 1))) ≤ SetCompact nBits) ∧
    (∀ nTime nTime' nBits nBits', nTime ≤ nTime' →
      ComputeMinWork false nBase nTime = some nBits →
      ComputeMinWork false nBase nTime' = some nBits' → SetCompact nBits ≤ SetCompact nBits') ∧
    ∀ {H : Type} [Zero H] [DecidableEq H] (R : BlockRules H)
      (GetLastCheckpoint : List (H × CBlockIndex) → Option CBlockIndex) (s : BlockStore H)
      (pcheckpoint : CBlockIndex) (block : CBlock H) (nTime : UInt32),
      GetLastCheckpoint s.mapBlockIndex = some pcheckpoint → pcheckpoint.nBits = nBase →
      block.nTime ≤ nTime →
      BlockStore.CheckCheckpoint (R.mainNet GetLastCheckpoint) s block = .ok () →
      ∀ nAdjustedTime pfrom s',
        s.ProcessBlock (R.mainNet GetLastCheckpoint) nAdjustedTime pfrom
          { block with nTime := nTime } ≠ some (.error .tooLittleWork, s') := by
  rw [← SetCompact_eq_denoted] at hpos ⊢
  rw [← bnProofOfWorkLimit_eq]
  refine ⟨ComputeMinWork_eq hpos, ?_, ?_, ?_⟩
  · intro nTime nBits h
    rw [ComputeMinWork_eq hpos, Option.some.injEq] at h
    exact h ▸ target_ge hpos nTime
  · intro nTime nTime' nBits nBits' hle h h'
    rw [ComputeMinWork_eq hpos, Option.some.injEq] at h h'
    exact h ▸ h' ▸ target_mono hpos hle
  · intro H _ _ R GetLastCheckpoint s pcheckpoint block nTime hcheckpoint hbits hle hok
      nAdjustedTime pfrom s' hrefused
    have hlater := checkCheckpoint_later hcheckpoint (hbits ▸ hpos) hle hok
    have herror := checkCheckpoint_of_tooLittleWork hrefused
    rw [hlater] at herror
    cases herror

theorem target_after_checkpoint_day :
    ComputeMinWork false 0x1d00ffff 86400 =
      some (GetCompact (min (2 ^ 224 - 1) (denoted 0x1d00ffff * 4 ^ periods 86400))) :=
  (target_after_checkpoint (by decide)).1 86400

end Process

end TriTip
