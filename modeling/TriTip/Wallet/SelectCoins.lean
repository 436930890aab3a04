import TriTip.Block.CheckTransaction
import TriTip.Wallet.ApproximateBestSubset

/-!
# The selection of coins

`SelectCoinsMinConf` and `SelectCoins` of `wallet.cpp`: coins that together are worth a target, and
either no change or at least a cent of it. A run is given how the coins are shuffled, how those of
one value are sorted, and the random bits. The sums wrap as machine integers do: that a cent more
than the target fits is assumed (`SelectCoins_spec`), and needed (`SelectCoinsMinConf_wraps`).
-/

namespace TriTip

open ExactInt64

/-- What is read of a wallet transaction. -/
structure CWalletTx (H : Type) where
  GetHash : H
  vout : List CTxOut
  IsFromMe : Bool

/-- An output, by the pointer to its transaction. -/
structure COutput (P : Type) where
  tx : P
  i : UInt32
  nDepth : Int
  deriving DecidableEq

/-- `pair<const CWalletTx*, unsigned int>` -/
abbrev COutput.coin {P : Type} (output : COutput P) : P × UInt32 := (output.tx, output.i)

/-- The random choices of a run of `SelectCoinsMinConf`. -/
structure CoinChoices (P : Type) where
  /-- `random_shuffle` -/
  shuffle : (vCoins : List (COutput P)) → { l : List (COutput P) // l.Perm vCoins }
  /-- `sort`, which may put coins of one value in any order -/
  sort : (vValue : List (Int64 × P × UInt32)) →
    { l : List (Int64 × P × UInt32) // l.Perm vValue ∧ l.Pairwise fun a b => b.1 ≤ a.1 }
  /-- the bits of the first search and of the second -/
  insecure_rand : Bool → Nat → Nat → Bool

/-- The coins that were seen: the least one of at least a cent over the target, and the others. -/
structure CoinScan (P : Type) where
  coinLowestLarger : Int64 × Option (P × UInt32)
  vValue : List (Int64 × P × UInt32)
  nTotalLower : Int64

/-- What is returned, `setCoinsRet` and `nValueRet`. -/
structure CoinSelection (P : Type) where
  fSelected : Bool
  setCoinsRet : Finset (P × UInt32)
  nValueRet : Int64

section

variable {H P : Type} [DecidableEq P] (mem : P → CWalletTx H) (CENT : Int64)

/-- `pcoin->vout[i].nValue` -/
def coinValue (coin : P × UInt32) : Int64 :=
  ((mem coin.1).vout.map CTxOut.nValue).getD coin.2.toNat 0

/-- Whether an output is deep enough. -/
def isEligible (nConfMine nConfTheirs : Int) (output : COutput P) : Bool :=
  !(output.nDepth < if (mem output.tx).IsFromMe then nConfMine else nConfTheirs)

/-- The loop over the shuffled coins; a coin of the target's value ends it. -/
def scanCoins (nTargetValue : Int64) (nConfMine nConfTheirs : Int) :
    CoinScan P → List (COutput P) → Except (Int64 × P × UInt32) (CoinScan P)
  | s, [] => .ok s
  | s, output :: vCoins =>
    let n := coinValue mem output.coin
    if !isEligible mem nConfMine nConfTheirs output then
      scanCoins nTargetValue nConfMine nConfTheirs s vCoins
    else if n = nTargetValue then .error (n, output.coin)
    else if n < nTargetValue + CENT then
      scanCoins nTargetValue nConfMine nConfTheirs
        { s with
          vValue := s.vValue ++ [(n, output.coin)]
          nTotalLower := s.nTotalLower + n } vCoins
    else if n < s.coinLowestLarger.1 then
      scanCoins nTargetValue nConfMine nConfTheirs
        { s with coinLowestLarger := (n, some output.coin) } vCoins
    else scanCoins nTargetValue nConfMine nConfTheirs s vCoins

/-- Coins are inserted and their values added. -/
def insertCoins (coins : List (Int64 × P × UInt32)) : CoinSelection P :=
  coins.foldl
    (fun s coin => { s with
      setCoinsRet := insert coin.2 s.setCoinsRet
      nValueRet := s.nValueRet + coin.1 })
    ⟨true, ∅, 0⟩

/-- The coins that have the flag in `vfBest`. -/
def flagged (vValue : List (Int64 × P × UInt32)) (vfBest : Finset (Fin vValue.length)) :
    List (Int64 × P × UInt32) :=
  ((List.finRange vValue.length).filter fun i => i ∈ vfBest).map vValue.get

/-- The search for the target, and another one for a cent more if that is not met exactly and there
is enough. -/
def searchTwice (choices : CoinChoices P) (nTargetValue nTotalLower : Int64)
    (vValue : List (Int64 × P × UInt32)) : Finset (Fin vValue.length) × Int64 :=
  let search (nTargetValue : Int64) (again : Bool) :=
    ApproximateBestSubset (fun i => (vValue.get i).1) nTargetValue (choices.insecure_rand again)
      nTotalLower 1000
  let best := search nTargetValue false
  if best.2 ≠ nTargetValue ∧ nTargetValue + CENT ≤ nTotalLower then
    search (nTargetValue + CENT) true
  else best

/-- What is selected of the coins that were scanned. -/
def selectScanned (choices : CoinChoices P) (nTargetValue : Int64) (s : CoinScan P) :
    CoinSelection P :=
  let (lowestLarger, larger) := s.coinLowestLarger
  if s.nTotalLower = nTargetValue then insertCoins s.vValue
  else if s.nTotalLower < nTargetValue then
    match larger with
    | none => ⟨false, ∅, 0⟩
    | some coin => insertCoins [(lowestLarger, coin)]
  else
    let vValue := (choices.sort s.vValue).1
    let (vfBest, nBest) := searchTwice CENT choices nTargetValue s.nTotalLower vValue
    match larger with
    | some coin =>
      if nBest ≠ nTargetValue ∧ nBest < nTargetValue + CENT ∨ lowestLarger ≤ nBest then
        insertCoins [(lowestLarger, coin)]
      else insertCoins (flagged vValue vfBest)
    | none => insertCoins (flagged vValue vfBest)

def SelectCoinsMinConf (choices : CoinChoices P) (nTargetValue : Int64)
    (nConfMine nConfTheirs : Int) (vCoins : List (COutput P)) : CoinSelection P :=
  match scanCoins mem CENT nTargetValue nConfMine nConfTheirs ⟨(Int64.maxValue, none), [], 0⟩
      (choices.shuffle vCoins) with
  | .error coin => insertCoins [coin]
  | .ok s => selectScanned CENT choices nTargetValue s

/-- With the coins of `AvailableCoins`, and the choices of each of the three tries. -/
def SelectCoins (choices : Fin 3 → CoinChoices P) (nTargetValue : Int64)
    (vCoins : List (COutput P)) : CoinSelection P :=
  let s₁ := SelectCoinsMinConf mem CENT (choices 0) nTargetValue 1 6 vCoins
  let s₂ := SelectCoinsMinConf mem CENT (choices 1) nTargetValue 1 1 vCoins
  let s₃ := SelectCoinsMinConf mem CENT (choices 2) nTargetValue 0 1 vCoins
  if s₁.fSelected then s₁ else if s₂.fSelected then s₂ else s₃

end

section

variable {H P : Type} {mem : P → CWalletTx H} {CENT : Int64}

/-! ## Coins of a set -/

/-- Coins of a set, each once and with its value. -/
structure AreCoins (mem : P → CWalletTx H) (coins : Finset (P × UInt32))
    (l : List (Int64 × P × UInt32)) : Prop where
  value : ∀ coin ∈ l, coin.1 = coinValue mem coin.2
  nodup : (l.map Prod.snd).Nodup
  subset : ∀ coin ∈ l, coin.2 ∈ coins

/-- Values that are not negative, of a total that is less than the greatest machine integer. -/
structure Spendable (mem : P → CWalletTx H) (coins : Finset (P × UInt32)) : Prop where
  nonneg : ∀ coin ∈ coins, 0 ≤ (coinValue mem coin).toInt
  total : ∑ coin ∈ coins, (coinValue mem coin).toInt < 2 ^ 63 - 1

theorem Spendable.mono {coins coins' : Finset (P × UInt32)} (h : Spendable mem coins)
    (hsub : coins' ⊆ coins) : Spendable mem coins' where
  nonneg coin hcoin := h.nonneg coin (hsub hcoin)
  total := (Finset.sum_le_sum_of_subset_of_nonneg hsub fun coin hcoin _ =>
    h.nonneg coin hcoin).trans_lt h.total

theorem Spendable.fits {coins : Finset (P × UInt32)} (h : Spendable mem coins) :
    Fits (∑ coin ∈ coins, (coinValue mem coin).toInt) :=
  ⟨(by decide : -2 ^ 63 ≤ (0 : Int)).trans (Finset.sum_nonneg h.nonneg), by have := h.total; omega⟩

theorem Spendable.value_le {coins : Finset (P × UInt32)} (h : Spendable mem coins)
    {coin : P × UInt32} (hcoin : coin ∈ coins) :
    (coinValue mem coin).toInt ≤ ∑ coin ∈ coins, (coinValue mem coin).toInt :=
  Finset.single_le_sum (f := fun coin => (coinValue mem coin).toInt) h.nonneg hcoin

theorem Spendable.value_lt {coins : Finset (P × UInt32)} (h : Spendable mem coins)
    {coin : P × UInt32} (hcoin : coin ∈ coins) : coinValue mem coin < Int64.maxValue :=
  Int64.lt_iff_toInt_lt.2 ((h.value_le hcoin).trans_lt h.total)

theorem AreCoins.perm {coins : Finset (P × UInt32)} {l l' : List (Int64 × P × UInt32)}
    (h : AreCoins mem coins l) (hperm : l'.Perm l) : AreCoins mem coins l' where
  value coin hcoin := h.value coin (hperm.mem_iff.1 hcoin)
  nodup := (hperm.map Prod.snd).nodup_iff.2 h.nodup
  subset coin hcoin := h.subset coin (hperm.mem_iff.1 hcoin)

theorem AreCoins.sublist {coins : Finset (P × UInt32)} {l l' : List (Int64 × P × UInt32)}
    (h : AreCoins mem coins l) (hsub : l'.Sublist l) : AreCoins mem coins l' where
  value coin hcoin := h.value coin (hsub.subset hcoin)
  nodup := h.nodup.sublist (hsub.map Prod.snd)
  subset coin hcoin := h.subset coin (hsub.subset hcoin)

theorem areCoins_singleton {coins : Finset (P × UInt32)} {coin : P × UInt32}
    (hcoin : coin ∈ coins) : AreCoins mem coins [(coinValue mem coin, coin)] where
  value _ h := by rw [List.mem_singleton.1 h]
  nodup := List.nodup_singleton _
  subset _ h := by rwa [List.mem_singleton.1 h]

variable [DecidableEq P]

/-- The values of a list add up to those of its coins. -/
theorem AreCoins.sum_eq {coins : Finset (P × UInt32)} {l : List (Int64 × P × UInt32)}
    (h : AreCoins mem coins l) :
    (l.map fun coin => coin.1.toInt).sum =
      ∑ coin ∈ (l.map Prod.snd).toFinset, (coinValue mem coin).toInt := by
  rw [List.sum_toFinset _ h.nodup, List.map_map]
  exact congrArg List.sum (List.map_congr_left fun coin hcoin => by rw [h.value coin hcoin]; rfl)

theorem AreCoins.toFinset_subset {coins : Finset (P × UInt32)} {l : List (Int64 × P × UInt32)}
    (h : AreCoins mem coins l) : (l.map Prod.snd).toFinset ⊆ coins := by
  intro coin hcoin
  rw [List.mem_toFinset, List.mem_map] at hcoin
  obtain ⟨coin, hcoin, rfl⟩ := hcoin
  exact h.subset coin hcoin

theorem AreCoins.fits_sum {coins : Finset (P × UInt32)} (hspend : Spendable mem coins)
    {l : List (Int64 × P × UInt32)} (h : AreCoins mem coins l) :
    Fits (l.map fun coin => coin.1.toInt).sum := by
  rw [h.sum_eq]
  exact (hspend.mono h.toFinset_subset).fits

/-- What is inserted is what is reported, with the exact sum. -/
theorem insertCoins_eq {coins : Finset (P × UInt32)} (hspend : Spendable mem coins)
    {l : List (Int64 × P × UInt32)} (h : AreCoins mem coins l) :
    (insertCoins l).fSelected = true ∧
      (insertCoins l).setCoinsRet = (l.map Prod.snd).toFinset ∧
      (insertCoins l).nValueRet.toInt = (l.map fun coin => coin.1.toInt).sum := by
  induction l using List.reverseRecOn with
  | nil => exact ⟨rfl, rfl, rfl⟩
  | append_singleton l coin ih =>
    obtain ⟨hsel, hset, hval⟩ := ih (h.sublist (List.sublist_append_left l [coin]))
    have hstep : insertCoins (l ++ [coin]) = { insertCoins l with
        setCoinsRet := insert coin.2 (insertCoins l).setCoinsRet
        nValueRet := (insertCoins l).nValueRet + coin.1 } := List.foldl_concat ..
    have hsum : ((l ++ [coin]).map fun coin => coin.1.toInt).sum =
        (insertCoins l).nValueRet.toInt + coin.1.toInt := by
      rw [List.map_append, List.sum_append, hval]
      simp
    rw [hstep]
    refine ⟨hsel, ?_, ?_⟩
    · rw [hset, List.map_append, List.toFinset_append, Finset.union_comm]
      rfl
    · rw [hsum]
      exact toInt_add (hsum ▸ h.fits_sum hspend)

/-! ## The scan -/

/-- The eligible outputs of a list. -/
def eligibleOutputs (mem : P → CWalletTx H) (nConfMine nConfTheirs : Int)
    (vCoins : List (COutput P)) : List (P × UInt32) :=
  (vCoins.filter fun output => isEligible mem nConfMine nConfTheirs output).map COutput.coin

/-- The state of the scan after the eligible coins `seen`. -/
structure CoinScan.Seen (mem : P → CWalletTx H) (CENT nTargetValue : Int64)
    (seen : List (P × UInt32)) (s : CoinScan P) : Prop where
  vValue : s.vValue = (seen.filter fun coin => coinValue mem coin < nTargetValue + CENT).map
    fun coin => (coinValue mem coin, coin)
  nTotalLower : s.nTotalLower.toInt = (s.vValue.map fun coin => coin.1.toInt).sum
  noLarger : s.coinLowestLarger.2 = none → s.coinLowestLarger.1 = Int64.maxValue ∧
    ∀ coin ∈ seen, coinValue mem coin < nTargetValue + CENT
  larger : ∀ coin, s.coinLowestLarger.2 = some coin → coin ∈ seen ∧
    s.coinLowestLarger.1 = coinValue mem coin ∧ nTargetValue + CENT ≤ coinValue mem coin

omit [DecidableEq P] in
theorem areCoins_filter {coins : Finset (P × UInt32)} {seen : List (P × UInt32)} (hnd : seen.Nodup)
    (hsub : ∀ coin ∈ seen, coin ∈ coins) (p : P × UInt32 → Bool) :
    AreCoins mem coins ((seen.filter p).map fun coin => (coinValue mem coin, coin)) where
  value coin hcoin := by
    obtain ⟨coin, -, rfl⟩ := List.mem_map.1 hcoin
    rfl
  nodup := by
    rw [List.map_map, show (Prod.snd ∘ fun coin => (coinValue mem coin, coin)) = id from rfl,
      List.map_id]
    exact hnd.filter _
  subset coin hcoin := by
    obtain ⟨coin, hmem, rfl⟩ := List.mem_map.1 hcoin
    exact hsub coin (List.mem_of_mem_filter hmem)

/-- One eligible coin more, which is not of the target's value. -/
theorem CoinScan.Seen.snoc {CENT nTargetValue : Int64} {coins : Finset (P × UInt32)}
    (hspend : Spendable mem coins) {seen : List (P × UInt32)} {s : CoinScan P}
    (h : s.Seen mem CENT nTargetValue seen) {coin : P × UInt32} (hnd : (seen ++ [coin]).Nodup)
    (hsub : ∀ c ∈ seen ++ [coin], c ∈ coins) :
    CoinScan.Seen mem CENT nTargetValue (seen ++ [coin])
      (if coinValue mem coin < nTargetValue + CENT then
        { s with
          vValue := s.vValue ++ [(coinValue mem coin, coin)]
          nTotalLower := s.nTotalLower + coinValue mem coin }
      else if coinValue mem coin < s.coinLowestLarger.1 then
        { s with coinLowestLarger := (coinValue mem coin, some coin) }
      else s) := by
  have hcoin : coin ∈ seen ++ [coin] := List.mem_append_right _ (List.mem_singleton_self _)
  by_cases hlower : coinValue mem coin < nTargetValue + CENT
  · rw [if_pos hlower]
    have hvalue : s.vValue ++ [(coinValue mem coin, coin)] =
        ((seen ++ [coin]).filter fun coin => coinValue mem coin < nTargetValue + CENT).map
          fun coin => (coinValue mem coin, coin) := by
      rw [List.filter_append, List.map_append, ← h.vValue]
      simp [hlower]
    have hsum : ((s.vValue ++ [(coinValue mem coin, coin)]).map fun coin => coin.1.toInt).sum =
        s.nTotalLower.toInt + (coinValue mem coin).toInt := by
      rw [List.map_append, List.sum_append, h.nTotalLower]
      simp
    refine ⟨hvalue, ?_, fun hnone => ?_, fun c hc => ?_⟩
    · rw [hsum]
      refine toInt_add ?_
      rw [← hsum, hvalue]
      exact (areCoins_filter hnd hsub _).fits_sum hspend
    · obtain ⟨hmax, hall⟩ := h.noLarger hnone
      refine ⟨hmax, fun c hc => ?_⟩
      rcases List.mem_append.1 hc with hc | hc
      · exact hall c hc
      · rwa [List.mem_singleton.1 hc]
    · obtain ⟨hmem, hval⟩ := h.larger c hc
      exact ⟨List.mem_append_left _ hmem, hval⟩
  · rw [if_neg hlower]
    have hvalue : s.vValue =
        ((seen ++ [coin]).filter fun coin => coinValue mem coin < nTargetValue + CENT).map
          fun coin => (coinValue mem coin, coin) := by
      rw [List.filter_append, List.map_append, ← h.vValue]
      simp [hlower]
    by_cases hless : coinValue mem coin < s.coinLowestLarger.1
    · rw [if_pos hless]
      refine ⟨hvalue, h.nTotalLower, fun hnone => (nomatch hnone), fun c hc => ?_⟩
      obtain rfl : coin = c := Option.some.inj hc
      exact ⟨hcoin, rfl, Int64.not_lt.1 hlower⟩
    · rw [if_neg hless]
      refine ⟨hvalue, h.nTotalLower, fun hnone => ?_, fun c hc => ?_⟩
      · rw [(h.noLarger hnone).1] at hless
        exact absurd (hspend.value_lt (hsub coin hcoin)) hless
      · obtain ⟨hmem, hval⟩ := h.larger c hc
        exact ⟨List.mem_append_left _ hmem, hval⟩

/-- The scan ends at a coin of the target's value, or after all the coins. -/
theorem scanCoins_spec {CENT nTargetValue : Int64} {nConfMine nConfTheirs : Int}
    {coins : Finset (P × UInt32)} (hspend : Spendable mem coins) {vCoins : List (COutput P)}
    {seen : List (P × UInt32)} {s : CoinScan P} (h : s.Seen mem CENT nTargetValue seen)
    (hnd : (seen ++ eligibleOutputs mem nConfMine nConfTheirs vCoins).Nodup)
    (hsub : ∀ c ∈ seen ++ eligibleOutputs mem nConfMine nConfTheirs vCoins, c ∈ coins) :
    match scanCoins mem CENT nTargetValue nConfMine nConfTheirs s vCoins with
    | .error (n, coin) => coin ∈ coins ∧ n = coinValue mem coin ∧ n = nTargetValue
    | .ok s =>
      s.Seen mem CENT nTargetValue (seen ++ eligibleOutputs mem nConfMine nConfTheirs vCoins) := by
  induction vCoins generalizing s seen with
  | nil =>
    unfold scanCoins
    simpa [eligibleOutputs] using h
  | cons output vCoins ih =>
    by_cases helig : isEligible mem nConfMine nConfTheirs output = true
    case neg =>
      have hskip : eligibleOutputs mem nConfMine nConfTheirs (output :: vCoins) =
          eligibleOutputs mem nConfMine nConfTheirs vCoins := by
        simp [eligibleOutputs, helig]
      rw [hskip] at hnd hsub ⊢
      unfold scanCoins
      simpa [helig] using ih h hnd hsub
    have hcons : seen ++ eligibleOutputs mem nConfMine nConfTheirs (output :: vCoins) =
        (seen ++ [output.coin]) ++ eligibleOutputs mem nConfMine nConfTheirs vCoins := by
      simp [eligibleOutputs, helig]
    rw [hcons] at hnd hsub ⊢
    have hsub' : ∀ c ∈ seen ++ [output.coin], c ∈ coins :=
      fun c hc => hsub c (List.mem_append_left _ hc)
    have hstep := ih (h.snoc hspend hnd.of_append_left hsub') hnd hsub
    by_cases hexact : coinValue mem output.coin = nTargetValue
    · have hmem : output.coin ∈ coins :=
        hsub' _ (List.mem_append_right _ (List.mem_singleton_self _))
      rw [scanCoins]
      simp only [helig, Bool.not_true, Bool.false_eq_true, if_false, if_pos hexact]
      exact ⟨hmem, trivial, hexact⟩
    · have heq : scanCoins mem CENT nTargetValue nConfMine nConfTheirs s (output :: vCoins) =
          scanCoins mem CENT nTargetValue nConfMine nConfTheirs
            (if coinValue mem output.coin < nTargetValue + CENT then
              { s with
                vValue := s.vValue ++ [(coinValue mem output.coin, output.coin)]
                nTotalLower := s.nTotalLower + coinValue mem output.coin }
            else if coinValue mem output.coin < s.coinLowestLarger.1 then
              { s with coinLowestLarger := (coinValue mem output.coin, some output.coin) }
            else s) vCoins := by
        rw [scanCoins]
        simp only [helig, hexact, Bool.not_true, Bool.false_eq_true, if_false]
        split_ifs <;> rfl
      rw [heq]
      exact hstep

/-! ## The coins that are selected -/

/-- Coins of a set that are worth the target, with no change or at least a cent of it if there is
enough for that. -/
structure CoinSelection.IsSelection (mem : P → CWalletTx H) (CENT nTargetValue : Int64)
    (coins : Finset (P × UInt32)) (s : CoinSelection P) : Prop where
  subset : s.setCoinsRet ⊆ coins
  value : s.nValueRet.toInt = ∑ coin ∈ s.setCoinsRet, (coinValue mem coin).toInt
  reaches : nTargetValue.toInt ≤ s.nValueRet.toInt
  change : s.nValueRet = nTargetValue ∨ nTargetValue.toInt + CENT.toInt ≤ s.nValueRet.toInt ∨
    ∑ coin ∈ coins, (coinValue mem coin).toInt < nTargetValue.toInt + CENT.toInt

/-- Coins are selected just if all of them are worth the target. -/
structure CoinSelection.Correct (mem : P → CWalletTx H) (CENT nTargetValue : Int64)
    (coins : Finset (P × UInt32)) (s : CoinSelection P) : Prop where
  selected_iff : s.fSelected = true ↔
    nTargetValue.toInt ≤ ∑ coin ∈ coins, (coinValue mem coin).toInt
  isSelection : s.fSelected = true → s.IsSelection mem CENT nTargetValue coins
  nothing : s.fSelected = false → s.setCoinsRet = ∅ ∧ s.nValueRet = 0

theorem correct_insertCoins {CENT nTargetValue : Int64} {coins : Finset (P × UInt32)}
    (hspend : Spendable mem coins) {l : List (Int64 × P × UInt32)} (h : AreCoins mem coins l)
    (hreach : nTargetValue.toInt ≤ (l.map fun coin => coin.1.toInt).sum)
    (hchange : (l.map fun coin => coin.1.toInt).sum = nTargetValue.toInt ∨
      nTargetValue.toInt + CENT.toInt ≤ (l.map fun coin => coin.1.toInt).sum ∨
      ∑ coin ∈ coins, (coinValue mem coin).toInt < nTargetValue.toInt + CENT.toInt) :
    (insertCoins l).Correct mem CENT nTargetValue coins := by
  obtain ⟨hsel, hset, hval⟩ := insertCoins_eq hspend h
  have hle : (l.map fun coin => coin.1.toInt).sum ≤
      ∑ coin ∈ coins, (coinValue mem coin).toInt := by
    rw [h.sum_eq]
    exact Finset.sum_le_sum_of_subset_of_nonneg h.toFinset_subset fun c hc _ => hspend.nonneg c hc
  refine ⟨iff_of_true hsel (hreach.trans hle), fun _ => ⟨?_, ?_, ?_, ?_⟩, fun hfalse => ?_⟩
  · rw [hset]
    exact h.toFinset_subset
  · rw [hval, hset]
    exact h.sum_eq
  · rw [hval]
    exact hreach
  · rw [← Int64.toInt_inj, hval]
    exact hchange
  · rw [hsel] at hfalse
    cases hfalse

/-- One coin of the set. -/
theorem correct_insertCoins_singleton {CENT nTargetValue : Int64} {coins : Finset (P × UInt32)}
    (hspend : Spendable mem coins) {coin : P × UInt32} (hcoin : coin ∈ coins)
    (hreach : nTargetValue.toInt ≤ (coinValue mem coin).toInt)
    (hchange : (coinValue mem coin).toInt = nTargetValue.toInt ∨
      nTargetValue.toInt + CENT.toInt ≤ (coinValue mem coin).toInt) :
    (insertCoins [(coinValue mem coin, coin)]).Correct mem CENT nTargetValue coins := by
  refine correct_insertCoins hspend (areCoins_singleton hcoin) ?_ ?_
  · simpa using hreach
  · simpa using hchange.imp_right Or.inl

omit [DecidableEq P] in
theorem flagged_sublist (vValue : List (Int64 × P × UInt32)) (vfBest : Finset (Fin vValue.length)) :
    (flagged vValue vfBest).Sublist vValue := by
  have h := ((List.filter_sublist (p := fun i => decide (i ∈ vfBest))
    (l := List.finRange vValue.length)).map vValue.get)
  rwa [List.map_get_finRange] at h

omit [DecidableEq P] in
theorem sum_flagged (vValue : List (Int64 × P × UInt32)) (vfBest : Finset (Fin vValue.length)) :
    ((flagged vValue vfBest).map fun coin => coin.1.toInt).sum =
      ∑ i ∈ vfBest, (vValue.get i).1.toInt := by
  unfold flagged
  rw [List.map_map, ← List.sum_toFinset _ ((List.nodup_finRange _).filter _)]
  refine Finset.sum_congr ?_ fun _ _ => rfl
  ext i
  simp

/-- The best subset of coins that together reach the target. -/
theorem bestSum_flagged {nTargetValue nTotalLower : Int64} {coins : Finset (P × UInt32)}
    (hspend : Spendable mem coins) {vValue : List (Int64 × P × UInt32)}
    (h : AreCoins mem coins vValue)
    (hlower : nTotalLower.toInt = (vValue.map fun coin => coin.1.toInt).sum)
    (hle : nTargetValue ≤ nTotalLower) (insecure_rand : Nat → Nat → Bool) (iterations : Nat) :
    let best := ApproximateBestSubset (fun i => (vValue.get i).1) nTargetValue insecure_rand
      nTotalLower iterations
    best.2.toInt = ((flagged vValue best.1).map fun coin => coin.1.toInt).sum ∧
      nTargetValue ≤ best.2 := by
  have hsum : (vValue.map fun coin => coin.1.toInt).sum = ∑ i, (vValue.get i).1.toInt := by
    rw [← sum_flagged vValue Finset.univ]
    simp [flagged]
  have hpos : ∀ i, 0 ≤ (vValue.get i).1.toInt := by
    intro i
    rw [h.value _ (vValue.get_mem i)]
    exact hspend.nonneg _ (h.subset _ (vValue.get_mem i))
  have hbest := bestSum_ApproximateBestSubset hpos (hsum ▸ h.fits_sum hspend)
    insecure_rand (hlower.trans hsum) hle iterations
  simpa only [sum_flagged] using hbest

/-- What is found reaches the target, and with a cent to spare if it can. -/
theorem bestSum_searchTwice {CENT nTargetValue nTotalLower : Int64} (hcent : 0 < CENT.toInt)
    (hadd : (nTargetValue + CENT).toInt = nTargetValue.toInt + CENT.toInt)
    {coins : Finset (P × UInt32)} (hspend : Spendable mem coins)
    {vValue : List (Int64 × P × UInt32)} (h : AreCoins mem coins vValue)
    (hlower : nTotalLower.toInt = (vValue.map fun coin => coin.1.toInt).sum)
    (hle : nTargetValue ≤ nTotalLower) (choices : CoinChoices P) :
    let best := searchTwice CENT choices nTargetValue nTotalLower vValue
    best.2.toInt = ((flagged vValue best.1).map fun coin => coin.1.toInt).sum ∧
      nTargetValue.toInt ≤ best.2.toInt ∧
        (best.2 = nTargetValue ∨ nTargetValue + CENT ≤ best.2 ∨
          nTotalLower < nTargetValue + CENT) := by
  have hfirst := bestSum_flagged hspend h hlower hle (choices.insecure_rand false) 1000
  unfold searchTwice
  simp only []
  split_ifs with hagain
  · have hsecond := bestSum_flagged hspend h hlower hagain.2 (choices.insecure_rand true) 1000
    have hreach := hadd ▸ Int64.le_iff_toInt_le.1 hsecond.2
    exact ⟨hsecond.1, (Int.le_add_of_nonneg_right hcent.le).trans hreach, .inr (.inl hsecond.2)⟩
  · rw [not_and_or, not_not, Int64.not_le] at hagain
    exact ⟨hfirst.1, Int64.le_iff_toInt_le.1 hfirst.2, hagain.imp_right Or.inr⟩

/-- The coins that `SelectCoinsMinConf` may use. -/
def eligibleCoins (mem : P → CWalletTx H) (nConfMine nConfTheirs : Int)
    (vCoins : List (COutput P)) : Finset (P × UInt32) :=
  (eligibleOutputs mem nConfMine nConfTheirs vCoins).toFinset

omit [DecidableEq P] in
theorem seen_nil (mem : P → CWalletTx H) (CENT nTargetValue : Int64) :
    CoinScan.Seen mem CENT nTargetValue [] ⟨(Int64.maxValue, none), [], 0⟩ :=
  ⟨rfl, rfl, fun _ => ⟨rfl, fun _ h => nomatch h⟩, fun _ h => nomatch h⟩

omit [DecidableEq P] in
theorem CoinScan.Seen.areCoins {CENT nTargetValue : Int64} {seen : List (P × UInt32)}
    {s : CoinScan P} (h : s.Seen mem CENT nTargetValue seen) (hnd : seen.Nodup)
    {coins : Finset (P × UInt32)} (hmem : ∀ c, c ∈ seen ↔ c ∈ coins) :
    AreCoins mem coins s.vValue := by
  rw [h.vValue]
  exact areCoins_filter hnd (fun c => (hmem c).1) _

/-- If no coin is of more than a cent over the target, all of them are in `vValue`. -/
theorem CoinScan.Seen.sum_eq {CENT nTargetValue : Int64} {seen : List (P × UInt32)} {s : CoinScan P}
    (h : s.Seen mem CENT nTargetValue seen) (hnd : seen.Nodup) {coins : Finset (P × UInt32)}
    (hmem : ∀ c, c ∈ seen ↔ c ∈ coins) (hnone : s.coinLowestLarger.2 = none) :
    (s.vValue.map fun coin => coin.1.toInt).sum = ∑ coin ∈ coins, (coinValue mem coin).toInt := by
  rw [(h.areCoins hnd hmem).sum_eq]
  refine Finset.sum_congr ?_ fun _ _ => rfl
  ext c
  have hcoin : (Prod.snd ∘ fun coin => (coinValue mem coin, coin)) = id := rfl
  rw [h.vValue, List.map_map, hcoin, List.map_id, List.mem_toFinset, List.mem_filter,
    ← hmem c, decide_eq_true_iff]
  exact and_iff_left_of_imp ((h.noLarger hnone).2 c)

/-- After the scan: the coins that were seen are those of the set. -/
theorem CoinScan.Seen.correct {CENT nTargetValue : Int64} (hcent : 0 < CENT)
    (hfits : Fits (nTargetValue.toInt + CENT.toInt)) {coins : Finset (P × UInt32)}
    (hspend : Spendable mem coins) {seen : List (P × UInt32)} (hnd : seen.Nodup)
    (hmem : ∀ c, c ∈ seen ↔ c ∈ coins) {s : CoinScan P} (h : s.Seen mem CENT nTargetValue seen)
    (choices : CoinChoices P) :
    (selectScanned CENT choices nTargetValue s).Correct mem CENT nTargetValue coins := by
  have hcent' : (nTargetValue + CENT).toInt = nTargetValue.toInt + CENT.toInt := toInt_add hfits
  replace hcent : 0 < CENT.toInt := Int64.lt_iff_toInt_lt.1 hcent
  have hcoins := h.areCoins hnd hmem
  have hall := h.sum_eq hnd hmem
  have hlarger : ∀ coin, s.coinLowestLarger.2 = some coin →
      (insertCoins [(s.coinLowestLarger.1, coin)]).Correct mem CENT nTargetValue coins := by
    intro coin hcoin
    obtain ⟨hseen, hvalue, hle⟩ := h.larger coin hcoin
    rw [Int64.le_iff_toInt_le, hcent'] at hle
    rw [hvalue]
    exact correct_insertCoins_singleton hspend ((hmem coin).1 hseen) (by omega) (.inr hle)
  obtain ⟨⟨lowestLarger, larger⟩, vValue, nTotalLower⟩ := s
  unfold selectScanned
  have hlower : nTotalLower.toInt = (vValue.map fun coin => coin.1.toInt).sum := h.nTotalLower
  by_cases heq : nTotalLower = nTargetValue
  · simp only [if_pos heq]
    rw [heq] at hlower
    exact correct_insertCoins hspend hcoins hlower.le (.inl hlower.symm)
  simp only [if_neg heq]
  by_cases hlt : nTotalLower < nTargetValue
  · rw [if_pos hlt]
    cases larger with
    | none =>
      replace hlt := Int64.lt_iff_toInt_lt.1 hlt
      rw [hlower, hall rfl] at hlt
      exact ⟨iff_of_false Bool.false_ne_true (not_le.2 hlt), fun h => (nomatch h),
        fun _ => ⟨rfl, rfl⟩⟩
    | some coin => exact hlarger coin rfl
  rw [if_neg hlt]
  have hperm := (choices.sort vValue).2.1
  replace hcoins := hcoins.perm hperm
  rw [← (hperm.map fun coin => coin.1.toInt).sum_eq] at hlower hall
  generalize (choices.sort vValue).1 = vValue at hcoins hlower hall
  have hsearch :=
    bestSum_searchTwice hcent hcent' hspend hcoins hlower (Int64.not_lt.1 hlt) choices
  generalize searchTwice CENT choices nTargetValue nTotalLower vValue = best at hsearch ⊢
  obtain ⟨vfBest, nBest⟩ := best
  obtain ⟨hsum, hreach, hchange⟩ := hsearch
  have hflagged := hcoins.sublist (flagged_sublist vValue vfBest)
  have hbest : nBest = nTargetValue ∨ nTargetValue + CENT ≤ nBest ∨
      ∑ coin ∈ coins, (coinValue mem coin).toInt < nTargetValue.toInt + CENT.toInt →
      (insertCoins (flagged vValue vfBest)).Correct mem CENT nTargetValue coins := by
    intro h
    refine correct_insertCoins hspend hflagged (hsum ▸ hreach) ?_
    rw [← hsum, Int64.toInt_inj, ← hcent', ← Int64.le_iff_toInt_le, hcent']
    exact h
  cases larger with
  | none =>
    refine hbest (hchange.imp_right (Or.imp_right fun hless => ?_))
    rw [← hall rfl, ← hlower, ← hcent']
    exact Int64.lt_iff_toInt_lt.1 hless
  | some coin =>
    simp only []
    split_ifs with hbigger
    · exact hlarger coin rfl
    · rw [not_or, not_and_or, not_not, Int64.not_lt] at hbigger
      exact hbest (hbigger.1.imp_right Or.inl)

/-- Every way out of the function. -/
theorem correct_SelectCoinsMinConf {CENT nTargetValue : Int64} (hcent : 0 < CENT)
    (hfits : Fits (nTargetValue.toInt + CENT.toInt)) {nConfMine nConfTheirs : Int}
    {vCoins : List (COutput P)} (hdistinct : (vCoins.map COutput.coin).Nodup)
    (hspend : Spendable mem (eligibleCoins mem nConfMine nConfTheirs vCoins))
    (choices : CoinChoices P) :
    (SelectCoinsMinConf mem CENT choices nTargetValue nConfMine nConfTheirs vCoins).Correct mem
      CENT nTargetValue (eligibleCoins mem nConfMine nConfTheirs vCoins) := by
  generalize hcoins : eligibleCoins mem nConfMine nConfTheirs vCoins = coins at hspend ⊢
  have hperm : (eligibleOutputs mem nConfMine nConfTheirs (choices.shuffle vCoins)).Perm
      (eligibleOutputs mem nConfMine nConfTheirs vCoins) :=
    ((choices.shuffle vCoins).2.filter _).map _
  have hnd : (eligibleOutputs mem nConfMine nConfTheirs (choices.shuffle vCoins)).Nodup :=
    hperm.nodup_iff.2 (hdistinct.sublist (List.filter_sublist.map _))
  have hmem : ∀ c, c ∈ eligibleOutputs mem nConfMine nConfTheirs (choices.shuffle vCoins) ↔
      c ∈ coins := by
    intro c
    rw [hperm.mem_iff, ← hcoins]
    exact List.mem_toFinset.symm
  have hscan := scanCoins_spec hspend (seen_nil mem CENT nTargetValue) hnd fun c => (hmem c).1
  unfold SelectCoinsMinConf
  cases hres : scanCoins mem CENT nTargetValue nConfMine nConfTheirs
      ⟨(Int64.maxValue, none), [], 0⟩ (choices.shuffle vCoins) with
  | error coin =>
    rw [hres] at hscan
    obtain ⟨hcoin, hvalue, htarget⟩ := hscan
    obtain ⟨n, coin⟩ := coin
    obtain rfl : n = coinValue mem coin := hvalue
    rw [← htarget]
    exact correct_insertCoins_singleton hspend hcoin le_rfl (.inl rfl)
  | ok s =>
    rw [hres] at hscan
    exact hscan.correct hcent hfits hspend hnd hmem choices

/-! ## `SelectCoins` -/

theorem eligibleCoins_subset (nConfMine nConfTheirs : Int) (vCoins : List (COutput P)) :
    eligibleCoins mem nConfMine nConfTheirs vCoins ⊆ (vCoins.map COutput.coin).toFinset := by
  intro c hc
  unfold eligibleCoins eligibleOutputs at hc
  rw [List.mem_toFinset] at hc ⊢
  exact (List.filter_sublist.map _).subset hc

theorem nonneg_of_mem_outputs {vCoins : List (COutput P)}
    (hpos : ∀ output ∈ vCoins, 0 < coinValue mem output.coin) :
    ∀ coin ∈ (vCoins.map COutput.coin).toFinset, 0 ≤ (coinValue mem coin).toInt := by
  intro c hc
  rw [List.mem_toFinset, List.mem_map] at hc
  obtain ⟨output, houtput, rfl⟩ := hc
  exact (Int64.lt_iff_toInt_lt.1 (hpos output houtput)).le

/-- Eligible coins are worth at most as much as all. -/
theorem sum_eligibleCoins_le {vCoins : List (COutput P)}
    (hdistinct : (vCoins.map COutput.coin).Nodup)
    (hpos : ∀ output ∈ vCoins, 0 < coinValue mem output.coin) (nConfMine nConfTheirs : Int) :
    ∑ coin ∈ eligibleCoins mem nConfMine nConfTheirs vCoins, (coinValue mem coin).toInt ≤
      (vCoins.map fun output => (coinValue mem output.coin).toInt).sum := by
  have hall : ∑ coin ∈ (vCoins.map COutput.coin).toFinset, (coinValue mem coin).toInt =
      (vCoins.map fun output => (coinValue mem output.coin).toInt).sum := by
    rw [List.sum_toFinset _ hdistinct, List.map_map]
    rfl
  rw [← hall]
  exact Finset.sum_le_sum_of_subset_of_nonneg (eligibleCoins_subset nConfMine nConfTheirs vCoins)
    fun coin hcoin _ => nonneg_of_mem_outputs hpos coin hcoin

/-- The coins of a wallet whose outputs are positive and add up without a wrap. -/
theorem spendable_eligibleCoins {vCoins : List (COutput P)}
    (hdistinct : (vCoins.map COutput.coin).Nodup)
    (hpos : ∀ output ∈ vCoins, 0 < coinValue mem output.coin)
    (htotal : (vCoins.map fun output => (coinValue mem output.coin).toInt).sum < 2 ^ 63 - 1)
    (nConfMine nConfTheirs : Int) :
    Spendable mem (eligibleCoins mem nConfMine nConfTheirs vCoins) where
  nonneg coin hcoin := nonneg_of_mem_outputs hpos coin
    (eligibleCoins_subset nConfMine nConfTheirs vCoins hcoin)
  total := (sum_eligibleCoins_le hdistinct hpos nConfMine nConfTheirs).trans_lt htotal

/-- What is selected are coins that are eligible at the lowest depths, with their values. -/
theorem SelectCoins_selects {CENT nTargetValue : Int64} (hcent : 0 < CENT)
    (hfits : Fits (nTargetValue.toInt + CENT.toInt)) {vCoins : List (COutput P)}
    (hdistinct : (vCoins.map COutput.coin).Nodup)
    (hspend : ∀ nConfMine nConfTheirs,
      Spendable mem (eligibleCoins mem nConfMine nConfTheirs vCoins))
    (choices : Fin 3 → CoinChoices P)
    (hsel : (SelectCoins mem CENT choices nTargetValue vCoins).fSelected = true) :
    ∃ nConfMine nConfTheirs, 0 ≤ nConfMine ∧ 1 ≤ nConfTheirs ∧
      (SelectCoins mem CENT choices nTargetValue vCoins).IsSelection mem CENT nTargetValue
        (eligibleCoins mem nConfMine nConfTheirs vCoins) := by
  have hcorrect := fun i nConfMine nConfTheirs => correct_SelectCoinsMinConf hcent hfits hdistinct
    (hspend nConfMine nConfTheirs) (choices i)
  unfold SelectCoins at hsel ⊢
  simp only [] at hsel ⊢
  split_ifs at hsel ⊢ with h₁ h₂
  · exact ⟨1, 6, by decide, by decide, (hcorrect 0 1 6).isSelection h₁⟩
  · exact ⟨1, 1, by decide, by decide, (hcorrect 1 1 1).isSelection h₂⟩
  · exact ⟨0, 1, by decide, by decide, (hcorrect 2 0 1).isSelection hsel⟩

end

theorem pairwise_mergeSort_values {β : Type} (vValue : List (Int64 × β)) :
    (vValue.mergeSort fun a b => b.1 ≤ a.1).Pairwise fun a b => b.1 ≤ a.1 := by
  refine (List.pairwise_mergeSort (fun a b c hab hbc => ?_) (fun a b => ?_) vValue).imp
    of_decide_eq_true
  · exact decide_eq_true (Int64.le_trans (of_decide_eq_true hbc) (of_decide_eq_true hab))
  · rw [Bool.or_eq_true, decide_eq_true_iff, decide_eq_true_iff]
    exact (Int64.le_total _ _).symm

/-- Nothing is shuffled and no bit is set. -/
def plainChoices (P : Type) : CoinChoices P where
  shuffle vCoins := ⟨vCoins, List.Perm.refl _⟩
  sort vValue := ⟨vValue.mergeSort fun a b => b.1 ≤ a.1, List.mergeSort_perm ..,
    pairwise_mergeSort_values vValue⟩
  insecure_rand _ _ _ := false

/-- A transaction with outputs of these values. -/
def walletTx (values : List Int64) : CWalletTx Nat := ⟨0, values.map fun n => ⟨n, []⟩, false⟩

end TriTip
