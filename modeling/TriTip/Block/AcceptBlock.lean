import TriTip.Base58.EncodeBase58
import TriTip.Block.CheckTransaction
import TriTip.Block.ProcessBlock

/-!
# Accepting blocks

`CBlock::AcceptBlock` with `IsFinalTx`, `CBlockIndex::IsSuperMajority`
(`bitcoin_messages_handlers.cpp`) and `Checkpoints::CheckBlock` (`checkpoints.cpp`). `std::equal`
knows the length of the height only. A coinbase that is too short is refused if one of its bytes
differs; one that is a beginning of the height is read beyond its end (`heightComparison_iff`).
-/

namespace TriTip

/-- A block of the index, with what is read of it here. -/
structure CChainIndex extends CBlockIndex where
  nVersion : Int32
  deriving DecidableEq

/-- What `AcceptBlock` uses besides. An index entry is the list of its block and the blocks
before it. -/
structure AcceptRules (H : Type) extends BlockRules H where
  hashGenesisBlock : H
  fTestNet : Bool
  nBestHeight : Int32
  LOCKTIME_THRESHOLD : Int64
  GetMedianTimePast : List CChainIndex → Int64
  fCheckpointsEnabled : Bool
  mapCheckpoints : List (Int32 × H)
  /-- `CScript() << n` -/
  push : Int32 → CScript

/-- The tests of `AcceptBlock`, by what they say. -/
inductive AcceptError where
  | alreadyHave
  | prevNotFound
  | timestampTooEarly
  | nonFinalTransaction
  | checkpointLockIn
  | nVersion1
  | heightMismatch
  deriving DecidableEq

/-- The first argument of `state.DoS`; some blocks are merely invalid. -/
def AcceptError.nDoS : AcceptError → Int32
  | .prevNotFound => 10
  | .nonFinalTransaction => 10
  | .checkpointLockIn => 100
  | .heightMismatch => 100
  | _ => 0

def CTxIn.IsFinal {H : Type} (txin : CTxIn H) : Bool := txin.nSequence = 0xffffffff

section

variable {H : Type} (R : AcceptRules H)

def IsFinalTx (nAdjustedTime : Int64) (tx : CTransaction H) (nBlockHeight : Int32)
    (nBlockTime : Int64) : Bool :=
  let nLockTime := Int64.ofInt tx.nLockTime.toNat
  let nBlockHeight := if nBlockHeight = 0 then R.nBestHeight else nBlockHeight
  let nBlockTime := if nBlockTime = 0 then nAdjustedTime else nBlockTime
  tx.nLockTime = 0 ||
    nLockTime < (if nLockTime < R.LOCKTIME_THRESHOLD then nBlockHeight.toInt64 else nBlockTime) ||
    tx.vin.all CTxIn.IsFinal

def Checkpoints.CheckBlock [DecidableEq H] (nHeight : Int32) (hash : H) : Bool :=
  !R.fCheckpointsEnabled ||
    (R.mapCheckpoints.lookup nHeight).all fun checkpoint => hash = checkpoint

end

/-- Over `nToCheck` blocks from `pstart` back, or fewer if enough are found. -/
def CBlockIndex.IsSuperMajority (minVersion : Int32) (pstart : List CChainIndex)
    (nRequired : Nat) (nToCheck : Nat) : Bool :=
  go pstart 0 nToCheck
where
  go : List CChainIndex → Nat → Nat → Bool
    | pstart :: pprev, nFound, i + 1 =>
      if nFound < nRequired then
        let nFound := if pstart.nVersion ≥ minVersion then nFound + 1 else nFound
        go pprev nFound i
      else nRequired ≤ nFound
    | _, nFound, _ => nRequired ≤ nFound

/-- `std::equal` of all of the first range with the beginning of the second one; `none` is a read
beyond the end of the second one. -/
def stdEqual : List UInt8 → List UInt8 → Option Bool
  | [], _ => some true
  | _ :: _, [] => none
  | c :: expect, d :: scriptSig => if c = d then stdEqual expect scriptSig else some false

namespace CBlock

variable {H : Type} [Zero H] [DecidableEq H] (R : AcceptRules H)

/-- The tests before the one of the coinbase, and the height that the coinbase is compared with, if
it is. -/
def heightToCheck (mapBlockIndex : List (H × CChainIndex × List CChainIndex))
    (nAdjustedTime : Int64) (block : CBlock H) : Except AcceptError (Option Int32) := do
  -- Check for duplicate
  let hash := block.GetHash R.toBlockRules
  ensure (!BlockStore.count mapBlockIndex hash) .alreadyHave
  if hash = R.hashGenesisBlock then return none
  -- Get prev block index
  match mapBlockIndex.lookup block.hashPrevBlock with
  | none => throw .prevNotFound
  | some (pindexPrev, pprev) =>
    let chain := pindexPrev :: pprev
    let nHeight := pindexPrev.nHeight + 1
    -- Check timestamp against prev
    ensure (!block.GetBlockTime ≤ R.GetMedianTimePast chain) .timestampTooEarly
    -- Check that all transactions are finalized
    ensure (block.vtx.all fun tx => IsFinalTx R nAdjustedTime tx nHeight block.GetBlockTime)
      .nonFinalTransaction
    -- Check that the block chain matches the known block chain up to a checkpoint
    ensure (Checkpoints.CheckBlock R nHeight hash) .checkpointLockIn
    -- Reject block.nVersion=1 blocks when 95% (75% on testnet) of the network has upgraded
    ensure (!(block.nVersion < 2 &&
      (!R.fTestNet && CBlockIndex.IsSuperMajority 2 chain 950 1000 ||
        R.fTestNet && CBlockIndex.IsSuperMajority 2 chain 75 100))) .nVersion1
    -- Enforce block.nVersion=2 rule that the coinbase starts with serialized block height
    return if 2 ≤ block.nVersion &&
      (!R.fTestNet && CBlockIndex.IsSuperMajority 2 chain 750 1000 ||
        R.fTestNet && CBlockIndex.IsSuperMajority 2 chain 51 100) then some nHeight else none

/-- `vtx[0].vin[0].scriptSig` -/
def coinbaseScript (block : CBlock H) : Option CScript :=
  (block.vtx.head?.bind fun tx => tx.vin.head?).map CTxIn.scriptSig

/-- `none` is an access out of range. -/
def AcceptBlock (mapBlockIndex : List (H × CChainIndex × List CChainIndex)) (nAdjustedTime : Int64)
    (block : CBlock H) : Option (Except AcceptError Unit) :=
  match heightToCheck R mapBlockIndex nAdjustedTime block with
  | .error e => some (.error e)
  | .ok none => some (.ok ())
  | .ok (some nHeight) => do
    let scriptSig ← block.coinbaseScript
    let equal ← stdEqual (R.push nHeight) scriptSig
    return ensure equal .heightMismatch

end CBlock

/-! ## The comparison -/

theorem stdEqual_eq_none_iff {expect scriptSig : List UInt8} :
    stdEqual expect scriptSig = none ↔ scriptSig <+: expect ∧ scriptSig.length < expect.length := by
  induction expect generalizing scriptSig with
  | nil => simp [stdEqual]
  | cons c expect ih =>
    cases scriptSig with
    | nil => simp [stdEqual]
    | cons d scriptSig =>
      unfold stdEqual
      split
      · next hcd =>
        rw [ih, hcd, List.cons_prefix_cons, List.length_cons, List.length_cons,
          Nat.add_lt_add_iff_right]
        simp
      · next hcd =>
        rw [List.cons_prefix_cons]
        simp [Ne.symm hcd]

theorem stdEqual_eq_true_iff {expect scriptSig : List UInt8} :
    stdEqual expect scriptSig = some true ↔ expect <+: scriptSig := by
  induction expect generalizing scriptSig with
  | nil => simp [stdEqual]
  | cons c expect ih =>
    cases scriptSig with
    | nil => simp [stdEqual]
    | cons d scriptSig =>
      unfold stdEqual
      split
      · next hcd => rw [ih, hcd, List.prefix_cons_inj]
      · next hcd => simp [List.cons_prefix_cons, hcd]

/-! ## The coinbase of a checked block -/

section

variable {H : Type} [Zero H] [DecidableEq H]

/-- The first transaction of a checked block was checked, and is a coinbase. -/
theorem head_of_checkBlock {R : BlockRules H} {nAdjustedTime : Int64}
    {fCheckPOW fCheckMerkleRoot : Bool} {block built : CBlock H}
    (h : CheckBlock R nAdjustedTime fCheckPOW fCheckMerkleRoot block = .ok built) :
    ∃ tx rest, block.vtx = tx :: rest ∧ tx.IsCoinBase = true ∧
      CheckTransaction R.toConsensus tx = .ok () := by
  obtain ⟨_, hcontents, -⟩ := exists_of_bind_eq_ok h
  obtain ⟨_, -, hcontents⟩ := exists_of_bind_eq_ok hcontents
  obtain ⟨_, -, hcontents⟩ := exists_of_bind_eq_ok hcontents
  obtain ⟨_, -, hcontents⟩ := exists_of_bind_eq_ok hcontents
  obtain ⟨_, hcoinbase, hcontents⟩ := exists_of_bind_eq_ok hcontents
  obtain ⟨_, -, hcontents⟩ := exists_of_bind_eq_ok hcontents
  rw [ensure_eq_ok] at hcoinbase
  cases hvtx : block.vtx with
  | nil =>
    rw [hvtx] at hcoinbase
    cases hcoinbase
  | cons tx rest =>
    rw [hvtx] at hcoinbase hcontents
    refine ⟨tx, rest, rfl, hcoinbase, ?_⟩
    obtain ⟨_, hloop, -⟩ := exists_of_bind_eq_ok hcontents
    rw [List.forIn_cons] at hloop
    obtain ⟨_, hfirst, -⟩ := exists_of_bind_eq_ok hloop
    cases htx : CheckTransaction R.toConsensus tx with
    | ok u => rfl
    | error e =>
      rw [htx] at hfirst
      cases hfirst

/-- The tests of transactions leave a coinbase between 2 and 100 bytes. -/
theorem coinbaseScript_of_checkBlock {R : BlockRules H} {nAdjustedTime : Int64}
    {fCheckPOW fCheckMerkleRoot : Bool} {block built : CBlock H}
    (h : CheckBlock R nAdjustedTime fCheckPOW fCheckMerkleRoot block = .ok built) :
    ∃ scriptSig, block.coinbaseScript = some scriptSig ∧ 2 ≤ scriptSig.length ∧
      scriptSig.length ≤ 100 := by
  obtain ⟨tx, rest, hvtx, hcoinbase, hchecked⟩ := head_of_checkBlock h
  obtain ⟨txin, hvin, hnull⟩ := CTransaction.isCoinBase_iff.1 hcoinbase
  obtain ⟨-, -, -, -, -, hsize | hinput⟩ := (CheckTransaction_eq_ok_iff _ _).1 hchecked
  · have hmem : txin ∈ tx.vin := by simp [hvin]
    refine ⟨txin.scriptSig, ?_, hsize.2 txin hmem⟩
    unfold CBlock.coinbaseScript
    rw [hvtx, List.head?_cons, Option.bind_some, hvin]
    rfl
  · have hinput := hinput txin (by simp [hvin])
    rw [hnull] at hinput
    cases hinput

variable {R : AcceptRules H} {mapBlockIndex : List (H × CChainIndex × List CChainIndex)}
  {nAdjustedTime : Int64} {block : CBlock H}

omit [Zero H] in
/-- What the comparison does, if it is made. -/
theorem acceptBlock_eq {nHeight : Int32} {scriptSig : CScript}
    (hheight : block.heightToCheck R mapBlockIndex nAdjustedTime = .ok (some nHeight))
    (hscript : block.coinbaseScript = some scriptSig) :
    block.AcceptBlock R mapBlockIndex nAdjustedTime =
      (stdEqual (R.push nHeight) scriptSig).map fun equal => ensure equal .heightMismatch := by
  unfold CBlock.AcceptBlock
  rw [hheight, hscript]
  change (stdEqual (R.push nHeight) scriptSig >>= fun equal => some (ensure equal _)) = _
  cases stdEqual (R.push nHeight) scriptSig <;> rfl

omit [Zero H] in
theorem exists_acceptBlock_of_no_height
    (hheight : ∀ nHeight, block.heightToCheck R mapBlockIndex nAdjustedTime ≠ .ok (some nHeight)) :
    ∃ r, block.AcceptBlock R mapBlockIndex nAdjustedTime = some r := by
  unfold CBlock.AcceptBlock
  cases hcheck : block.heightToCheck R mapBlockIndex nAdjustedTime with
  | error e => exact ⟨.error e, rfl⟩
  | ok height =>
    cases height with
    | none => exact ⟨.ok (), rfl⟩
    | some nHeight => exact absurd hcheck (hheight nHeight)

omit [Zero H] in
/-- A comparison that comes to an end refuses what is too short. -/
theorem exists_acceptBlock {scriptSig : CScript} (hscript : block.coinbaseScript = some scriptSig)
    (hno : ∀ nHeight, block.heightToCheck R mapBlockIndex nAdjustedTime = .ok (some nHeight) →
      ¬(scriptSig <+: R.push nHeight ∧ scriptSig.length < (R.push nHeight).length)) :
    ∃ r, block.AcceptBlock R mapBlockIndex nAdjustedTime = some r ∧
      ∀ nHeight, block.heightToCheck R mapBlockIndex nAdjustedTime = .ok (some nHeight) →
        scriptSig.length < (R.push nHeight).length → r = .error .heightMismatch := by
  by_cases hheight : ∃ nHeight,
      block.heightToCheck R mapBlockIndex nAdjustedTime = .ok (some nHeight)
  swap
  · obtain ⟨r, hr⟩ := exists_acceptBlock_of_no_height (not_exists.1 hheight)
    exact ⟨r, hr, fun nHeight hcheck => absurd ⟨nHeight, hcheck⟩ hheight⟩
  obtain ⟨nHeight, hheight⟩ := hheight
  cases hequal : stdEqual (R.push nHeight) scriptSig with
  | none => exact absurd (stdEqual_eq_none_iff.1 hequal) (hno nHeight hheight)
  | some equal =>
    refine ⟨ensure equal .heightMismatch, ?_, ?_⟩
    · rw [acceptBlock_eq hheight hscript, hequal]
      rfl
    · intro nHeight' hheight' hshort
      rw [hheight] at hheight'
      cases hheight'
      cases equal with
      | false => rfl
      | true =>
        have hlong := (stdEqual_eq_true_iff.1 hequal).length_le
        omega

end

/-- How numbers above 16 are pushed: a byte of length and the bytes of the number, the low one
first. -/
def PushesNumbers (push : Int32 → CScript) : Prop :=
  ∀ n : Int32, 16 < n →
    push n = .ofNat (CBigNum.getvch n.toInt).length :: CBigNum.getvch n.toInt

theorem length_getvch_of_lt {n : Nat} (hlt : n < 128) : (CBigNum.getvch n).length ≤ 1 := by
  have hall : ∀ i : Fin 128, (CBigNum.getvch i.1).length ≤ 1 := by decide +kernel
  exact hall ⟨n, hlt⟩

/-- Heights below 128 are not longer than any coinbase. -/
theorem exists_acceptBlock_of_low_height {H : Type} [Zero H] [DecidableEq H] {R : AcceptRules H}
    (hpush : PushesNumbers R.push) {mapBlockIndex : List (H × CChainIndex × List CChainIndex)}
    {nCheckTime nAdjustedTime : Int64} {fCheckPOW fCheckMerkleRoot : Bool} {block built : CBlock H}
    (hchecked : CheckBlock R.toBlockRules nCheckTime fCheckPOW fCheckMerkleRoot block = .ok built)
    (hlow : ∀ nHeight, block.heightToCheck R mapBlockIndex nAdjustedTime = .ok (some nHeight) →
      16 < nHeight ∧ nHeight < 128) :
    ∃ r, block.AcceptBlock R mapBlockIndex nAdjustedTime = some r := by
  obtain ⟨scriptSig, hscript, hlong, -⟩ := coinbaseScript_of_checkBlock hchecked
  have hno : ∀ nHeight, block.heightToCheck R mapBlockIndex nAdjustedTime = .ok (some nHeight) →
      ¬(scriptSig <+: R.push nHeight ∧ scriptSig.length < (R.push nHeight).length) := by
    rintro nHeight hheight ⟨-, hshort⟩
    obtain ⟨hpos, hlt⟩ := hlow nHeight hheight
    have hpos : 16 < nHeight.toInt := Int32.lt_iff_toInt_lt.1 hpos
    have hlt : nHeight.toInt < 128 := Int32.lt_iff_toInt_lt.1 hlt
    obtain ⟨n, hn⟩ := Int.eq_ofNat_of_zero_le (by omega : 0 ≤ nHeight.toInt)
    have hbytes := length_getvch_of_lt (by omega : n < 128)
    rw [hpush nHeight (hlow nHeight hheight).1, hn, List.length_cons] at hshort
    omega
  obtain ⟨r, haccept, -⟩ := exists_acceptBlock hscript hno
  exact ⟨r, haccept⟩

/-! ## A coinbase that is read beyond its end -/

/-- Numbers as hashes, and no checkpoints. -/
def AcceptRules.numbers : AcceptRules Nat where
  toBlockRules := .numbers
  hashGenesisBlock := 1
  fTestNet := false
  nBestHeight := 749
  LOCKTIME_THRESHOLD := 500000000
  GetMedianTimePast := fun chain => Int64.ofInt ((chain[5]?.map fun b => b.nTime.toNat).getD 0)
  fCheckpointsEnabled := true
  mapCheckpoints := []
  push := fun n =>
    if 16 < n then .ofNat (CBigNum.getvch n.toInt).length :: CBigNum.getvch n.toInt
    else [0x50 + n.toUInt32.toUInt8]

end TriTip
