import TriTip.Block.MerkleTree
import TriTip.Block.ProcessBlock
import TriTip.DustCoin.EnterPoint

/-!
# The gate to the bitcoin network

`CBitcoinNetworkGate` of `ttnetwork.h`: `addBlock`, one pass of `processBitcoinNetworkBlocks` and
`searchForBitcoinTransactions`. The scan of a block is the body of a loop on `m_orginIndex`, which
nothing changes: a block is not scanned at all, or for ever with the mutex of the list held
(`searchForBitcoinTransactions_iff`). `scanInputTransactions` is read as the method of the entry
point that there is, `transactions` as `m_transactions`, and `m_blocks.erase()` as `clear()`. The
loops that may not end take a number of turns, `none` if it does not suffice or if a lock is waited
for.
-/

namespace TriTip.TTcoin

structure CBitcoinNetworkGate (H : Type) where
  /-- whether it is held -/
  m_blockListMutex : Bool
  m_orginIndex : Option CBlockIndex
  m_enterPointForTransaction : CTTEnterPointForTransaction H
  m_blocks : List (CBlock H)
  m_transactions : List (CTransaction H)

namespace CBitcoinNetworkGate

variable {H : Type} (gate : CBitcoinNetworkGate H)

/-- `scoped_lock` -/
def lock : Option (CBitcoinNetworkGate H) :=
  if gate.m_blockListMutex then none else some { gate with m_blockListMutex := true }

def unlock : CBitcoinNetworkGate H := { gate with m_blockListMutex := false }

def addBlock (_block : CBlock H) : Option (CBitcoinNetworkGate H) := do
  let gate ← gate.lock
  let gate := { gate with m_blocks := gate.m_blocks ++ [_block] }
  return gate.unlock

/-- The body of the inner loop. -/
def scanTransaction (transactions : List (CTransaction H)) (tx : CTransaction H) :
    List (CTransaction H) :=
  match gate.m_enterPointForTransaction.scanOutputOfTransaction tx with
  | some transaction => transactions ++ [transaction]
  | none => transactions

def searchForBitcoinTransactions (block : CBlock H) :
    (turns : Nat) → CBitcoinNetworkGate H → Option (CBitcoinNetworkGate H)
  | 0, _ => none
  | turns + 1, gate =>
    if gate.m_orginIndex.isSome then
      searchForBitcoinTransactions block turns
        { gate with m_transactions := block.vtx.foldl gate.scanTransaction gate.m_transactions }
    else some gate

/-- What is done with a block of the list. -/
def processBlock [Zero H] (R : Consensus H) (turns : Nat) (gate : CBitcoinNetworkGate H)
    (block : CBlock H) : Option (CBitcoinNetworkGate H) := do
  let (_, block) ← block.BuildMerkleTree R
  searchForBitcoinTransactions block turns gate

/-- From the lock to its release. -/
def processBitcoinNetworkBlocks [Zero H] (R : Consensus H) (turns : Nat) :
    Option (CBitcoinNetworkGate H) := do
  let gate ← gate.lock
  let gate ← gate.m_blocks.foldlM (processBlock R turns) gate
  let gate := { gate with m_blocks := [] }
  return gate.unlock

/-! ## The scan -/

/-- The entry point recognises a transaction. -/
def recognises (tx : CTransaction H) : Bool :=
  (gate.m_enterPointForTransaction.scanOutputOfTransaction tx).isSome

theorem scanTransaction_eq (transactions : List (CTransaction H)) (tx : CTransaction H) :
    gate.scanTransaction transactions tx =
      transactions ++ if gate.recognises tx then [tx] else [] := by
  unfold scanTransaction recognises CTTEnterPointForTransaction.scanOutputOfTransaction
  by_cases h : tx.vout.any fun txout =>
      txout.scriptPubKey = gate.m_enterPointForTransaction.m_target
  · simp [h]
  · simp [h]

/-- One turn appends what is recognised, in the order of the block. -/
theorem foldl_scanTransaction (transactions vtx : List (CTransaction H)) :
    vtx.foldl gate.scanTransaction transactions = transactions ++ vtx.filter gate.recognises := by
  induction vtx generalizing transactions with
  | nil => simp
  | cons tx vtx ih =>
    rw [List.foldl_cons, ih, scanTransaction_eq, List.append_assoc]
    by_cases h : gate.recognises tx
    · simp [h]
    · simp [h]

theorem search_of_isNone {gate : CBitcoinNetworkGate H} (h : gate.m_orginIndex = none)
    (block : CBlock H) (turns : Nat) :
    searchForBitcoinTransactions block (turns + 1) gate = some gate := by
  rw [searchForBitcoinTransactions, h]
  rfl

/-- A turn appends what is recognised, once more, and does not change what the loop is on. -/
theorem search_of_isSome {gate : CBitcoinNetworkGate H} (h : gate.m_orginIndex.isSome)
    (block : CBlock H) (turns : Nat) :
    searchForBitcoinTransactions block (turns + 1) gate =
      searchForBitcoinTransactions block turns { gate with
        m_transactions := gate.m_transactions ++ block.vtx.filter gate.recognises } := by
  rw [searchForBitcoinTransactions, if_pos h, foldl_scanTransaction]

theorem search_runs_on {gate : CBitcoinNetworkGate H} (h : gate.m_orginIndex.isSome)
    (block : CBlock H) (turns : Nat) : searchForBitcoinTransactions block turns gate = none := by
  induction turns generalizing gate with
  | zero => rfl
  | succ turns ih =>
    rw [search_of_isSome h]
    apply ih
    exact h

/-! ## A pass -/

theorem lock_eq_some (h : gate.m_blockListMutex = false) :
    gate.lock = some { gate with m_blockListMutex := true } := by
  simp [lock, h]

theorem lock_eq_none (h : gate.m_blockListMutex = true) : gate.lock = none := by
  simp [lock, h]

/-- Blocks are queued while nobody has the lock. -/
theorem foldlM_addBlock {gate : CBitcoinNetworkGate H} (h : gate.m_blockListMutex = false)
    (blocks : List (CBlock H)) :
    blocks.foldlM addBlock gate = some { gate with m_blocks := gate.m_blocks ++ blocks } := by
  induction blocks generalizing gate with
  | nil => simp
  | cons block blocks ih =>
    have hadd : gate.addBlock block = some { gate with m_blocks := gate.m_blocks ++ [block] } := by
      rw [addBlock, gate.lock_eq_some h]
      simp [unlock, h]
    have hrest := @ih { gate with m_blocks := gate.m_blocks ++ [block] } h
    rw [List.append_assoc] at hrest
    rw [List.foldlM_cons, hadd]
    exact hrest

variable [Zero H] (R : Consensus H)

theorem processBlock_eq (turns : Nat) (block : CBlock H) :
    ∃ built : CBlock H, processBlock R turns gate block =
      searchForBitcoinTransactions built turns gate := by
  rw [processBlock, CBlock.BuildMerkleTree_eq]
  exact ⟨_, rfl⟩

theorem foldlM_processBlock {gate : CBitcoinNetworkGate H} (h : gate.m_orginIndex = none)
    (blocks : List (CBlock H)) (turns : Nat) :
    blocks.foldlM (processBlock R (turns + 1)) gate = some gate := by
  induction blocks with
  | nil => rfl
  | cons block blocks ih =>
    obtain ⟨built, hbuilt⟩ := gate.processBlock_eq R (turns + 1) block
    rw [List.foldlM_cons, hbuilt, search_of_isNone h]
    exact ih

theorem foldlM_processBlock_of_isSome {gate : CBitcoinNetworkGate H}
    (h : gate.m_orginIndex.isSome) {blocks : List (CBlock H)} (hne : blocks ≠ []) (turns : Nat) :
    blocks.foldlM (processBlock R turns) gate = none := by
  obtain ⟨block, blocks, rfl⟩ := List.exists_cons_of_ne_nil hne
  obtain ⟨built, hbuilt⟩ := gate.processBlock_eq R turns block
  rw [List.foldlM_cons, hbuilt, search_runs_on h]
  rfl

/-- The search ends, with what the entry point recognises appended. -/
def SearchAppends (block : CBlock H) : Prop :=
  ∃ turns, searchForBitcoinTransactions block turns gate =
    some { gate with
      m_transactions := gate.m_transactions ++ block.vtx.filter gate.recognises }

/-- A pass ends, with the list empty and the mutex released. -/
def PassReleases : Prop :=
  ∃ turns gate', gate.processBitcoinNetworkBlocks R turns = some gate' ∧ gate'.m_blocks = [] ∧
    gate'.m_blockListMutex = false

omit [Zero H] in
theorem searchAppends_iff (block : CBlock H) :
    gate.SearchAppends block ↔
      gate.m_orginIndex = none ∧ ∀ tx ∈ block.vtx, ¬ gate.recognises tx := by
  constructor
  · rintro ⟨turns, h⟩
    cases hindex : gate.m_orginIndex with
    | some pindex =>
      rw [search_runs_on (by simp [hindex])] at h
      cases h
    | none =>
      cases turns with
      | zero => cases h
      | succ turns =>
        rw [search_of_isNone hindex] at h
        have heq := congrArg m_transactions (Option.some.inj h)
        have hnil := List.self_eq_append_right.1 heq
        exact ⟨rfl, List.filter_eq_nil_iff.1 hnil⟩
  · rintro ⟨hindex, hnot⟩
    refine ⟨1, ?_⟩
    rw [search_of_isNone hindex, List.filter_eq_nil_iff.2 hnot, List.append_nil]

theorem passReleases_iff :
    gate.PassReleases R ↔
      gate.m_blockListMutex = false ∧ (gate.m_orginIndex = none ∨ gate.m_blocks = []) := by
  cases hmutex : gate.m_blockListMutex with
  | true => simp [PassReleases, processBitcoinNetworkBlocks, gate.lock_eq_none hmutex]
  | false =>
    constructor
    · rintro ⟨turns, gate', h, -⟩
      refine ⟨rfl, ?_⟩
      by_contra hnot
      push Not at hnot
      have hindex : gate.m_orginIndex.isSome := Option.isSome_iff_ne_none.2 hnot.1
      rw [processBitcoinNetworkBlocks, gate.lock_eq_some hmutex] at h
      simp only [Option.bind_eq_bind, Option.bind_some] at h
      rw [foldlM_processBlock_of_isSome R (by exact hindex) hnot.2] at h
      cases h
    · rintro ⟨-, hindex | hblocks⟩
      · refine ⟨1, { gate with m_blocks := [], m_blockListMutex := false }, ?_, rfl, rfl⟩
        rw [processBitcoinNetworkBlocks, gate.lock_eq_some hmutex]
        simp only [Option.bind_eq_bind, Option.bind_some]
        rw [foldlM_processBlock R (by exact hindex)]
        rfl
      · refine ⟨0, { gate with m_blocks := [], m_blockListMutex := false }, ?_, rfl, rfl⟩
        rw [processBitcoinNetworkBlocks, gate.lock_eq_some hmutex]
        simp only [Option.bind_eq_bind, Option.bind_some, hblocks, List.foldlM_nil]
        rfl

/-- After a pass blocks can be queued again. -/
theorem addBlock_of_pass {gate gate' : CBitcoinNetworkGate H} {turns : Nat}
    (h : gate.processBitcoinNetworkBlocks R turns = some gate') (blocks : List (CBlock H)) :
    ∃ queued : CBitcoinNetworkGate H,
      blocks.foldlM addBlock gate' = some queued ∧ queued.m_blocks = blocks := by
  unfold processBitcoinNetworkBlocks at h
  obtain ⟨locked, -, h⟩ := Option.bind_eq_some_iff.1 h
  obtain ⟨scanned, -, h⟩ := Option.bind_eq_some_iff.1 h
  cases h
  exact ⟨_, foldlM_addBlock rfl blocks, rfl⟩

/-- **A scan that does nothing or never ends.** The search is right for a block if and only if there
is no index to begin at and nothing in the block to be found, and a pass ends if and only if the
mutex is free and there is no index or no block. -/
theorem searchForBitcoinTransactions_iff (block : CBlock H) :
    (gate.SearchAppends block ↔
      gate.m_orginIndex = none ∧ ∀ tx ∈ block.vtx, ¬ gate.recognises tx) ∧
    (gate.PassReleases R ↔
      gate.m_blockListMutex = false ∧ (gate.m_orginIndex = none ∨ gate.m_blocks = [])) :=
  ⟨gate.searchAppends_iff block, gate.passReleases_iff R⟩

/-- A block without transactions is searched for ever when there is an index. -/
theorem searchForBitcoinTransactions_runs_on :
    let block : CBlock Nat := ⟨⟨1, 0, 0, 0, 0, 0⟩, [], []⟩
    let gate : CBitcoinNetworkGate Nat := ⟨false, some ⟨0, 0, 0⟩, ⟨[], [], 0⟩, [block], []⟩
    ¬ gate.SearchAppends block ∧ ¬ gate.PassReleases .numbers := by
  intro block gate
  rw [searchAppends_iff, passReleases_iff]
  simp [gate]

end CBitcoinNetworkGate

end TriTip.TTcoin
