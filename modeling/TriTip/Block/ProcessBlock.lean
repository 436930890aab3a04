import TriTip.Block.CheckBlock

/-!
# Processing blocks

`ProcessBlock` with `GetOrphanRoot` and `PushGetBlocks` (`bitcoin_messages_handlers.cpp`). A block
is handed to `BitcoinGate` if its predecessor is in `mapBlockIndex` and it is not there itself;
other blocks go to the orphan maps. Nothing is ever added to `mapBlockIndex` and nothing taken out
of the orphan maps, so that only blocks whose predecessor was there from the start are handed on,
as often as they come (`deliveries_iff`).
-/

namespace TriTip

structure CBlockIndex where
  nHeight : Int32
  nTime : UInt32
  nBits : UInt32
  deriving DecidableEq

/-- What `PushGetBlocks` remembers of a peer. -/
structure LastGetBlocks (H : Type) where
  pindexLastGetBlocksBegin : Option H
  hashLastGetBlocksEnd : H

/-- The state that `ProcessBlock` works on. Blocks of the index are named by their hash; `peers` and
`getblocks` are of the peers by number, `m_blocks` is the list of `BitcoinGate`. -/
structure BlockStore (H : Type) where
  mapBlockIndex : List (H × CBlockIndex)
  mapOrphanBlocks : List (H × CBlock H)
  mapOrphanBlocksByPrev : List (H × CBlock H)
  hashBestChain : H
  pindexBest : Option H
  peers : Nat → LastGetBlocks H
  getblocks : List (Nat × Option H × H)
  m_blocks : List (CBlock H)

/-- What `ProcessBlock` uses besides: the last checkpoint in the index, and the comparison of a
block's `nBits` with `ComputeMinWork`. -/
structure ProcessRules (H : Type) extends BlockRules H where
  GetLastCheckpoint : List (H × CBlockIndex) → Option CBlockIndex
  tooLittleWork : (nBits checkpointBits : UInt32) → (deltaTime : Int64) → Bool

inductive ProcessError where
  | alreadyHave
  | alreadyHaveOrphan
  | checkBlock (e : BlockError)
  | beforeCheckpoint
  | tooLittleWork
  deriving DecidableEq

namespace BlockStore

variable {H : Type} [Zero H] [DecidableEq H] (R : ProcessRules H)

/-- `count` of a map. -/
def count {α : Type} (map : List (H × α)) (hash : H) : Bool := map.any fun entry => entry.1 == hash

/-- Work back to the first block in the orphan chain; `none` if the chain comes back to itself. -/
def GetOrphanRoot (mapOrphanBlocks : List (H × CBlock H)) : (turns : Nat) → CBlock H → Option H
  | 0, _ => none
  | turns + 1, pblock =>
    match mapOrphanBlocks.lookup pblock.hashPrevBlock with
    | some pblock => GetOrphanRoot mapOrphanBlocks turns pblock
    | none => some (pblock.GetHash R.toBlockRules)

def PushGetBlocks (s : BlockStore H) (pnode : Nat) (pindexBegin : Option H) (hashEnd : H) :
    BlockStore H :=
  -- Filter out duplicate requests
  if pindexBegin = (s.peers pnode).pindexLastGetBlocksBegin ∧
      hashEnd = (s.peers pnode).hashLastGetBlocksEnd then s
  else { s with
    peers := fun n => if n = pnode then ⟨pindexBegin, hashEnd⟩ else s.peers n
    getblocks := s.getblocks ++ [(pnode, pindexBegin, hashEnd)] }

/-- The checks against the last checkpoint. -/
def CheckCheckpoint (s : BlockStore H) (block : CBlock H) : Except ProcessError Unit :=
  match R.GetLastCheckpoint s.mapBlockIndex with
  | none => .ok ()
  | some pcheckpoint =>
    if block.hashPrevBlock = s.hashBestChain then .ok ()
    else do
      let deltaTime := block.GetBlockTime - Int64.ofInt pcheckpoint.nTime.toNat
      ensure (!deltaTime < 0) .beforeCheckpoint
      ensure (!R.tooLittleWork block.nBits pcheckpoint.nBits deltaTime) .tooLittleWork

/-- The checks before a block is given anywhere. -/
def CheckNew (s : BlockStore H) (nAdjustedTime : Int64) (block : CBlock H) :
    Except ProcessError Unit := do
  let hash := block.GetHash R.toBlockRules
  ensure (!count s.mapBlockIndex hash) .alreadyHave
  ensure (!count s.mapOrphanBlocks hash) .alreadyHaveOrphan
  match CheckBlock R.toBlockRules nAdjustedTime true true block with
  | .ok _ => pure ()
  | .error e => throw (.checkBlock e)
  CheckCheckpoint R s block

/-- Put a block into the holding area. -/
def addOrphan (s : BlockStore H) (block : CBlock H) : BlockStore H :=
  let hash := block.GetHash R.toBlockRules
  { s with
    mapOrphanBlocks :=
      if count s.mapOrphanBlocks hash then s.mapOrphanBlocks
      else s.mapOrphanBlocks ++ [(hash, block)]
    mapOrphanBlocksByPrev := s.mapOrphanBlocksByPrev ++ [(block.hashPrevBlock, block)] }

/-- `ProcessBlock`; `none` if it does not return. -/
def ProcessBlock (s : BlockStore H) (nAdjustedTime : Int64) (pfrom : Option Nat)
    (block : CBlock H) :
    Option (Except ProcessError Unit × BlockStore H) :=
  match CheckNew R s nAdjustedTime block with
  | .error e => some (.error e, s)
  | .ok () =>
    -- If we don't already have its previous block, shunt it off to holding area until we get it
    if block.hashPrevBlock ≠ 0 ∧ count s.mapBlockIndex block.hashPrevBlock = false then
      -- Accept orphans as long as there is a node to request its parents from
      match pfrom with
      | none => some (.ok (), s)
      | some pfrom => do
        let s := s.addOrphan R block
        -- Ask this guy to fill in what we're missing
        let hashEnd ← GetOrphanRoot R s.mapOrphanBlocks (s.mapOrphanBlocks.length + 1) block
        return (.ok (), s.PushGetBlocks pfrom s.pindexBest hashEnd)
    else some (.ok (), { s with m_blocks := s.m_blocks ++ [block] })

/-- A block that comes from a peer. -/
structure Delivery (H : Type) where
  block : CBlock H
  pfrom : Nat
  nAdjustedTime : Int64

/-- Deliveries one after another; `none` if one is never done. -/
def deliver (s : BlockStore H) : List (Delivery H) → Option (BlockStore H)
  | [] => some s
  | d :: rest => do
    let (_, s) ← s.ProcessBlock R d.nAdjustedTime (some d.pfrom) d.block
    deliver s rest

/-- The store of a node that has its index and has not been given anything. -/
def start (mapBlockIndex : List (H × CBlockIndex)) (hashBestChain : H) (pindexBest : Option H) :
    BlockStore H where
  mapBlockIndex := mapBlockIndex
  mapOrphanBlocks := []
  mapOrphanBlocksByPrev := []
  hashBestChain := hashBestChain
  pindexBest := pindexBest
  peers := fun _ => ⟨none, 0⟩
  getblocks := []
  m_blocks := []

/-! ## What is handed on -/

/-- A block that begins a chain, or whose predecessor is in the index. -/
def Rooted (s : BlockStore H) (block : CBlock H) : Prop :=
  block.hashPrevBlock = 0 ∨ count s.mapBlockIndex block.hashPrevBlock = true

/-- All ancestors of a block have arrived. -/
inductive Arrived (s : BlockStore H) (blocks : List (CBlock H)) : CBlock H → Prop where
  | rooted {block : CBlock H} (h : s.Rooted block) : Arrived s blocks block
  | next {block prev : CBlock H} (hprev : prev ∈ blocks)
      (hhash : prev.GetHash R.toBlockRules = block.hashPrevBlock) (h : Arrived s blocks prev) :
      Arrived s blocks block

/-- What is to come of deliveries: every block is handed on once, whatever the order, and none
that has its ancestors is held back. -/
structure Delivered (s : BlockStore H) (deliveries : List (Delivery H)) (s' : BlockStore H) :
    Prop where
  once : ∀ d ∈ deliveries, s'.m_blocks.count d.block = 1
  only : ∀ block ∈ s'.m_blocks, ∃ d ∈ deliveries, d.block = block
  released : ∀ entry ∈ s'.mapOrphanBlocks ++ s'.mapOrphanBlocksByPrev,
    ¬Arrived R s' (deliveries.map Delivery.block) entry.2

/-- Every block of the deliveries passes `CheckBlock` and the checkpoint tests when it comes. -/
def Passes (s : BlockStore H) (deliveries : List (Delivery H)) : Prop :=
  ∀ d ∈ deliveries,
    (∃ built, CheckBlock R.toBlockRules d.nAdjustedTime true true d.block = .ok built) ∧
    CheckCheckpoint R s d.block = .ok ()

variable {R : ProcessRules H} {s s' : BlockStore H}

/-- What one block can do: nothing, become an orphan, or be handed on. -/
theorem processBlock_cases {nAdjustedTime : Int64} {pfrom : Option Nat} {block : CBlock H}
    {r : Except ProcessError Unit} (h : s.ProcessBlock R nAdjustedTime pfrom block = some (r, s')) :
    s' = s ∨
    (s'.mapBlockIndex = s.mapBlockIndex ∧ s'.m_blocks = s.m_blocks) ∨
    (s.Rooted block ∧ count s.mapBlockIndex (block.GetHash R.toBlockRules) = false ∧
      s' = { s with m_blocks := s.m_blocks ++ [block] }) := by
  unfold ProcessBlock at h
  rcases hnew : CheckNew R s nAdjustedTime block with _ | _
  · rw [hnew] at h
    cases h
    exact .inl rfl
  rw [hnew] at h
  dsimp only at h
  by_cases horphan : block.hashPrevBlock ≠ 0 ∧ count s.mapBlockIndex block.hashPrevBlock = false
  · rw [if_pos horphan] at h
    rcases pfrom with _ | pfrom
    · cases h
      exact .inl rfl
    · obtain ⟨hashEnd, -, h⟩ := Option.bind_eq_some_iff.1 h
      cases h
      refine .inr (.inl ?_)
      unfold PushGetBlocks addOrphan
      split
      · exact ⟨rfl, rfl⟩
      · exact ⟨rfl, rfl⟩
  · rw [if_neg horphan] at h
    cases h
    obtain ⟨_, hindex, -⟩ := exists_of_bind_eq_ok hnew
    rw [ensure_eq_ok, Bool.not_eq_true'] at hindex
    refine .inr (.inr ⟨?_, hindex, rfl⟩)
    rw [not_and_or, not_not, Bool.not_eq_false] at horphan
    exact horphan

/-- Only a block that has its predecessor in the index is ever handed on. -/
theorem rooted_of_deliver {deliveries : List (Delivery H)}
    (h : s.deliver R deliveries = some s') (block : CBlock H) (hmem : block ∈ s'.m_blocks) :
    block ∈ s.m_blocks ∨
      s.Rooted block ∧ count s.mapBlockIndex (block.GetHash R.toBlockRules) = false := by
  induction deliveries generalizing s with
  | nil =>
    cases h
    exact .inl hmem
  | cons d rest ih =>
    obtain ⟨⟨r, t⟩, hstep, hrest⟩ := Option.bind_eq_some_iff.1 h
    have hcases := processBlock_cases hstep
    have ht := ih hrest
    rcases hcases with rfl | ⟨hindex, hblocks⟩ | ⟨hrooted, hnew, rfl⟩
    · exact ht
    · unfold Rooted at ht ⊢
      rwa [hindex, hblocks] at ht
    · rcases ht with ht | ht
      · rcases List.mem_append.1 ht with ht | ht
        · exact .inl ht
        · rw [List.mem_singleton.1 ht]
          exact .inr ⟨hrooted, hnew⟩
      · exact .inr ht

/-- A new block that passes and has its predecessor in the index is handed on. -/
theorem processBlock_rooted {nAdjustedTime : Int64} {pfrom : Option Nat} {block : CBlock H}
    (horphans : s.mapOrphanBlocks = [])
    (hcheck : ∃ built, CheckBlock R.toBlockRules nAdjustedTime true true block = .ok built)
    (hcheckpoint : CheckCheckpoint R s block = .ok ()) (hrooted : s.Rooted block)
    (hnew : count s.mapBlockIndex (block.GetHash R.toBlockRules) = false) :
    s.ProcessBlock R nAdjustedTime pfrom block =
      some (.ok (), { s with m_blocks := s.m_blocks ++ [block] }) := by
  obtain ⟨built, hbuilt⟩ := hcheck
  have hall : CheckNew R s nAdjustedTime block = .ok () := by
    unfold CheckNew
    dsimp only
    rw [hnew, horphans, hbuilt]
    exact hcheckpoint
  have hhere : ¬(block.hashPrevBlock ≠ 0 ∧
      count s.mapBlockIndex block.hashPrevBlock = false) := by
    rw [not_and_or, not_not, Bool.not_eq_false]
    exact hrooted
  unfold ProcessBlock
  rw [hall]
  dsimp only
  rw [if_neg hhere]

/-- **Blocks with their predecessors in the index are handed on as they come.** -/
theorem deliver_rooted {deliveries : List (Delivery H)} (horphans : s.mapOrphanBlocks = [])
    (hpasses : Passes R s deliveries)
    (hrooted : ∀ d ∈ deliveries, s.Rooted d.block ∧
      count s.mapBlockIndex (d.block.GetHash R.toBlockRules) = false) :
    s.deliver R deliveries =
      some { s with m_blocks := s.m_blocks ++ deliveries.map Delivery.block } := by
  induction deliveries generalizing s with
  | nil => simp [deliver]
  | cons d rest ih =>
    obtain ⟨hd, hdnew⟩ := hrooted d List.mem_cons_self
    obtain ⟨hcheck, hcheckpoint⟩ := hpasses d List.mem_cons_self
    have hrest : ({ s with m_blocks := s.m_blocks ++ [d.block] } : BlockStore H).deliver R rest =
        some { s with m_blocks := s.m_blocks ++ [d.block] ++ rest.map Delivery.block } :=
      ih horphans (fun e he => hpasses e (List.mem_cons_of_mem d he))
        (fun e he => hrooted e (List.mem_cons_of_mem d he))
    unfold deliver
    rw [processBlock_rooted horphans hcheck hcheckpoint hd hdnew]
    rw [List.append_assoc] at hrest
    exact hrest

/-- **When every block of the deliveries is handed on once and no block that has its ancestors is
held back**: exactly if each of them begins a chain or has its predecessor in the index, is not in
the index itself, and comes once. -/
theorem deliveries_iff (R : ProcessRules H) (mapBlockIndex : List (H × CBlockIndex))
    (hashBestChain : H) (pindexBest : Option H) (deliveries : List (Delivery H))
    (hpasses : Passes R (start mapBlockIndex hashBestChain pindexBest) deliveries) :
    (∃ s', (start mapBlockIndex hashBestChain pindexBest).deliver R deliveries = some s' ∧
      Delivered R (start mapBlockIndex hashBestChain pindexBest) deliveries s') ↔
      (∀ d ∈ deliveries, (start mapBlockIndex hashBestChain pindexBest).Rooted d.block ∧
        count mapBlockIndex (d.block.GetHash R.toBlockRules) = false) ∧
      (deliveries.map Delivery.block).Nodup := by
  constructor
  · rintro ⟨s', hrun, hdelivered⟩
    have hrooted : ∀ d ∈ deliveries, (start mapBlockIndex hashBestChain pindexBest).Rooted d.block ∧
        count mapBlockIndex (d.block.GetHash R.toBlockRules) = false := by
      intro d hd
      have hmem : d.block ∈ s'.m_blocks := by
        rw [← List.count_pos_iff, hdelivered.once d hd]
        exact Nat.one_pos
      exact (rooted_of_deliver hrun d.block hmem).resolve_left List.not_mem_nil
    refine ⟨hrooted, List.nodup_iff_count_eq_one.2 fun block hblock => ?_⟩
    obtain ⟨d, hd, rfl⟩ := List.mem_map.1 hblock
    have honce := hdelivered.once d hd
    rw [deliver_rooted rfl hpasses hrooted] at hrun
    obtain rfl := Option.some.inj hrun
    exact honce
  · rintro ⟨hrooted, hnodup⟩
    refine ⟨_, deliver_rooted rfl hpasses hrooted, fun d hd => ?_, fun block hblock => ?_, nofun⟩
    · exact List.count_eq_one_of_mem hnodup (List.mem_map_of_mem hd)
    · exact List.mem_map.1 hblock

end BlockStore

/-- Rules under which numbers are hashes, without checkpoints. -/
def ProcessRules.numbers : ProcessRules Nat where
  toBlockRules := .numbers
  GetLastCheckpoint := fun _ => none
  tooLittleWork := fun _ _ _ => false

namespace BlockStore

/-- A block that begins a chain is handed on. -/
theorem deliveries_iff_threeTransactions :
    (∃ s', (start [] 0 none).deliver .numbers [⟨CBlock.threeTransactions, 0, 0⟩] = some s' ∧
      Delivered .numbers (start [] 0 none) [⟨CBlock.threeTransactions, 0, 0⟩] s') ↔
      (∀ d ∈ [(⟨CBlock.threeTransactions, 0, 0⟩ : Delivery Nat)],
        (start [] 0 none).Rooted d.block ∧
        count ([] : List (Nat × CBlockIndex))
          (d.block.GetHash ProcessRules.numbers.toBlockRules) = false) ∧
      ([(⟨CBlock.threeTransactions, 0, 0⟩ : Delivery Nat)].map Delivery.block).Nodup :=
  deliveries_iff .numbers [] 0 none _ fun d hd => by
    rw [List.mem_singleton.1 hd]
    exact ⟨⟨_, rfl⟩, rfl⟩

/-- A block and the block after it, in this order. -/
def parentAndChild : List (Delivery Nat) :=
  [⟨CBlock.threeTransactions, 0, 0⟩,
    ⟨{ CBlock.threeTransactions with hashPrevBlock := 500, nNonce := 1 }, 0, 0⟩]

/-- The second block of a chain is held back although the first has arrived and been handed on. -/
theorem child_held_back :
    Passes .numbers (start [] 0 none) parentAndChild ∧
      (∀ d ∈ parentAndChild,
        Arrived .numbers (start [] 0 none) (parentAndChild.map Delivery.block) d.block) ∧
      ¬∃ s', (start [] 0 none).deliver .numbers parentAndChild = some s' ∧
        Delivered .numbers (start [] 0 none) parentAndChild s' := by
  refine ⟨?_, ?_, ?_⟩
  · intro d hd
    rcases List.mem_pair.1 hd with rfl | rfl
    · exact ⟨⟨_, rfl⟩, rfl⟩
    · exact ⟨⟨_, rfl⟩, rfl⟩
  · intro d hd
    have hparent : Arrived .numbers (start [] 0 none) (parentAndChild.map Delivery.block)
        CBlock.threeTransactions := .rooted (.inl rfl)
    rcases List.mem_pair.1 hd with rfl | rfl
    · exact hparent
    · exact .next List.mem_cons_self rfl hparent
  · rintro ⟨s', hrun, hdelivered⟩
    have hblocks : ((start [] 0 none).deliver .numbers parentAndChild).map BlockStore.m_blocks =
        some [CBlock.threeTransactions] := by
      decide +kernel
    rw [hrun] at hblocks
    have honce := hdelivered.once _ (List.mem_cons_of_mem _ List.mem_cons_self)
    rw [Option.some.inj hblocks] at honce
    exact absurd honce (by decide)

end BlockStore

end TriTip
