import TriTip.Block.MerkleTree

/-!
# Checking blocks

`CBlock::CheckBlock` (`bitcoin_messages_handlers.cpp`). As it refuses a block with a repeated
transaction, the header of a block says what its transactions are, although lists of different
lengths can have one Merkle root (`vtx_of_hashMerkleRoot`).
-/

namespace TriTip

/-- The tests of `CheckBlock`, by what they say; `notBuilt` is a failing assert of `GetTxHash` or an
access out of range. -/
inductive BlockError where
  | sizeLimits
  | proofOfWork
  | timestamp
  | firstNotCoinbase
  | moreThanOneCoinbase
  | transaction (e : TransactionError)
  | duplicateTransaction
  | sigOpCount
  | hashMerkleRoot
  | notBuilt
  deriving DecidableEq

/-- The first argument of `state.DoS`; a timestamp is merely invalid. -/
def BlockError.nDoS : BlockError → Int32
  | .proofOfWork => 50
  | .timestamp => 0
  | .transaction e => e.nDoS
  | _ => 100

/-- An access out of range, or a failing assert. -/
def orNotBuilt {α : Type} (x : Option α) : Except BlockError α := x.elim (.error .notBuilt) .ok

@[simp] theorem orNotBuilt_eq_ok {α : Type} {x : Option α} {a : α} :
    orNotBuilt x = .ok a ↔ x = some a := by
  cases x with
  | none => exact ⟨nofun, nofun⟩
  | some b => simp [orNotBuilt]

/-- What the tests of blocks use besides. -/
structure BlockRules (H : Type) extends Consensus H where
  blockHash : CBlockHeader H → H
  blockSize : CBlock H → Nat
  CheckProofOfWork : H → (nBits : UInt32) → Bool

section

variable {H : Type}

def CBlock.GetHash (R : BlockRules H) (block : CBlock H) : H := R.blockHash block.toCBlockHeader

def CBlockHeader.GetBlockTime (block : CBlockHeader H) : Int64 :=
  Int64.ofInt block.nTime.toNat

def GetLegacySigOpCount (R : Consensus H) (tx : CTransaction H) : UInt32 :=
  (tx.vin.map fun txin => R.GetSigOpCount txin.scriptSig).sum +
    (tx.vout.map fun txout => R.GetSigOpCount txout.scriptPubKey).sum

variable [Zero H] [DecidableEq H]

/-- The tests up to that of the transactions. -/
def CheckContents (R : BlockRules H) (nAdjustedTime : Int64) (fCheckPOW : Bool) (block : CBlock H) :
    Except BlockError Unit := do
  ensure (!(block.vtx.isEmpty || R.MAX_BLOCK_SIZE < block.vtx.length ||
    R.MAX_BLOCK_SIZE < R.blockSize block)) .sizeLimits
  ensure (!(fCheckPOW && !R.CheckProofOfWork (block.GetHash R) block.nBits)) .proofOfWork
  ensure (!nAdjustedTime + 2 * 60 * 60 < block.GetBlockTime) .timestamp
  -- First transaction must be coinbase, the rest must not be
  ensure (block.vtx.head?.any CTransaction.IsCoinBase) .firstNotCoinbase
  ensure (!block.vtx.tail.any CTransaction.IsCoinBase) .moreThanOneCoinbase
  for tx in block.vtx do
    match CheckTransaction R.toConsensus tx with
    | .ok () => pure ()
    | .error e => throw (.transaction e)

/-- `CheckBlock`, with the block as it is left, its tree built. -/
def CheckBlock (R : BlockRules H) (nAdjustedTime : Int64) (fCheckPOW fCheckMerkleRoot : Bool)
    (block : CBlock H) : Except BlockError (CBlock H) := do
  CheckContents R nAdjustedTime fCheckPOW block
  let (_, block) ← orNotBuilt (block.BuildMerkleTree R.toConsensus)
  let hashes ← orNotBuilt ((List.range block.vtx.length).mapM block.GetTxHash)
  ensure (hashes.dedup.length == block.vtx.length) .duplicateTransaction
  ensure (!R.MAX_BLOCK_SIGOPS < (block.vtx.map (GetLegacySigOpCount R.toConsensus)).sum) .sigOpCount
  let (root, block) ← orNotBuilt (block.BuildMerkleTree R.toConsensus)
  ensure (!(fCheckMerkleRoot && block.hashMerkleRoot != root)) .hashMerkleRoot
  return block

/-! ## What an accepted block is -/

variable {R : BlockRules H} {nAdjustedTime : Int64} {fCheckPOW fCheckMerkleRoot : Bool}
  {block block' : CBlock H}

theorem mapM_eq_some {ι α : Type} {l : List ι} {f : ι → Option α} {g : ι → α}
    (h : ∀ i ∈ l, f i = some (g i)) : l.mapM f = some (l.map g) := by
  induction l with
  | nil => rfl
  | cons i l ih =>
    rw [List.mapM_cons, h i List.mem_cons_self, ih fun j hj => h j (List.mem_cons_of_mem i hj)]
    rfl

omit [DecidableEq H] in
/-- The hashes that `CheckBlock` compares are those of the transactions. -/
theorem txHashes_eq {block built : CBlock H} {root : H} (hvtx : block.vtx ≠ [])
    (h : block.BuildMerkleTree R.toConsensus = some (root, built)) :
    (List.range built.vtx.length).mapM built.GetTxHash = some (block.vtx.map R.txHash) := by
  rw [CBlock.BuildMerkleTree_eq] at h
  obtain ⟨-, rfl⟩ := Prod.mk.inj (Option.some.inj h)
  have hne : Merkle.tree R.Hash (block.vtx.map R.txHash) ≠ [] :=
    Merkle.tree_ne_nil (by simpa using hvtx)
  rw [mapM_eq_some (g := fun i => (block.vtx.map R.txHash)[i]?.getD 0)]
  · congr 1
    refine List.ext_getElem (by simp) fun i h₁ h₂ => ?_
    simp [List.getElem?_eq_getElem (by simpa using h₂ : i < block.vtx.length)]
  · intro i hi
    have hlt : i < block.vtx.length := List.mem_range.1 hi
    have hltm : i < (block.vtx.map R.txHash).length := by rwa [List.length_map]
    unfold CBlock.GetTxHash
    rw [if_pos ⟨List.length_pos_of_ne_nil hne, hlt⟩, CBlock.getElem?_tree hltm,
      List.getElem?_eq_getElem hltm]
    rfl

theorem vtx_ne_nil_of_checkContents
    (h : CheckContents R nAdjustedTime fCheckPOW block = .ok ()) : block.vtx ≠ [] := by
  obtain ⟨_, hsize, -⟩ := exists_of_bind_eq_ok h
  rw [ensure_eq_ok] at hsize
  rintro hnil
  rw [hnil] at hsize
  cases hsize

/-- What `CheckBlock` has seen of a block it accepts. -/
structure Checked (R : BlockRules H) (fCheckMerkleRoot : Bool) (block : CBlock H) : Prop where
  ne_nil : block.vtx ≠ []
  nodup : (block.vtx.map R.txHash).Nodup
  root : fCheckMerkleRoot = true →
    Merkle.root R.Hash (block.vtx.map R.txHash) = some block.hashMerkleRoot

/-- **An accepted block has no repeated transactions**, and its root is that of its header. -/
theorem checked_of_checkBlock
    (h : CheckBlock R nAdjustedTime fCheckPOW fCheckMerkleRoot block = .ok block') :
    Checked R fCheckMerkleRoot block := by
  obtain ⟨_, hcontents, h⟩ := exists_of_bind_eq_ok h
  have hne := vtx_ne_nil_of_checkContents hcontents
  obtain ⟨⟨root, built⟩, hbuilt, h⟩ := exists_of_bind_eq_ok h
  rw [orNotBuilt_eq_ok, CBlock.BuildMerkleTree_eq] at hbuilt
  obtain ⟨-, rfl⟩ := Prod.mk.inj (Option.some.inj hbuilt)
  obtain ⟨hashes, hhashes, h⟩ := exists_of_bind_eq_ok h
  rw [orNotBuilt_eq_ok, txHashes_eq hne (CBlock.BuildMerkleTree_eq block)] at hhashes
  obtain rfl := Option.some.inj hhashes
  obtain ⟨_, hdup, h⟩ := exists_of_bind_eq_ok h
  obtain ⟨_, -, h⟩ := exists_of_bind_eq_ok h
  obtain ⟨⟨root', rebuilt⟩, hrebuilt, h⟩ := exists_of_bind_eq_ok h
  rw [orNotBuilt_eq_ok, CBlock.BuildMerkleTree_eq] at hrebuilt
  obtain ⟨rfl, rfl⟩ := Prod.mk.inj (Option.some.inj hrebuilt)
  obtain ⟨_, hroot, -⟩ := exists_of_bind_eq_ok h
  refine ⟨hne, ?_, fun hcheck => ?_⟩
  · rw [ensure_eq_ok, beq_iff_eq, ← List.length_map R.txHash] at hdup
    rw [← List.dedup_eq_self]
    exact (List.dedup_sublist _).eq_of_length hdup
  · have hmap : block.vtx.map R.txHash ≠ [] := by simpa using hne
    have htree : Merkle.tree R.Hash (block.vtx.map R.txHash) ≠ [] := Merkle.tree_ne_nil hmap
    have hlast := List.getLast?_eq_some_getLast htree
    rw [Merkle.getLast?_tree hmap] at hlast
    rw [ensure_eq_ok, hcheck, Bool.true_and, Bool.not_eq_true', bne_eq_false_iff_eq] at hroot
    rw [hroot, hlast]
    rfl

end

/-- **The header of a block says what its transactions are.** Two blocks that `CheckBlock` accepts
with one Merkle root have the same transaction hashes, unless hashes collide; no block with repeated
transactions appended to an accepted one is accepted. -/
theorem vtx_of_hashMerkleRoot {H : Type} [Zero H] [DecidableEq H] (R : BlockRules H)
    (nAdjustedTime nAdjustedTime' : Int64) (fCheckPOW fCheckPOW' : Bool)
    (block block' built built' : CBlock H)
    (hblock : CheckBlock R nAdjustedTime fCheckPOW true block = .ok built)
    (hblock' : CheckBlock R nAdjustedTime' fCheckPOW' true block' = .ok built')
    (hroot : block.hashMerkleRoot = block'.hashMerkleRoot)
    (hcollision : Merkle.CollisionFree R.Hash (block.vtx.map R.txHash) (block'.vtx.map R.txHash)) :
    block.vtx.map R.txHash = block'.vtx.map R.txHash ∧
      ∀ repeated : List (CTransaction H), repeated ≠ [] → (∀ tx ∈ repeated, tx ∈ block.vtx) →
        ∀ nAdjustedTime fCheckPOW built'', CheckBlock R nAdjustedTime fCheckPOW true
          { block with vtx := block.vtx ++ repeated } ≠ .ok built'' := by
  have hchecked := checked_of_checkBlock hblock
  have hchecked' := checked_of_checkBlock hblock'
  refine ⟨?_, fun extra hextra hmem _ _ built'' haccept => ?_⟩
  · refine Merkle.root_injective hchecked.nodup hchecked'.nodup (by simpa using hchecked.ne_nil)
      (by simpa using hchecked'.ne_nil) hcollision ?_
    rw [hchecked.root rfl, hchecked'.root rfl, hroot]
  · have hnodup := (checked_of_checkBlock haccept).nodup
    obtain ⟨tx, htx⟩ := List.exists_mem_of_ne_nil extra hextra
    rw [List.map_append] at hnodup
    exact List.disjoint_of_nodup_append hnodup
      (List.mem_map_of_mem (hmem tx htx)) (List.mem_map_of_mem htx)

/-- Rules under which numbers are hashes. -/
def BlockRules.numbers : BlockRules Nat where
  toConsensus := .numbers
  blockHash := fun header => header.nNonce.toNat + 500
  blockSize := fun _ => 500
  CheckProofOfWork := fun _ _ => true

/-- Two headers over three transactions. -/
theorem vtx_of_hashMerkleRoot_threeTransactions :
    CBlock.threeTransactions.vtx.map BlockRules.numbers.txHash =
        ({ CBlock.threeTransactions with nNonce := 1 }).vtx.map BlockRules.numbers.txHash ∧
      ∀ repeated : List (CTransaction Nat), repeated ≠ [] →
        (∀ tx ∈ repeated, tx ∈ CBlock.threeTransactions.vtx) →
        ∀ nAdjustedTime fCheckPOW built'',
          CheckBlock BlockRules.numbers nAdjustedTime fCheckPOW true
          { CBlock.threeTransactions with vtx := CBlock.threeTransactions.vtx ++ repeated } ≠
            .ok built'' := by
  have hinj : Function.Injective2 BlockRules.numbers.Hash := by
    intro a c b d h
    exact Nat.pair_eq_pair.1 (Nat.add_right_cancel h)
  have hsmall : ∀ a ∈ CBlock.threeTransactions.vtx.map BlockRules.numbers.txHash ++
      ({ CBlock.threeTransactions with nNonce := 1 }).vtx.map BlockRules.numbers.txHash, a ≤ 3 := by
    decide
  have hleaf : ∀ a ∈ CBlock.threeTransactions.vtx.map BlockRules.numbers.txHash ++
      ({ CBlock.threeTransactions with nNonce := 1 }).vtx.map BlockRules.numbers.txHash,
      ∀ x y, BlockRules.numbers.Hash x y ≠ a := by
    intro a ha x y hxy
    have hle : a ≤ 3 := hsmall a ha
    have hge : 1000 ≤ BlockRules.numbers.Hash x y := Nat.le_add_left 1000 _
    omega
  exact vtx_of_hashMerkleRoot .numbers 0 0 true true .threeTransactions
    { CBlock.threeTransactions with nNonce := 1 } _ _ rfl rfl rfl
    (.of_injective hinj hleaf)

end TriTip
