import TriTip.Block.MerkleTree
import TriTip.Lib.OrdMap

/-!
# Packing approved transactions into blocks

The loop `g` of `ttchainStorage.h`, with `SetNull` and `IsNull` of `core.h` and `bitcoin_block.h`.
Where a block goes on disk is left out: writing one is putting it at the end of a list.

All approved transactions are written, in the order of their keys (`g_written`). But a block is
written where it `IsNull`, and its `nBits` are never set; so the block of before the first
transaction is written too (`g_not_packs`).
-/

namespace TriTip

open Std

variable {H : Type} [Zero H]

def CBlockHeader.CURRENT_VERSION : Int32 := 2

/-- `CBlock()`, and a block after `SetNull`. -/
def CBlock.null : CBlock H where
  nVersion := CBlockHeader.CURRENT_VERSION
  hashPrevBlock := 0
  hashMerkleRoot := 0
  nTime := 0
  nBits := 0
  nNonce := 0
  vtx := []
  vMerkleTree := []

def CBlock.IsNull (block : CBlock H) : Bool := block.nBits = 0

namespace ChainStorage

def blockCountLimit : Int32 := 1000

def blockTimePeriod : Int32 := 10000

/-- The variables of `g`, and the blocks on disk. -/
structure Packing (H : Type) where
  tmpBlockCountLimit : Int32
  tmpBlockTimePeriod : Int32
  block : CBlock H
  written : List (CBlock H)

namespace Packing

def start : Packing H where
  tmpBlockCountLimit := -1
  tmpBlockTimePeriod := -1
  block := .null
  written := []

/-- `block.WriteToDisk()` if `block.IsNull()`. -/
def flush (s : Packing H) : Packing H :=
  if s.block.IsNull then { s with written := s.written ++ [s.block] } else s

/-- A new block, when one of the counters is used up. -/
def renew (s : Packing H) : Packing H :=
  if s.tmpBlockCountLimit < 0 ∨ s.tmpBlockTimePeriod < 0 then
    { s.flush with
      tmpBlockCountLimit := blockCountLimit
      tmpBlockTimePeriod := blockTimePeriod
      block := .null }
  else s

/-- The time counter is an `int`, the key a `long long`. -/
def push (s : Packing H) (key : Int64) (tx : CTransaction H) : Packing H :=
  { s with
    tmpBlockTimePeriod := (s.tmpBlockTimePeriod.toInt64 - key).toInt32
    tmpBlockCountLimit := s.tmpBlockCountLimit - 1
    block := { s.block with vtx := s.block.vtx ++ [tx] } }

/-- The loop, from an iterator on. -/
def loop : List (Int64 × CTransaction H) → Packing H → Packing H
  | [], s => s.flush
  | (key, tx) :: rest, s => loop rest (s.renew.push key tx)

/-- The transactions `done` are packed. What is written begins with the block of before the first
one; the blocks behind it are not empty, and have one transaction more than the limit at most. -/
structure Packed (s : Packing H) (done : List (CTransaction H)) : Prop where
  nBits : s.block.nBits = 0
  written : ∃ blocks, s.written = .null :: blocks ∧
    ∀ b ∈ blocks, 1 ≤ b.vtx.length ∧ b.vtx.length ≤ 1001
  order : (s.written.flatMap fun b => b.vtx) ++ s.block.vtx = done
  low : -1 ≤ s.tmpBlockCountLimit.toInt
  count : s.block.vtx.length + s.tmpBlockCountLimit.toInt ≤ 1000

theorem start_renew_packed : (Packing.renew start : Packing H).Packed [] where
  nBits := rfl
  written := ⟨[], rfl, fun b hb => by cases hb⟩
  order := rfl
  low := (by decide : -1 ≤ blockCountLimit.toInt)
  count := (by decide : (0 : Int) + blockCountLimit.toInt ≤ 1000)

/-- A block with room takes one more transaction. -/
theorem Packed.push {s : Packing H} {done : List (CTransaction H)} (h : s.Packed done)
    (hroom : 0 ≤ s.tmpBlockCountLimit.toInt) (key : Int64) (tx : CTransaction H) :
    (s.push key tx).Packed (done ++ [tx]) := by
  have hcount := h.count
  have hone : (s.tmpBlockCountLimit - 1).toInt = s.tmpBlockCountLimit.toInt - 1 := by
    rw [Int32.toInt_sub, Int32.toInt_one]
    exact Int.bmod_eq_of_le (by omega) (by omega)
  refine ⟨h.nBits, h.written, ?_, ?_, ?_⟩
  · rw [← h.order, List.append_assoc]
    rfl
  · change -1 ≤ (s.tmpBlockCountLimit - 1).toInt
    omega
  · change ((s.block.vtx ++ [tx]).length : Int) + (s.tmpBlockCountLimit - 1).toInt ≤ 1000
    rw [List.length_append, List.length_singleton]
    omega

/-- A block that is not empty is written, as its `nBits` are zero. -/
theorem Packed.flush {s : Packing H} {done : List (CTransaction H)} (h : s.Packed done)
    (hne : s.block.vtx ≠ []) : ∃ blocks, s.flush.written = .null :: blocks ∧
      (∀ b ∈ blocks, 1 ≤ b.vtx.length ∧ b.vtx.length ≤ 1001) ∧
      (s.flush.written.flatMap fun b => b.vtx) = done := by
  obtain ⟨blocks, hwritten, hblocks⟩ := h.written
  have hnull : s.block.IsNull = true := decide_eq_true h.nBits
  have hlow := h.low
  have hcount := h.count
  have hlen := List.length_pos_iff.2 hne
  unfold Packing.flush
  rw [if_pos hnull]
  refine ⟨blocks ++ [s.block], ?_, fun b hb => ?_, ?_⟩
  · rw [hwritten, List.cons_append]
  · rcases List.mem_append.1 hb with hb | hb
    · exact hblocks b hb
    · rw [List.mem_singleton.1 hb]
      omega
  · rw [List.flatMap_append, List.flatMap_singleton, h.order]

/-- After that, the block is a new one if the old one was written, and has room. -/
theorem Packed.renew {s : Packing H} {done : List (CTransaction H)} (h : s.Packed done)
    (hne : s.block.vtx ≠ []) : s.renew.Packed done ∧ 0 ≤ s.renew.tmpBlockCountLimit.toInt := by
  unfold Packing.renew
  split
  · obtain ⟨blocks, hwritten, hblocks, horder⟩ := h.flush hne
    refine ⟨⟨rfl, ⟨blocks, hwritten, hblocks⟩, ?_, ?_, ?_⟩, ?_⟩
    · exact (List.append_nil _).trans horder
    · exact (by decide : -1 ≤ blockCountLimit.toInt)
    · exact (by decide : (0 : Int) + blockCountLimit.toInt ≤ 1000)
    · exact (by decide : 0 ≤ blockCountLimit.toInt)
  · next hopen =>
    rw [not_or, Int32.not_lt, Int32.le_iff_toInt_le] at hopen
    exact ⟨h, hopen.1⟩

theorem loop_packed (l : List (Int64 × CTransaction H)) {s : Packing H}
    {done : List (CTransaction H)} (h : s.Packed done) (hne : s.block.vtx ≠ []) :
    ∃ blocks, (loop l s).written = .null :: blocks ∧
      (∀ b ∈ blocks, 1 ≤ b.vtx.length ∧ b.vtx.length ≤ 1001) ∧
      ((loop l s).written.flatMap fun b => b.vtx) = done ++ l.map fun e => e.2 := by
  induction l generalizing s done with
  | nil =>
    rw [List.map_nil, List.append_nil]
    exact h.flush hne
  | cons e rest ih =>
    obtain ⟨key, tx⟩ := e
    obtain ⟨hrenew, hroom⟩ := h.renew hne
    have hpush := hrenew.push hroom key tx
    have hne' : (s.renew.push key tx).block.vtx ≠ [] :=
      List.append_ne_nil_of_right_ne_nil _ (by simp)
    obtain ⟨blocks, hwritten, hblocks, horder⟩ := ih hpush hne'
    refine ⟨blocks, hwritten, hblocks, horder.trans ?_⟩
    rw [List.append_assoc]
    rfl

end Packing

/-- The blocks that are written. -/
def g (m_approvedTransaction : ExtTreeMap Int64 (CTransaction H) compare) : List (CBlock H) :=
  (Packing.loop m_approvedTransaction.toList .start).written

variable (m_approvedTransaction : ExtTreeMap Int64 (CTransaction H) compare)

/-- **What `g` writes**: a block without transactions, and then all transactions in the order of
their keys, up to 1001 to a block. -/
theorem g_written : ∃ blocks, g m_approvedTransaction = .null :: blocks ∧
    (∀ b ∈ blocks, 1 ≤ b.vtx.length ∧ b.vtx.length ≤ 1001) ∧
    (blocks.flatMap fun b => b.vtx) = m_approvedTransaction.toList.map fun e => e.2 := by
  unfold g
  cases m_approvedTransaction.toList with
  | nil => exact ⟨[], rfl, fun b hb => absurd hb List.not_mem_nil, rfl⟩
  | cons e rest =>
    obtain ⟨key, tx⟩ := e
    have hpacked : (Packing.start.renew.push key tx : Packing H).Packed ([] ++ [tx]) :=
      Packing.start_renew_packed.push (by decide : 0 ≤ blockCountLimit.toInt) key tx
    obtain ⟨blocks, hwritten, hblocks, horder⟩ :=
      Packing.loop_packed rest hpacked (List.append_ne_nil_of_right_ne_nil _ (by simp))
    rw [hwritten] at horder
    exact ⟨blocks, hwritten, hblocks, horder⟩

/-- A packing as it should be: every approved transaction in one block, in the order of the keys,
from 1 to 1000 of them to a block, whose keys span the time period at most. -/
def Packs (approved : List (Int64 × CTransaction H)) (written : List (CBlock H)) : Prop :=
  ∃ chunks : List (List (Int64 × CTransaction H)), chunks.flatten = approved ∧
    (written.map fun b => b.vtx) = chunks.map (fun chunk => chunk.map fun e => e.2) ∧
    (∀ chunk ∈ chunks, 1 ≤ chunk.length ∧ chunk.length ≤ blockCountLimit.toInt) ∧
    ∀ chunk ∈ chunks, ∀ e ∈ chunk, ∀ e' ∈ chunk,
      e'.1.toInt - e.1.toInt ≤ blockTimePeriod.toInt

/-- **No map is packed so.** The first block that is written has no transactions. -/
theorem g_not_packs : ¬Packs m_approvedTransaction.toList (g m_approvedTransaction) := by
  obtain ⟨blocks, hwritten, -⟩ := g_written m_approvedTransaction
  rintro ⟨chunks, -, hchunks, hsize, -⟩
  rw [hwritten, List.map_cons] at hchunks
  cases chunks with
  | nil => cases hchunks
  | cons chunk rest =>
    have hempty : chunk.map (fun e => e.2) = [] := (List.cons.inj hchunks).1.symm
    have hpos := (hsize chunk List.mem_cons_self).1
    rw [List.map_eq_nil_iff.1 hempty] at hpos
    exact absurd hpos (Nat.not_succ_le_zero 0)

section Runs

/-- One approved transaction. -/
def oneApproved : ExtTreeMap Int64 (CTransaction Nat) compare :=
  .ofList [(5, { nVersion := 1, vin := [], vout := [], nLockTime := 0 })] compare

/-- It is in the second of the two blocks that are written. -/
theorem g_oneApproved : ((g oneApproved).map fun b => b.vtx.length) = [0, 1] ∧
    ¬Packs oneApproved.toList (g oneApproved) := by
  have hwritten : ((g oneApproved).map fun b => b.vtx.length) = [0, 1] := by decide +kernel
  refine ⟨hwritten, ?_⟩
  rintro ⟨chunks, -, hchunks, hsize, -⟩
  have hlengths := congrArg (List.map List.length) hchunks
  rw [List.map_map, List.map_map] at hlengths
  cases chunks with
  | nil => exact absurd (hwritten.symm.trans hlengths) (by decide)
  | cons chunk rest =>
    have hempty := (List.cons.inj (hwritten.symm.trans hlengths)).1
    have hpos := (hsize chunk List.mem_cons_self).1
    rw [Function.comp_apply, List.length_map] at hempty
    omega

end Runs

end ChainStorage

end TriTip
