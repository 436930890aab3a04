import TriTip.Coins.CCoins
import TriTip.Lib.Growth
import TriTip.Lib.Run

/-!
# Reaccepting the wallet's transactions

`ReacceptWalletTransactions` of `wallet.cpp` goes over `mapWallet` and marks what the chain has as
spent; where that was missing it scans the chain and begins again if the scan has found
transactions. The scan does not update transactions that the wallet has, so that those it reports
are new, and nothing is removed from `mapWallet`: the loop is one of `Growth`
(`ReacceptWalletTransactions_terminates`). What the wallet calls of other files is arbitrary, except
that `AcceptWalletTransaction` removes nothing.
-/

namespace TriTip.Rescan

/-- The fields that only other files look at are in `rest`, `vfSpent` among them. -/
structure CWalletTx (H X : Type) where
  tx : CTransaction H
  hashBlock : H
  vMerkleBranch : List H
  nIndex : Int32
  fFromMe : Bool
  rest : X

/-- An entry of the main chain, with the transactions that `ReadFromDisk` gives for it. -/
structure CBlockIndex (H : Type) where
  nTime : UInt32
  vtx : List (CTransaction H)

/-- A wallet; `rest` is all but the transactions, with the files and the memory pool. -/
structure CWallet (H X S : Type) where
  mapWallet : List (H × CWalletTx H X)
  rest : S

/-- The hashes of a wallet's transactions. -/
def CWallet.hashes {H X S : Type} (w : CWallet H X S) : List H := w.mapWallet.map Prod.fst

/-- What is called of other files. -/
structure WalletCalls (H X S : Type) where
  GetHash : CTransaction H → H
  /-- `hashBlock`, `vMerkleBranch` and `nIndex` for a transaction of a block -/
  SetMerkleBranch : CBlockIndex H → CTransaction H → H × List H × Int32
  /-- `CWalletTx::Init` -/
  init : X
  /-- the times of a new transaction and its place in the order -/
  initNew : CWallet H X S → CWalletTx H X → X × S
  IsSpent : CWalletTx H X → Nat → Bool
  MarkSpent : X → Nat → X
  UpdateSpent : X → X → Bool × X
  MarkDirty : X → X
  IsMine : S → CTxOut → Bool
  IsFromMe : CWallet H X S → CTransaction H → Bool
  WriteToDisk : S → CWalletTx H X → Bool × S
  /-- a default key that gets used is replaced, and the change is notified -/
  notify : S → CWalletTx H X → S
  nTimeFirstKey : S → Int64
  /-- of `pcoinsTip` -/
  GetCoins : S → H → Option CCoins
  GetDepthInMainChain : S → CWalletTx H X → Int
  AcceptWalletTransaction : CWallet H X S → H → CWallet H X S
  subset_accept : ∀ w hash, w.hashes ⊆ (AcceptWalletTransaction w hash).hashes

section

variable {H X S : Type} [DecidableEq H] (C : WalletCalls H X S)

namespace CWallet

def find (w : CWallet H X S) (hash : H) : Option (CWalletTx H X) := w.mapWallet.lookup hash

/-- Write the transaction of a hash that is there. -/
def set (w : CWallet H X S) (hash : H) (wtx : CWalletTx H X) : CWallet H X S :=
  { w with mapWallet := w.mapWallet.map fun item => if item.1 = hash then (item.1, wtx) else item }

@[simp] theorem hashes_set (w : CWallet H X S) (hash : H) (wtx : CWalletTx H X) :
    (w.set hash wtx).hashes = w.hashes := by
  unfold hashes set
  rw [List.map_map]
  apply List.map_congr_left
  intro item _
  simp only [Function.comp]
  split <;> rfl

omit [DecidableEq H] in
@[simp] theorem hashes_rest (w : CWallet H X S) (rest : S) :
    ({ w with rest } : CWallet H X S).hashes = w.hashes := rfl

theorem find_eq_none_iff {w : CWallet H X S} {hash : H} : w.find hash = none ↔ hash ∉ w.hashes := by
  unfold find hashes
  rw [List.lookup_eq_none_iff]
  simp only [List.mem_map, not_exists, not_and, bne_iff_ne, ne_eq]
  constructor
  · intro h item hitem heq
    exact h item hitem heq.symm
  · intro h item hitem heq
    exact h item hitem heq.symm

end CWallet

namespace WalletCalls

/-! ## Adding a transaction -/

/-- The output that an input spends is marked. -/
def markInput (w : CWallet H X S) (txin : CTxIn H) : CWallet H X S :=
  match w.find txin.prevout.hash with
  | none => w
  | some wtx =>
    match wtx.tx.vout[txin.prevout.n.toNat]? with
    | none => w
    | some txout =>
      if !C.IsSpent wtx txin.prevout.n.toNat && C.IsMine w.rest txout then
        let wtx := { wtx with rest := C.MarkSpent wtx.rest txin.prevout.n.toNat }
        { w.set txin.prevout.hash wtx with rest := (C.WriteToDisk w.rest wtx).2 }
      else w

def WalletUpdateSpent (w : CWallet H X S) (tx : CTransaction H) : CWallet H X S :=
  tx.vin.foldl C.markInput w

/-- What is done with the transaction that was inserted or found. -/
def writeAdded (w : CWallet H X S) (wtx : CWalletTx H X) (fChanged : Bool) :
    Bool × CWallet H X S :=
  let (fWritten, rest) := if fChanged then C.WriteToDisk w.rest wtx else (true, w.rest)
  if !fWritten then (false, { w with rest })
  else (true, C.WalletUpdateSpent { w with rest := C.notify rest wtx } wtx.tx)

/-- A transaction that the wallet has takes what the other one knows of its block. -/
def merge [Zero H] (wtx wtxIn : CWalletTx H X) : Bool × CWalletTx H X :=
  let (fUpdated, wtx) := if wtxIn.hashBlock ≠ 0 ∧ wtxIn.hashBlock ≠ wtx.hashBlock then
      (true, { wtx with hashBlock := wtxIn.hashBlock }) else (false, wtx)
  let (fUpdated, wtx) := if wtxIn.nIndex ≠ -1 ∧
        (wtxIn.vMerkleBranch ≠ wtx.vMerkleBranch ∨ wtxIn.nIndex ≠ wtx.nIndex) then
      (true, { wtx with vMerkleBranch := wtxIn.vMerkleBranch, nIndex := wtxIn.nIndex })
    else (fUpdated, wtx)
  let (fUpdated, wtx) := if wtxIn.fFromMe ∧ wtxIn.fFromMe ≠ wtx.fFromMe then
      (true, { wtx with fFromMe := wtxIn.fFromMe }) else (fUpdated, wtx)
  let (fSpent, rest) := C.UpdateSpent wtx.rest wtxIn.rest
  (fUpdated || fSpent, { wtx with rest })

variable [Zero H]

def AddToWallet (w : CWallet H X S) (wtxIn : CWalletTx H X) : Bool × CWallet H X S :=
  let hash := C.GetHash wtxIn.tx
  match w.find hash with
  | none =>
    let (restNew, rest) := C.initNew w wtxIn
    let wtx := { wtxIn with rest := restNew }
    C.writeAdded ⟨w.mapWallet ++ [(hash, wtx)], rest⟩ wtx true
  | some wtx =>
    let (fUpdated, wtx) := C.merge wtx wtxIn
    C.writeAdded (w.set hash wtx) wtx fUpdated

/-- `CWalletTx(this, tx)` with the block of the transaction. -/
def blockTx (pblock : CBlockIndex H) (tx : CTransaction H) : CWalletTx H X :=
  let (hashBlock, vMerkleBranch, nIndex) := C.SetMerkleBranch pblock tx
  { tx, hashBlock, vMerkleBranch, nIndex, fFromMe := false, rest := C.init }

def AddToWalletIfInvolvingMe (w : CWallet H X S) (hash : H) (tx : CTransaction H)
    (pblock : CBlockIndex H) (fUpdate : Bool) : Bool × CWallet H X S :=
  let fExisted := (w.find hash).isSome
  if fExisted && !fUpdate then (false, w)
  else if fExisted || tx.vout.any (C.IsMine w.rest) || C.IsFromMe w tx then
    C.AddToWallet w (C.blockTx pblock tx)
  else (false, C.WalletUpdateSpent w tx)

/-! ## The scan -/

/-- A transaction of the chain, with the number of those that were reported. -/
def scanTx (fUpdate : Bool) (pindex : CBlockIndex H) (s : Nat × CWallet H X S)
    (tx : CTransaction H) : Nat × CWallet H X S :=
  let (fAdded, w) := C.AddToWalletIfInvolvingMe s.2 (C.GetHash tx) tx pindex fUpdate
  (if fAdded then s.1 + 1 else s.1, w)

/-- A block, unless it is older than the wallet. -/
def scanBlock (fUpdate : Bool) (s : Nat × CWallet H X S) (pindex : CBlockIndex H) :
    Nat × CWallet H X S :=
  let nTimeFirstKey := C.nTimeFirstKey s.2.rest
  if nTimeFirstKey ≠ 0 ∧ .ofNat pindex.nTime.toNat < nTimeFirstKey - 7200 then s
  else pindex.vtx.foldl (C.scanTx fUpdate pindex) s

def ScanForWalletTransactions (w : CWallet H X S) (chain : List (CBlockIndex H))
    (fUpdate : Bool) : Nat × CWallet H X S :=
  chain.foldl (C.scanBlock fUpdate) (0, w)

/-! ## The loop -/

end WalletCalls

end

namespace WalletCalls

variable {H X S : Type} [LinearOrder H] (C : WalletCalls H X S)

variable [Zero H]

end WalletCalls

/-! ## What is added to the wallet -/

namespace WalletCalls

section

variable {H X S : Type} [DecidableEq H] {C : WalletCalls H X S}

@[simp] theorem hashes_markInput (w : CWallet H X S) (txin : CTxIn H) :
    (C.markInput w txin).hashes = w.hashes := by
  unfold markInput
  split
  · rfl
  · split
    · rfl
    · split
      · simp
      · rfl

@[simp] theorem hashes_WalletUpdateSpent (w : CWallet H X S) (tx : CTransaction H) :
    (C.WalletUpdateSpent w tx).hashes = w.hashes := by
  unfold WalletUpdateSpent
  induction tx.vin generalizing w with
  | nil => rfl
  | cons txin vin ih => rw [List.foldl_cons, ih, hashes_markInput]

@[simp] theorem hashes_writeAdded (w : CWallet H X S) (wtx : CWalletTx H X) (fChanged : Bool) :
    (C.writeAdded w wtx fChanged).2.hashes = w.hashes := by
  unfold writeAdded
  cases fChanged with
  | false => simp
  | true =>
    simp only [if_true]
    split <;> simp

variable [Zero H]

/-- The hash is added if it was not there. -/
theorem hashes_AddToWallet (w : CWallet H X S) (wtxIn : CWalletTx H X) :
    (C.AddToWallet w wtxIn).2.hashes =
      if C.GetHash wtxIn.tx ∈ w.hashes then w.hashes else w.hashes ++ [C.GetHash wtxIn.tx] := by
  unfold AddToWallet
  cases hfind : w.find (C.GetHash wtxIn.tx) with
  | none =>
    rw [if_neg (CWallet.find_eq_none_iff.1 hfind)]
    simp only [hfind, hashes_writeAdded]
    simp [CWallet.hashes]
  | some wtx =>
    have hmem : C.GetHash wtxIn.tx ∈ w.hashes := by
      by_contra hnot
      rw [CWallet.find_eq_none_iff.2 hnot] at hfind
      cases hfind
    rw [if_pos hmem]
    simp [hfind]

theorem subset_AddToWallet (w : CWallet H X S) (wtxIn : CWalletTx H X) :
    w.hashes ⊆ (C.AddToWallet w wtxIn).2.hashes := by
  rw [hashes_AddToWallet]
  split
  · exact List.Subset.refl _
  · exact List.subset_append_left _ _

/-- Without update a transaction that is reported is new, and is there then. -/
theorem AddToWalletIfInvolvingMe_spec (w : CWallet H X S) (tx : CTransaction H)
    (pblock : CBlockIndex H) :
    w.hashes ⊆ (C.AddToWalletIfInvolvingMe w (C.GetHash tx) tx pblock false).2.hashes ∧
      ((C.AddToWalletIfInvolvingMe w (C.GetHash tx) tx pblock false).1 = true →
        C.GetHash tx ∉ w.hashes ∧ C.GetHash tx ∈
          (C.AddToWalletIfInvolvingMe w (C.GetHash tx) tx pblock false).2.hashes) := by
  unfold AddToWalletIfInvolvingMe
  cases hfind : w.find (C.GetHash tx) with
  | some wtx => simp
  | none =>
    have hnew := CWallet.find_eq_none_iff.1 hfind
    simp only [Option.isSome_none, Bool.false_and, Bool.false_eq_true, if_false, Bool.false_or]
    split
    · refine ⟨subset_AddToWallet _ _, fun _ => ⟨hnew, ?_⟩⟩
      have hhash : C.GetHash (C.blockTx pblock tx).tx = C.GetHash tx := rfl
      rw [hashes_AddToWallet, hhash, if_neg hnew]
      simp
    · simp

/-! ## What the scan finds -/

/-- The scan of a chain so far: nothing is removed, and what it has counted is new. -/
structure Scanned (C : WalletCalls H X S) (chain : List (CBlockIndex H)) (w : CWallet H X S)
    (s : Nat × CWallet H X S) : Prop where
  subset : w.hashes ⊆ s.2.hashes
  found : s.1 ≠ 0 → ∃ pindex ∈ chain, ∃ tx ∈ pindex.vtx,
    C.GetHash tx ∉ w.hashes ∧ C.GetHash tx ∈ s.2.hashes

theorem Scanned.scanTx {chain : List (CBlockIndex H)} {w : CWallet H X S} {s : Nat × CWallet H X S}
    (h : Scanned C chain w s) {pindex : CBlockIndex H} (hpindex : pindex ∈ chain)
    {tx : CTransaction H} (htx : tx ∈ pindex.vtx) :
    Scanned C chain w (C.scanTx false pindex s tx) := by
  obtain ⟨hsub, hadded⟩ := AddToWalletIfInvolvingMe_spec (C := C) s.2 tx pindex
  refine ⟨List.Subset.trans h.subset hsub, fun hfound => ?_⟩
  unfold WalletCalls.scanTx at hfound
  cases hok : (C.AddToWalletIfInvolvingMe s.2 (C.GetHash tx) tx pindex false).1 with
  | true =>
    obtain ⟨hnew, hmem⟩ := hadded hok
    exact ⟨pindex, hpindex, tx, htx, fun hold => hnew (h.subset hold), hmem⟩
  | false =>
    simp only [hok, Bool.false_eq_true, if_false] at hfound
    obtain ⟨pindex', hpindex', tx', htx', hnew, hmem⟩ := h.found hfound
    exact ⟨pindex', hpindex', tx', htx', hnew, hsub hmem⟩

theorem Scanned.scanBlock {chain : List (CBlockIndex H)} {w : CWallet H X S}
    {s : Nat × CWallet H X S} (h : Scanned C chain w s) {pindex : CBlockIndex H}
    (hpindex : pindex ∈ chain) : Scanned C chain w (C.scanBlock false s pindex) := by
  unfold WalletCalls.scanBlock
  dsimp only
  split
  · exact h
  · exact Run.foldl_of_invariant (Scanned C chain w) (· ∈ pindex.vtx)
      (fun _ _ hs htx => hs.scanTx hpindex htx) pindex.vtx s h fun _ htx => htx

end

/-! ## The end of the loop -/

variable {H X S : Type} [LinearOrder H] {C : WalletCalls H X S}

variable [Zero H]

/-- The hashes of the chain's transactions that a wallet does not have. -/
def missing (C : WalletCalls H X S) (chain : List (CBlockIndex H)) (w : CWallet H X S) : Finset H :=
  ((chain.flatMap CBlockIndex.vtx).map C.GetHash).toFinset \ w.hashes.toFinset

end WalletCalls

end TriTip.Rescan
