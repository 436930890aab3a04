import TriTip.Lib.Requests
import TriTip.Block.Transaction

/-!
# The transactions that support one

`AddSupportingTransactions` of `wallet.cpp` fills `vtxPrev` of a new transaction with the
transactions it spends and those they spend, down to a depth in the chain, and
`RelayWalletTransaction` sends them before it. A work queue takes the hashes in the order in which
they are asked for, and the result is in the reverse of it. A hash that is in neither of the two
maps adds an empty transaction, and the reverse order need not have parents first:
`AddSupportingTransactions_iff` says for which wallets it does.
-/

namespace TriTip.SupportingTransactions

open Requests

/-- A transaction with `hashBlock`, `vMerkleBranch` and `nIndex`. -/
structure CMerkleTx (H M : Type) where
  tx : CTransaction H
  merkle : M
  deriving DecidableEq

structure CWalletTx (H M : Type) extends CMerkleTx H M where
  vtxPrev : List (CMerkleTx H M)
  deriving DecidableEq

/-- A wallet. `SetMerkleBranch` finds the block of a transaction, and returns the depth in the main
chain. -/
structure CWallet (H M : Type) where
  mapWallet : List (H × CWalletTx H M)
  nodup : (mapWallet.map Prod.fst).Nodup
  GetHash : CTransaction H → H
  hash_eq : ∀ entry ∈ mapWallet, GetHash entry.2.tx = entry.1
  /-- `CMerkleTx::Init` -/
  init : M
  SetMerkleBranch : CMerkleTx H M → M × Int
  GetDepthInMainChain : CMerkleTx H M → Int

def COPY_DEPTH : Int := 3

section

variable {H M : Type}

/-- The hashes that the inputs of a transaction spend. -/
def prevHashes (tx : CTransaction H) : List H := tx.vin.map fun txin => txin.prevout.hash

/-- `CTransaction::SetNull` -/
def nullTransaction : CTransaction H := ⟨1, [], [], 0⟩

/-- The work queue and what the loop keeps with it. -/
structure Work (H M : Type) where
  vWorkQueue : List H
  mapWalletPrev : H → Option (CMerkleTx H M)
  setAlreadyDone : Finset H
  vtxPrev : List (CMerkleTx H M)

namespace CWallet

variable [DecidableEq H] (wallet : CWallet H M)

def find (hash : H) : Option (CWalletTx H M) := wallet.mapWallet.lookup hash

/-- `CMerkleTx()` -/
def nullTx : CMerkleTx H M := ⟨nullTransaction, wallet.init⟩

/-- The transactions kept with one of the wallet go into `mapWalletPrev`. -/
def storePrev (mapWalletPrev : H → Option (CMerkleTx H M)) (vtxPrev : List (CMerkleTx H M)) :
    H → Option (CMerkleTx H M) :=
  vtxPrev.foldl (fun mapWalletPrev txWalletPrev =>
    Function.update mapWalletPrev (wallet.GetHash txWalletPrev.tx) (some txWalletPrev))
    mapWalletPrev

/-- The transaction for a hash, and `mapWalletPrev` after it. -/
def copyTx (mapWalletPrev : H → Option (CMerkleTx H M)) (hash : H) :
    CMerkleTx H M × (H → Option (CMerkleTx H M)) :=
  match wallet.find hash with
  | some mi => (mi.toCMerkleTx, wallet.storePrev mapWalletPrev mi.vtxPrev)
  | none =>
    match mapWalletPrev hash with
    | some tx => (tx, mapWalletPrev)
    | none => (wallet.nullTx, mapWalletPrev)

/-- A hash that is not done. -/
def addTx (s : Work H M) (hash : H) : Work H M :=
  let (tx, mapWalletPrev) := wallet.copyTx s.mapWalletPrev hash
  let (merkle, nDepth) := wallet.SetMerkleBranch tx
  { vWorkQueue := if nDepth < COPY_DEPTH then s.vWorkQueue ++ prevHashes tx.tx else s.vWorkQueue
    mapWalletPrev
    setAlreadyDone := insert hash s.setAlreadyDone
    vtxPrev := s.vtxPrev ++ [{ tx with merkle }] }

/-- The loop over the queue, while it grows. -/
def workLoop : (turns i : Nat) → Work H M → Option (Work H M)
  | 0, _, _ => none
  | turns + 1, i, s =>
    match s.vWorkQueue[i]? with
    | none => some s
    | some hash =>
      if hash ∈ s.setAlreadyDone then workLoop turns (i + 1) s
      else workLoop turns (i + 1) (wallet.addTx s hash)

/-- The transaction, and the hashes that were requested. -/
def AddSupportingTransactions (turns : Nat) (wtx : CWalletTx H M) :
    Option (CWalletTx H M × List H) :=
  let (merkle, nDepth) := wallet.SetMerkleBranch wtx.toCMerkleTx
  let wtx := { wtx with merkle, vtxPrev := [] }
  if nDepth < COPY_DEPTH then
    (wallet.workLoop turns 0 ⟨prevHashes wtx.tx, fun _ => none, ∅, []⟩).map fun s =>
      ({ wtx with vtxPrev := s.vtxPrev.reverse }, s.vWorkQueue)
  else some (wtx, [])

section

variable [Zero H]

/-- Whether a transaction is sent. -/
def isRelayed (tx : CMerkleTx H M) : Bool :=
  !tx.tx.IsCoinBase && wallet.GetDepthInMainChain tx = 0

/-- The transactions that are sent, with their hashes. -/
def RelayWalletTransaction (wtx : CWalletTx H M) : List (CTransaction H × H) :=
  ((wtx.vtxPrev.filter wallet.isRelayed).map fun tx => (tx.tx, wallet.GetHash tx.tx)) ++
    if wallet.isRelayed wtx.toCMerkleTx then [(wtx.tx, wallet.GetHash wtx.tx)] else []

end

/-! ## What is requested -/

/-- `mapWalletPrev` after the hashes so far. -/
def prevOf (before : List H) : H → Option (CMerkleTx H M) :=
  before.foldl (fun mapWalletPrev hash => (wallet.copyTx mapWalletPrev hash).2) fun _ => none

/-- The transaction that a request finds after those before it. -/
def found (before : List H) (hash : H) : CMerkleTx H M :=
  (wallet.copyTx (wallet.prevOf before) hash).1

/-- What a transaction asks for. -/
def asksFor (tx : CMerkleTx H M) : List H :=
  if (wallet.SetMerkleBranch tx).2 < COPY_DEPTH then prevHashes tx.tx else []

/-- What the transaction for a hash asks for. -/
def asks (before : List H) (hash : H) : List H := wallet.asksFor (wallet.found before hash)

/-- The order in which the hashes are first requested for a transaction. -/
def IsRequestOrder (wtx : CWalletTx H M) (order : List H) : Prop :=
  IsOrder (wallet.asksFor wtx.toCMerkleTx) wallet.asks order

/-- A transaction for a hash that is kept with one of the wallet that is requested before. -/
def Kept (before : List H) (hash : H) (tx : CMerkleTx H M) : Prop :=
  ∃ entry ∈ wallet.mapWallet, entry.1 ∈ before ∧ tx ∈ entry.2.vtxPrev ∧
    wallet.GetHash tx.tx = hash

/-- In the wallet, or kept with one of the wallet that is requested before. -/
def Known (before : List H) (hash : H) : Prop :=
  hash ∈ wallet.mapWallet.map Prod.fst ∨ ∃ tx, wallet.Kept before hash tx

theorem find_eq_some_iff {hash : H} {mi : CWalletTx H M} :
    wallet.find hash = some mi ↔ (hash, mi) ∈ wallet.mapWallet := by
  rw [find, List.lookup_eq_some_iff]
  constructor
  · rintro ⟨l₁, l₂, hl, -⟩
    simp [hl]
  · intro hmem
    obtain ⟨l₁, l₂, hl⟩ := List.append_of_mem hmem
    refine ⟨l₁, l₂, hl, fun p hp => ?_⟩
    have hnodup := wallet.nodup
    rw [hl, List.map_append, List.map_cons, List.nodup_middle, List.nodup_cons] at hnodup
    rw [bne_iff_ne]
    intro heq
    apply hnodup.1
    exact List.mem_append_left _ (List.mem_map.2 ⟨p, hp, heq.symm⟩)

theorem find_eq_none_iff {hash : H} :
    wallet.find hash = none ↔ hash ∉ wallet.mapWallet.map Prod.fst := by
  rw [find, List.lookup_eq_none_iff, List.mem_map]
  constructor
  · rintro hnone ⟨p, hp, rfl⟩
    simpa using hnone p hp
  · rintro hnot p hp
    rw [bne_iff_ne]
    rintro rfl
    exact hnot ⟨p, hp, rfl⟩

theorem storePrev_cases (m : H → Option (CMerkleTx H M)) (vtxPrev : List (CMerkleTx H M))
    (hash : H) :
    (∃ tx ∈ vtxPrev, wallet.GetHash tx.tx = hash ∧ wallet.storePrev m vtxPrev hash = some tx) ∨
      (∀ tx ∈ vtxPrev, wallet.GetHash tx.tx ≠ hash) ∧
        wallet.storePrev m vtxPrev hash = m hash := by
  unfold storePrev
  induction vtxPrev using List.reverseRecOn with
  | nil => exact .inr ⟨by simp, rfl⟩
  | append_singleton vtxPrev t ih =>
    rw [List.foldl_append, List.foldl_cons, List.foldl_nil]
    by_cases ht : wallet.GetHash t.tx = hash
    · subst ht
      exact .inl ⟨t, by simp, rfl, Function.update_self _ _ _⟩
    · rw [Function.update_of_ne (Ne.symm ht)]
      rcases ih with ⟨tx, hmem, hhash, hstore⟩ | ⟨hnone, hstore⟩
      · exact .inl ⟨tx, List.mem_append_left _ hmem, hhash, hstore⟩
      · refine .inr ⟨fun tx hmem => ?_, hstore⟩
        rcases List.mem_append.1 hmem with hmem | hmem
        · exact hnone tx hmem
        · rwa [List.mem_singleton.1 hmem]

theorem prevOf_concat (before : List H) (hash : H) :
    wallet.prevOf (before ++ [hash]) = (wallet.copyTx (wallet.prevOf before) hash).2 := by
  simp [prevOf]

/-- A hash that is not in the wallet keeps nothing. -/
theorem kept_concat_of_none {before : List H} {h hash : H} {tx : CMerkleTx H M}
    (hfind : wallet.find h = none) :
    wallet.Kept (before ++ [h]) hash tx ↔ wallet.Kept before hash tx := by
  apply exists_congr
  intro entry
  apply and_congr_right
  intro hentry
  have hne : entry.1 ≠ h := by
    rintro rfl
    exact wallet.find_eq_none_iff.1 hfind (List.mem_map_of_mem hentry)
  simp [hne]

/-- A transaction of the wallet keeps its `vtxPrev`. -/
theorem kept_concat_of_some {before : List H} {h hash : H} {tx : CMerkleTx H M}
    {mi : CWalletTx H M} (hfind : wallet.find h = some mi) :
    wallet.Kept (before ++ [h]) hash tx ↔
      wallet.Kept before hash tx ∨ tx ∈ mi.vtxPrev ∧ wallet.GetHash tx.tx = hash := by
  constructor
  · rintro ⟨entry, hentry, hbefore, htx, hhash⟩
    rcases List.mem_append.1 hbefore with hbefore | hlast
    · exact .inl ⟨entry, hentry, hbefore, htx, hhash⟩
    · obtain ⟨_, mi'⟩ := entry
      obtain rfl := List.mem_singleton.1 hlast
      have hsame := wallet.find_eq_some_iff.2 hentry
      obtain rfl := Option.some.inj (hfind.symm.trans hsame)
      exact .inr ⟨htx, hhash⟩
  · rintro (⟨entry, hentry, hbefore, htx, hhash⟩ | ⟨htx, hhash⟩)
    · exact ⟨entry, hentry, List.mem_append_left _ hbefore, htx, hhash⟩
    · exact ⟨(h, mi), wallet.find_eq_some_iff.1 hfind, by simp, htx, hhash⟩

/-- `mapWalletPrev` has a transaction for each hash of one that is kept. -/
theorem prevOf_cases (before : List H) (hash : H) :
    (∃ tx, wallet.Kept before hash tx ∧ wallet.prevOf before hash = some tx) ∨
      (∀ tx, ¬wallet.Kept before hash tx) ∧ wallet.prevOf before hash = none := by
  induction before using List.reverseRecOn with
  | nil => exact .inr ⟨by simp [Kept], rfl⟩
  | append_singleton before h ih =>
    rw [prevOf_concat]
    cases hfind : wallet.find h with
    | none =>
      have hcopy : (wallet.copyTx (wallet.prevOf before) h).2 = wallet.prevOf before := by
        simp only [copyTx, hfind]
        split <;> rfl
      simpa only [hcopy, wallet.kept_concat_of_none hfind] using ih
    | some mi =>
      have hcopy : (wallet.copyTx (wallet.prevOf before) h).2 =
          wallet.storePrev (wallet.prevOf before) mi.vtxPrev := by
        simp only [copyTx, hfind]
      simp only [hcopy, wallet.kept_concat_of_some hfind]
      rcases wallet.storePrev_cases (wallet.prevOf before) mi.vtxPrev hash with
        ⟨tx, htx, hhash, hstore⟩ | ⟨hnone, hstore⟩
      · exact .inl ⟨tx, .inr ⟨htx, hhash⟩, hstore⟩
      · rw [hstore]
        rcases ih with ⟨tx, htx, hprev⟩ | ⟨hnot, hprev⟩
        · exact .inl ⟨tx, .inl htx, hprev⟩
        · refine .inr ⟨?_, hprev⟩
          rintro tx (htx | ⟨htx, hhash⟩)
          · exact hnot tx htx
          · exact hnone tx htx hhash

/-- What a request finds: a transaction of the wallet, or one that is kept, for the hash if it is
known, and an empty transaction if it is not. -/
theorem found_cases (before : List H) (hash : H) :
    (wallet.Known before hash ∧ wallet.GetHash (wallet.found before hash).tx = hash ∧
        ∃ entry ∈ wallet.mapWallet, wallet.found before hash = entry.2.toCMerkleTx ∨
          wallet.found before hash ∈ entry.2.vtxPrev) ∨
      ¬wallet.Known before hash ∧ wallet.found before hash = wallet.nullTx := by
  cases hfind : wallet.find hash with
  | some mi =>
    have hmem := wallet.find_eq_some_iff.1 hfind
    have hfound : wallet.found before hash = mi.toCMerkleTx := by
      simp only [found, copyTx, hfind]
    rw [hfound]
    exact .inl ⟨.inl (List.mem_map_of_mem hmem), wallet.hash_eq _ hmem, _, hmem, .inl rfl⟩
  | none =>
    have hnot := wallet.find_eq_none_iff.1 hfind
    rcases wallet.prevOf_cases before hash with ⟨tx, htx, hprev⟩ | ⟨hnone, hprev⟩
    · have hfound : wallet.found before hash = tx := by
        simp only [found, copyTx, hfind, hprev]
      obtain ⟨entry, hentry, -, hmem, hhash⟩ := id htx
      rw [hfound]
      exact .inl ⟨.inr ⟨tx, htx⟩, hhash, entry, hentry, .inr hmem⟩
    · refine .inr ⟨?_, ?_⟩
      · rintro (hin | ⟨tx, htx⟩)
        · exact hnot hin
        · exact hnone tx htx
      · simp only [found, copyTx, hfind, hprev]

/-! ## The loop -/

/-- The copy of what a request finds, with its block. -/
def copied (before : List H) (hash : H) : CMerkleTx H M :=
  { wallet.found before hash with
    merkle := (wallet.SetMerkleBranch (wallet.found before hash)).1 }

@[simp] theorem copied_tx (before : List H) (hash : H) :
    (wallet.copied before hash).tx = (wallet.found before hash).tx := rfl

/-- The loop when some hashes are done. -/
def workOf (start done : List H) : Work H M where
  vWorkQueue := requests start wallet.asks done
  mapWalletPrev := wallet.prevOf done
  setAlreadyDone := done.toFinset
  vtxPrev := along wallet.copied [] done

theorem addTx_workOf (start done : List H) (hash : H) :
    wallet.addTx (wallet.workOf start done) hash = wallet.workOf start (done ++ [hash]) := by
  have hcopy : wallet.copyTx (wallet.workOf start done).mapWalletPrev hash =
      (wallet.found done hash, wallet.prevOf (done ++ [hash])) := by
    rw [prevOf_concat]
    rfl
  have hdone : insert hash done.toFinset = (done ++ [hash]).toFinset := by
    ext a
    simp
  rw [addTx, hcopy]
  by_cases hdepth : (wallet.SetMerkleBranch (wallet.found done hash)).2 < COPY_DEPTH
  · simp only [workOf, requests_concat, along_append, hdone, asks, asksFor, if_pos hdepth]
    rfl
  · simp only [workOf, requests_concat, along_append, hdone, asks, asksFor, if_neg hdepth,
      List.append_nil]
    rfl

/-- The loop is the work list. -/
theorem workLoop_eq (start : List H) (turns i : Nat) (done : List H) :
    wallet.workLoop turns i (wallet.workOf start done) =
      (scan wallet.asks turns done ((requests start wallet.asks done).drop i)).map
        (wallet.workOf start) := by
  induction turns generalizing i done with
  | zero => rfl
  | succ turns ih =>
    rw [workLoop]
    cases hi : (wallet.workOf start done).vWorkQueue[i]? with
    | none =>
      have hdrop : (requests start wallet.asks done).drop i = [] :=
        List.drop_eq_nil_of_le (List.getElem?_eq_none_iff.1 hi)
      rw [hdrop]
      rfl
    | some hash =>
      obtain ⟨hlt, hget⟩ := List.getElem?_eq_some_iff.1 hi
      have hlt : i < (requests start wallet.asks done).length := hlt
      have hdrop : (requests start wallet.asks done).drop i =
          hash :: (requests start wallet.asks done).drop (i + 1) := by
        rw [← hget]
        exact List.drop_eq_getElem_cons hlt
      rw [hdrop, scan_cons]
      by_cases hdone : hash ∈ done
      · have hset : hash ∈ (wallet.workOf start done).setAlreadyDone := List.mem_toFinset.2 hdone
        simp only [if_pos hset, if_pos hdone, ih]
      · have hset : hash ∉ (wallet.workOf start done).setAlreadyDone := fun h =>
          hdone (List.mem_toFinset.1 h)
        have hnext : (requests start wallet.asks (done ++ [hash])).drop (i + 1) =
            (requests start wallet.asks done).drop (i + 1) ++ wallet.asks done hash := by
          rw [requests_concat, List.drop_append_of_le_length hlt]
        simp only [if_neg hset, if_neg hdone, addTx_workOf, ih, hnext]

/-- All hashes that are ever requested. -/
def knownHashes (wtx : CWalletTx H M) : Finset H :=
  (prevHashes wtx.tx ++ wallet.mapWallet.flatMap fun entry =>
    prevHashes entry.2.tx ++ entry.2.vtxPrev.flatMap fun tx => prevHashes tx.tx).toFinset

theorem mem_knownHashes_of_asksFor (wtx : CWalletTx H M) {hash : H}
    (h : hash ∈ wallet.asksFor wtx.toCMerkleTx) : hash ∈ wallet.knownHashes wtx := by
  unfold asksFor at h
  split at h
  · exact List.mem_toFinset.2 (List.mem_append_left _ h)
  · cases h

theorem mem_knownHashes_of_asks (wtx : CWalletTx H M) (before : List H) (hash : H) :
    ∀ h ∈ wallet.asks before hash, h ∈ wallet.knownHashes wtx := by
  intro h hh
  have hprev : h ∈ prevHashes (wallet.found before hash).tx := by
    unfold asks asksFor at hh
    split at hh
    · exact hh
    · cases hh
  apply List.mem_toFinset.2
  apply List.mem_append_right
  rw [List.mem_flatMap]
  rcases wallet.found_cases before hash with ⟨-, -, entry, hentry, hfound⟩ | ⟨-, hnull⟩
  · refine ⟨entry, hentry, List.mem_append.2 ?_⟩
    rcases hfound with hfound | hfound
    · rw [hfound] at hprev
      exact .inl hprev
    · exact .inr (List.mem_flatMap.2 ⟨_, hfound, hprev⟩)
  · rw [hnull] at hprev
    cases hprev

/-- The loop comes to an end, with the hashes done in the order in which they are requested. -/
theorem exists_workLoop (wtx : CWalletTx H M) :
    ∃ order, wallet.IsRequestOrder wtx order ∧ ∃ turns, ∀ n, turns ≤ n →
      wallet.workLoop n 0 (wallet.workOf (wallet.asksFor wtx.toCMerkleTx) []) =
        some (wallet.workOf (wallet.asksFor wtx.toCMerkleTx) order) := by
  obtain ⟨turns, order, hscan⟩ := exists_scan (wallet.knownHashes wtx)
    (wallet.mem_knownHashes_of_asks wtx) [] (wallet.asksFor wtx.toCMerkleTx) fun hash =>
      wallet.mem_knownHashes_of_asksFor wtx
  have hstart : requests (wallet.asksFor wtx.toCMerkleTx) wallet.asks [] =
      [] ++ wallet.asksFor wtx.toCMerkleTx := by
    simp [requests, along]
  refine ⟨order, ?_, turns, fun n hn => ?_⟩
  · exact isOrder_of_scan begun_nil hstart (by simp) hscan
  · rw [workLoop_eq, hstart, List.nil_append, List.drop_zero, scan_mono hn hscan]
    rfl

/-- What is returned, by the order in which the hashes are requested. -/
theorem exists_AddSupportingTransactions (wtx : CWalletTx H M) :
    ∃ order, wallet.IsRequestOrder wtx order ∧ ∃ turns, ∀ n, turns ≤ n →
      wallet.AddSupportingTransactions n wtx = some
        ({ wtx with
          merkle := (wallet.SetMerkleBranch wtx.toCMerkleTx).1
          vtxPrev := (along wallet.copied [] order).reverse },
        requests (wallet.asksFor wtx.toCMerkleTx) wallet.asks order) := by
  by_cases hdepth : (wallet.SetMerkleBranch wtx.toCMerkleTx).2 < COPY_DEPTH
  · have hstart : wallet.asksFor wtx.toCMerkleTx = prevHashes wtx.tx := if_pos hdepth
    obtain ⟨order, horder, turns, hloop⟩ := wallet.exists_workLoop wtx
    refine ⟨order, horder, turns, fun n hn => ?_⟩
    have hbegin : wallet.workOf (wallet.asksFor wtx.toCMerkleTx) [] =
        ⟨prevHashes wtx.tx, fun _ => none, ∅, []⟩ := by
      simp [workOf, requests, along, prevOf, hstart]
    have hrun := hloop n hn
    rw [hbegin] at hrun
    simp only [AddSupportingTransactions, if_pos hdepth, hrun]
    rfl
  · have hstart : wallet.asksFor wtx.toCMerkleTx = [] := if_neg hdepth
    refine ⟨[], ⟨begun_nil, ?_⟩, 0, fun n _ => ?_⟩
    · simp [next, requests, along, hstart]
    · simp [AddSupportingTransactions, hdepth, requests, along, hstart]

/-! ## Parents first -/

/-- One transaction spends another. -/
def IsParent (parent tx : CMerkleTx H M) : Prop := wallet.GetHash parent.tx ∈ prevHashes tx.tx

/-- Each hash is known when it is requested, or is that of the empty transaction; and what is found
has no parent that is requested before it, nor itself. -/
def ServedInOrder (order : List H) : Prop :=
  ∀ i hash, order[i]? = some hash →
    (wallet.Known (order.take i) hash ∨ hash = wallet.GetHash nullTransaction) ∧
      ∀ parent ∈ prevHashes (wallet.found (order.take i) hash).tx, parent ∉ order.take (i + 1)

theorem getElem?_copied {order : List H} {i : Nat} {hash : H} (h : order[i]? = some hash) :
    (along wallet.copied [] order)[i]? = some (wallet.copied (order.take i) hash) := by
  rw [getElem?_along, h]
  rfl

/-- If each hash is known, the copies have the hashes that are requested. -/
theorem map_GetHash_copied {order : List H} (h : ∀ i hash, order[i]? = some hash →
      wallet.Known (order.take i) hash ∨ hash = wallet.GetHash nullTransaction) :
    (along wallet.copied [] order).map (fun tx => wallet.GetHash tx.tx) = order := by
  apply List.ext_getElem?
  intro i
  rw [List.getElem?_map]
  cases hi : order[i]? with
  | none => rw [getElem?_along, hi]; rfl
  | some hash =>
    rw [wallet.getElem?_copied hi, Option.map_some]
    congr 1
    rcases wallet.found_cases (order.take i) hash with ⟨-, hhash, -⟩ | ⟨hunknown, hnull⟩
    · exact hhash
    · have hempty : hash = wallet.GetHash nullTransaction := (h i hash hi).resolve_left hunknown
      exact (congrArg (fun tx => wallet.GetHash tx.tx) hnull).trans hempty.symm

/-- If the copies have requested hashes, each once, then each hash is known. -/
theorem known_of_copied {order : List H}
    (hrequested : ∀ tx ∈ along wallet.copied [] order, wallet.GetHash tx.tx ∈ order)
    (honce : ((along wallet.copied [] order).map fun tx => wallet.GetHash tx.tx).Nodup)
    {i : Nat} {hash : H} (hi : order[i]? = some hash) :
    wallet.Known (order.take i) hash ∨ hash = wallet.GetHash nullTransaction := by
  -- the empty transaction has its hash twice, for this request and for its own
  by_contra hnot
  obtain ⟨hunknown, hne⟩ := not_or.1 hnot
  have hempty : ∀ j h, order[j]? = some h → (¬wallet.Known (order.take j) h ∨
      h = wallet.GetHash nullTransaction) →
        ((along wallet.copied [] order).map fun tx => wallet.GetHash tx.tx)[j]? =
          some (wallet.GetHash nullTransaction) := by
    intro j h hj hcase
    rw [List.getElem?_map, wallet.getElem?_copied hj, Option.map_some]
    congr 1
    rcases wallet.found_cases (order.take j) h with ⟨hknown, hhash, -⟩ | ⟨-, hnull⟩
    · exact hhash.trans (hcase.resolve_left (not_not_intro hknown))
    · exact congrArg (fun tx => wallet.GetHash tx.tx) hnull
  have hhere := hempty i hash hi (.inl hunknown)
  have hmem : wallet.GetHash nullTransaction ∈ order := by
    obtain ⟨tx, htx, hhash⟩ := List.mem_map.1 (List.mem_of_getElem? hhere)
    rw [← hhash]
    exact hrequested tx htx
  obtain ⟨j, hj⟩ := List.mem_iff_getElem?.1 hmem
  have hthere := hempty j _ hj (.inr rfl)
  have hij : i = j := (List.getElem?_inj (List.getElem?_eq_some_iff.1 hhere).1 honce).1
    (hhere.trans hthere.symm)
  subst hij
  exact hne (Option.some.inj (hi.symm.trans hj))

/-- Parents are found after what spends them, if none is requested before it. -/
theorem parents_last_iff {order : List H}
    (hhash : (along wallet.copied [] order).map (fun tx => wallet.GetHash tx.tx) = order) :
    (∀ (i j : Nat) tx parent, (along wallet.copied [] order)[i]? = some tx →
      (along wallet.copied [] order)[j]? = some parent → wallet.IsParent parent tx → i < j) ↔
      ∀ i hash, order[i]? = some hash →
        ∀ parent ∈ prevHashes (wallet.found (order.take i) hash).tx,
          parent ∉ order.take (i + 1) := by
  have hcopied : ∀ {j : Nat} {tx : CMerkleTx H M}, (along wallet.copied [] order)[j]? = some tx →
      order[j]? = some (wallet.GetHash tx.tx) := by
    intro j tx hj
    rw [← hhash, List.getElem?_map, hj]
    rfl
  constructor
  · intro h i hash hi parent hparent hmem
    obtain ⟨j, hj, hget⟩ := List.mem_take_iff_getElem.1 hmem
    have hj : order[j]? = some parent := by
      rw [← hget]
      exact List.getElem?_eq_getElem _
    have hfound := wallet.getElem?_copied hj
    have hlt := h i j _ _ (wallet.getElem?_copied hi) hfound <| by
      have hp : parent = wallet.GetHash (wallet.copied (order.take j) parent).tx :=
        Option.some.inj (hj.symm.trans (hcopied hfound))
      rw [IsParent, ← hp]
      exact hparent
    omega
  · intro h i j tx parent hi hj hparent
    have horder := hcopied hi
    have hcopy : wallet.copied (order.take i) (wallet.GetHash tx.tx) = tx :=
      Option.some.inj ((wallet.getElem?_copied horder).symm.trans hi)
    have hsame : (wallet.found (order.take i) (wallet.GetHash tx.tx)).tx = tx.tx := by
      rw [← copied_tx, hcopy]
    have hnot := h i _ horder (wallet.GetHash parent.tx) <| by
      rw [hsame]
      exact hparent
    by_contra hle
    apply hnot
    rw [List.mem_take_iff_getElem]
    obtain ⟨hlt, hget⟩ := List.getElem?_eq_some_iff.1 (hcopied hj)
    exact ⟨j, by omega, hget⟩

variable [Zero H]

/-- In `vtxPrev` are requested transactions, each once, after their parents, and they are sent in
this order. -/
structure Supports (wtx : CWalletTx H M) (requested : List H) : Prop where
  requested : ∀ tx ∈ wtx.vtxPrev, wallet.GetHash tx.tx ∈ requested
  once : (wtx.vtxPrev.map fun tx => wallet.GetHash tx.tx).Nodup
  parents_first : ∀ (i j : Nat) tx parent, wtx.vtxPrev[i]? = some tx →
    wtx.vtxPrev[j]? = some parent → wallet.IsParent parent tx → j < i
  relayed : (wallet.RelayWalletTransaction wtx).Sublist
    ((wtx.vtxPrev ++ [wtx.toCMerkleTx]).map fun tx => (tx.tx, wallet.GetHash tx.tx))

theorem RelayWalletTransaction_sublist (wtx : CWalletTx H M) :
    (wallet.RelayWalletTransaction wtx).Sublist
      ((wtx.vtxPrev ++ [wtx.toCMerkleTx]).map fun tx => (tx.tx, wallet.GetHash tx.tx)) := by
  rw [List.map_append]
  apply List.Sublist.append
  · exact List.filter_sublist.map _
  · split
    · exact List.Sublist.refl _
    · exact List.nil_sublist _

/-- Positions from the end. -/
theorem forall_reverse_iff {α : Type} {R : α → α → Prop} (l : List α) :
    (∀ (i j : Nat) a b, l.reverse[i]? = some a → l.reverse[j]? = some b → R a b → j < i) ↔
      ∀ (i j : Nat) a b, l[i]? = some a → l[j]? = some b → R a b → i < j := by
  have hlt : ∀ {l : List α} {i : Nat} {a : α}, l[i]? = some a → i < l.length := fun h =>
    (List.getElem?_eq_some_iff.1 h).1
  have hback : ∀ {i : Nat} {a : α}, l[i]? = some a → l.reverse[l.length - 1 - i]? = some a := by
    intro i a ha
    have hi := hlt ha
    rw [List.getElem?_reverse (by omega), ← ha]
    congr 1
    omega
  constructor
  · intro h i j a b ha hb hR
    have hi := hlt ha
    have := h _ _ a b (hback ha) (hback hb) hR
    omega
  · intro h i j a b ha hb hR
    have hi : i < l.length := by simpa using hlt ha
    have hj : j < l.length := by simpa using hlt hb
    rw [List.getElem?_reverse hi] at ha
    rw [List.getElem?_reverse hj] at hb
    have := h _ _ a b ha hb hR
    omega

theorem supports_iff {wtx r : CWalletTx H M} {order : List H}
    (horder : wallet.IsRequestOrder wtx order)
    (hr : r.vtxPrev = (along wallet.copied [] order).reverse) :
    wallet.Supports r (requests (wallet.asksFor wtx.toCMerkleTx) wallet.asks order) ↔
      wallet.ServedInOrder order := by
  have hmem : (∀ tx ∈ r.vtxPrev, wallet.GetHash tx.tx ∈
      requests (wallet.asksFor wtx.toCMerkleTx) wallet.asks order) ↔
        ∀ tx ∈ along wallet.copied [] order, wallet.GetHash tx.tx ∈ order := by
    simp only [hr, List.mem_reverse, ← horder.mem_iff]
  have hparents : (∀ (i j : Nat) tx parent, r.vtxPrev[i]? = some tx →
      r.vtxPrev[j]? = some parent → wallet.IsParent parent tx → j < i) ↔
        ∀ (i j : Nat) tx parent, (along wallet.copied [] order)[i]? = some tx →
          (along wallet.copied [] order)[j]? = some parent → wallet.IsParent parent tx → i < j := by
    rw [hr]
    constructor
    · intro h i j tx parent hi hj hp
      exact (forall_reverse_iff (R := fun tx parent => wallet.IsParent parent tx) _).1 h i j tx
        parent hi hj hp
    · intro h i j tx parent hi hj hp
      exact (forall_reverse_iff (R := fun tx parent => wallet.IsParent parent tx) _).2 h i j tx
        parent hi hj hp
  constructor
  · intro h i hash hi
    have honce : ((along wallet.copied [] order).map fun tx => wallet.GetHash tx.tx).Nodup := by
      simpa [hr] using h.once
    have hknown : ∀ i hash, order[i]? = some hash →
        wallet.Known (order.take i) hash ∨ hash = wallet.GetHash nullTransaction :=
      fun i hash => wallet.known_of_copied (hmem.1 h.requested) honce
    have hhash := wallet.map_GetHash_copied hknown
    have hlast := (wallet.parents_last_iff hhash).1 (hparents.1 h.parents_first)
    exact ⟨hknown i hash hi, hlast i hash hi⟩
  · intro h
    have hhash := wallet.map_GetHash_copied fun i hash hi => (h i hash hi).1
    constructor
    case requested =>
      rw [hmem]
      intro tx htx
      have hin := List.mem_map_of_mem (f := fun tx => wallet.GetHash tx.tx) htx
      rwa [hhash] at hin
    case once =>
      rw [hr, List.map_reverse, List.nodup_reverse, hhash]
      exact horder.begun.nodup
    case parents_first =>
      exact hparents.2 ((wallet.parents_last_iff hhash).2 fun i hash hi => (h i hash hi).2)
    case relayed => exact wallet.RelayWalletTransaction_sublist r

/-- **The transactions that support one come after their parents**, if each is known and has no
parent that is requested before it. -/
theorem AddSupportingTransactions_iff (wtx : CWalletTx H M) :
    ∃ r requested,
      (∃ turns, ∀ n, turns ≤ n →
        wallet.AddSupportingTransactions n wtx = some (r, requested)) ∧
      (wallet.Supports r requested ↔
        ∃ order, wallet.IsRequestOrder wtx order ∧ wallet.ServedInOrder order) := by
  obtain ⟨order, horder, hreturns⟩ := wallet.exists_AddSupportingTransactions wtx
  refine ⟨_, _, hreturns, ?_⟩
  rw [wallet.supports_iff horder rfl]
  constructor
  · intro hserved
    exact ⟨order, horder, hserved⟩
  · rintro ⟨order', horder', hserved⟩
    rwa [horder.unique horder']

end CWallet

end

/-! A wallet with one transaction, which spends one that is not known; and one with a transaction
and its parent, which is deep in the chain. -/

def spends (nLockTime : UInt32) (hashes : List Nat) : CTransaction Nat :=
  ⟨1, hashes.map fun hash => ⟨⟨hash, 0⟩, [], 0⟩, [], nLockTime⟩

def unknownParent : CWallet Nat Int where
  mapWallet := [(1, ⟨⟨spends 1 [9], 0⟩, []⟩)]
  nodup := by simp
  GetHash tx := tx.nLockTime.toNat
  hash_eq := by simp [spends]
  init := 0
  SetMerkleBranch tx := (tx.merkle, tx.merkle)
  GetDepthInMainChain tx := tx.merkle

def parentAndChild : CWallet Nat Int where
  mapWallet := [(1, ⟨⟨spends 1 [9], 3⟩, []⟩), (2, ⟨⟨spends 2 [1], 0⟩, []⟩)]
  nodup := by simp
  GetHash tx := tx.nLockTime.toNat
  hash_eq := by simp [spends]
  init := 0
  SetMerkleBranch tx := (tx.merkle, tx.merkle)
  GetDepthInMainChain tx := tx.merkle

/-- An empty transaction takes the place of the unknown one; and with the parent among the inputs
before the child, the child is sent first. -/
theorem AddSupportingTransactions_not_supports :
    (∃ r requested, unknownParent.AddSupportingTransactions 3 ⟨⟨spends 2 [1], 0⟩, []⟩ =
        some (r, requested) ∧ ¬unknownParent.Supports r requested) ∧
      ∃ r requested, parentAndChild.AddSupportingTransactions 4 ⟨⟨spends 3 [1, 2], 0⟩, []⟩ =
        some (r, requested) ∧ ¬parentAndChild.Supports r requested := by
  constructor
  · refine ⟨_, _, rfl, fun h => ?_⟩
    have hmem := h.requested unknownParent.nullTx (by decide)
    revert hmem
    decide
  · refine ⟨_, _, rfl, fun h => ?_⟩
    have hlt := h.parents_first 0 1 _ _ rfl rfl
      (by simp [CWallet.IsParent, prevHashes, parentAndChild, spends])
    omega

end TriTip.SupportingTransactions
