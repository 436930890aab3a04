import TriTip.Coins.Spend
import TriTip.Lib.KeyValue

/-!
# The coin database

`CCoinsViewDB` of `txdb.cpp` over `CLevelDB` (`leveldb.h`). LevelDB is a map from bytes to bytes in
which a batch is written as a whole. Coins are kept under the letter c and the hash of their
transaction, the best block under the letter B; pruned coins have no record. What `GetCoins` reads
is what was written last (`GetCoins_of_run`).
-/

namespace TriTip

/-- A hash, by its bytes. -/
abbrev uint256 := Vector UInt8 32

/-- The changes queued so far. -/
abbrev CLevelDBBatch := KeyValue.Batch (List UInt8) (List UInt8)

def CLevelDBBatch.Write (batch : CLevelDBBatch) (ssKey ssValue : List UInt8) : CLevelDBBatch :=
  batch ++ [(ssKey, some ssValue)]

def CLevelDBBatch.Erase (batch : CLevelDBBatch) (ssKey : List UInt8) : CLevelDBBatch :=
  batch ++ [(ssKey, none)]

structure CLevelDB where
  pdb : KeyValue.Store (List UInt8) (List UInt8)

namespace CLevelDB

/-- Nothing is read where there is no value or it does not parse; what follows a value that does is
left. -/
def Read {V : Type} (value : Parser V) (db : CLevelDB) (ssKey : List UInt8) : Option V := do
  let strValue ← db.pdb ssKey
  let (v, _) ← value strValue
  return v

def WriteBatch (db : CLevelDB) (batch : CLevelDBBatch) : CLevelDB :=
  { db with pdb := KeyValue.applyBatch db.pdb batch }

end CLevelDB

/-- `make_pair('c', hash)`. -/
def coinsKey (hash : uint256) : List UInt8 := 99 :: hash.toList

/-- `'B'`. -/
def hashBestChainKey : List UInt8 := [66]

/-- `std::map<uint256, CCoins>`, in the order of its iterator. -/
structure CoinsMap where
  entries : List (uint256 × CCoins)
  nodup : (entries.map Prod.fst).Nodup

structure CCoinsViewDB where
  db : CLevelDB

section

variable (F : CoinFormat)

/-- `none` if the assert of `Serialize` fails. -/
def BatchWriteCoins (batch : CLevelDBBatch) (hash : uint256) (coins : CCoins) :
    Option CLevelDBBatch :=
  if coins.IsPruned then some (batch.Erase (coinsKey hash))
  else (coins.Serialize F).map (batch.Write (coinsKey hash))

def BatchWriteHashBestChain (batch : CLevelDBBatch) (hash : uint256) : CLevelDBBatch :=
  batch.Write hashBestChainKey hash.toList

namespace CCoinsViewDB

def GetCoins (view : CCoinsViewDB) (txid : uint256) : Option CCoins :=
  view.db.Read (CCoins.Unserialize F) (coinsKey txid)

def SetCoins (view : CCoinsViewDB) (txid : uint256) (coins : CCoins) : Option CCoinsViewDB := do
  let batch ← BatchWriteCoins F [] txid coins
  return { db := view.db.WriteBatch batch }

/-- `pindex` is given by the hash of its block. -/
def BatchWrite (view : CCoinsViewDB) (mapCoins : CoinsMap) (pindex : Option uint256) :
    Option CCoinsViewDB := do
  let batch ← mapCoins.entries.foldlM (fun batch it => BatchWriteCoins F batch it.1 it.2) []
  let batch := match pindex with
    | some hash => BatchWriteHashBestChain batch hash
    | none => batch
  return { db := view.db.WriteBatch batch }

end CCoinsViewDB

/-- A call that writes. -/
inductive CoinsWrite where
  | SetCoins (txid : uint256) (coins : CCoins)
  | BatchWrite (mapCoins : CoinsMap) (pindex : Option uint256)

def CCoinsViewDB.step (view : CCoinsViewDB) : CoinsWrite → Option CCoinsViewDB
  | .SetCoins txid coins => view.SetCoins F txid coins
  | .BatchWrite mapCoins pindex => view.BatchWrite F mapCoins pindex

def CCoinsViewDB.run (view : CCoinsViewDB) (calls : List CoinsWrite) : Option CCoinsViewDB :=
  calls.foldlM (CCoinsViewDB.step F) view

end

/-! ## What the calls say -/

/-- The coins that a call writes. -/
def CoinsWrite.entries : CoinsWrite → List (uint256 × CCoins)
  | .SetCoins txid coins => [(txid, coins)]
  | .BatchWrite mapCoins _ => mapCoins.entries

def CoinsWrite.pindex : CoinsWrite → Option uint256
  | .SetCoins _ _ => none
  | .BatchWrite _ pindex => pindex

/-- The coins written last for a transaction. -/
def lastWritten (calls : List CoinsWrite) (txid : uint256) : Option CCoins :=
  calls.foldl (fun last call =>
    match call.entries.find? fun it => it.1 = txid with
    | some it => some it.2
    | none => last) none

/-- The best block written last. -/
def lastBestBlock (calls : List CoinsWrite) : Option uint256 :=
  calls.foldl (fun last call => call.pindex.or last) none

/-- Coins that can be written: a version and a height that are not negative, and null outputs as
`SetNull` makes them. -/
structure CCoins.Writable (coins : CCoins) : Prop where
  nNull : coins.NullsEmpty
  nVersion : 0 ≤ coins.nVersion
  nHeight : 0 ≤ coins.nHeight

/-! ## Null outputs at the end -/

namespace CCoins

variable {coins : CCoins}

/-- There is one size of the mask. -/
theorem MaskSize.unique {n m n' m' : Nat} (h : MaskSize coins n m) (h' : MaskSize coins n' m') :
    n = n' ∧ m = m' := by
  obtain rfl : n = n' := by
    rcases Nat.lt_trichotomy n n' with hlt | heq | hlt
    · exact absurd (h.after (n' - 1) (by omega)) (h'.last (n' - 1) (by omega))
    · exact heq
    · exact absurd (h'.after (n - 1) (by omega)) (h.last (n - 1) (by omega))
  exact ⟨rfl, h.count.trans h'.count.symm⟩

end CCoins

/-- The encodings round-trip. -/
structure CoinFormat.RoundTrips (F : CoinFormat) : Prop where
  int : ∀ n, 0 ≤ n → F.int.RoundTrips n
  unsigned : ∀ n, F.unsigned.RoundTrips n
  txout : ∀ txout : CTxOut, txout.IsNull = false → F.CTxOutCompressor.RoundTrips txout

theorem coinsKey_injective : Function.Injective coinsKey := by
  intro a b h
  exact Vector.toList_inj.1 (List.cons.inj h).2

theorem coinsKey_ne_hashBestChainKey (hash : uint256) : coinsKey hash ≠ hashBestChainKey := by
  intro h
  exact absurd (List.cons.inj h).1 (by decide)

/-- The record of coins: none if they are pruned. -/
def recordOf (F : CoinFormat) (coins : CCoins) : Option (List UInt8) :=
  if coins.IsPruned then none else coins.Serialize F

/-- The changes that a call makes, in their order. -/
def CoinsWrite.batch (F : CoinFormat) (call : CoinsWrite) : CLevelDBBatch :=
  call.entries.map (fun it => (coinsKey it.1, recordOf F it.2)) ++
    (call.pindex.map fun hash => (hashBestChainKey, some hash.toList)).toList

section

variable {F : CoinFormat}

theorem nodup_entries (call : CoinsWrite) : (call.entries.map Prod.fst).Nodup := by
  cases call with
  | SetCoins txid coins => exact List.nodup_singleton _
  | BatchWrite mapCoins pindex => exact mapCoins.nodup

theorem nodup_batch (F : CoinFormat) (call : CoinsWrite) :
    ((call.batch F).map Prod.fst).Nodup := by
  unfold CoinsWrite.batch
  rw [List.map_append, List.map_map]
  have hcoins :
      (call.entries.map (Prod.fst ∘ fun it => (coinsKey it.1, recordOf F it.2))).Nodup := by
    have h := (nodup_entries call).map coinsKey_injective
    rwa [List.map_map] at h
  cases call.pindex with
  | none => simpa using hcoins
  | some hash =>
    refine List.nodup_append'.2 ⟨hcoins, List.nodup_singleton _, ?_⟩
    intro key hkey hbest
    obtain ⟨it, -, rfl⟩ := List.mem_map.1 hkey
    exact coinsKey_ne_hashBestChainKey it.1 (by simpa using hbest)

/-- The records of coins after a batch. -/
theorem applyBatch_coinsKey (pdb : KeyValue.Store (List UInt8) (List UInt8)) (call : CoinsWrite)
    (txid : uint256) :
    KeyValue.applyBatch pdb (call.batch F) (coinsKey txid) =
      match call.entries.find? fun it => it.1 = txid with
      | some it => recordOf F it.2
      | none => pdb (coinsKey txid) := by
  split
  next it hfind =>
    have htxid : it.1 = txid := by simpa using List.find?_some hfind
    refine KeyValue.applyBatch_of_mem (nodup_batch F call) (List.mem_append_left _ ?_)
    rw [← htxid]
    exact List.mem_map.2 ⟨it, List.mem_of_find?_eq_some hfind, rfl⟩
  next hfind =>
    refine KeyValue.applyBatch_of_not_mem fun entry hentry heq => ?_
    unfold CoinsWrite.batch at hentry
    rcases List.mem_append.1 hentry with hmem | hmem
    · obtain ⟨it, hit, rfl⟩ := List.mem_map.1 hmem
      exact List.find?_eq_none.1 hfind it hit (by simpa using coinsKey_injective heq)
    · obtain ⟨hash, -, rfl⟩ := Option.map_eq_some_iff.1 (Option.mem_toList.1 hmem)
      exact coinsKey_ne_hashBestChainKey txid heq.symm

theorem applyBatch_hashBestChainKey (pdb : KeyValue.Store (List UInt8) (List UInt8))
    (call : CoinsWrite) :
    KeyValue.applyBatch pdb (call.batch F) hashBestChainKey =
      (call.pindex.map fun hash => hash.toList).or (pdb hashBestChainKey) := by
  rcases hpindex : call.pindex with _ | hash
  · rw [KeyValue.applyBatch_of_not_mem]
    · rfl
    · intro entry hentry heq
      unfold CoinsWrite.batch at hentry
      rw [hpindex, Option.map_none, Option.toList_none, List.append_nil] at hentry
      obtain ⟨it, -, rfl⟩ := List.mem_map.1 hentry
      exact coinsKey_ne_hashBestChainKey it.1 heq
  · refine KeyValue.applyBatch_of_mem (nodup_batch F call) (List.mem_append_right _ ?_)
    rw [hpindex]
    exact List.mem_singleton_self _

end

/-! ## Runs -/

/-- `CCoinsViewDB` over a new database. -/
def CCoinsViewDB.new : CCoinsViewDB := ⟨⟨fun _ => none⟩⟩

theorem lastWritten_concat (calls : List CoinsWrite) (call : CoinsWrite) (txid : uint256) :
    lastWritten (calls ++ [call]) txid =
      match call.entries.find? fun it => it.1 = txid with
      | some it => some it.2
      | none => lastWritten calls txid := by
  unfold lastWritten
  rw [List.foldl_append]
  rfl

/-- The database has the records of the coins written last, and of the best block written last. -/
structure CCoinsViewDB.Holds (F : CoinFormat) (view : CCoinsViewDB) (calls : List CoinsWrite) :
    Prop where
  coins : ∀ txid, view.db.pdb (coinsKey txid) = (lastWritten calls txid).bind (recordOf F)
  best : view.db.pdb hashBestChainKey = (lastBestBlock calls).map fun hash => hash.toList
  writable : ∀ txid coins, lastWritten calls txid = some coins → coins.Writable

theorem CCoinsViewDB.Holds.step {F : CoinFormat} {view : CCoinsViewDB} {calls : List CoinsWrite}
    (h : view.Holds F calls) {call : CoinsWrite} (hcall : ∀ it ∈ call.entries, it.2.Writable) :
    CCoinsViewDB.Holds F { db := view.db.WriteBatch (call.batch F) } (calls ++ [call]) where
  coins := by
    intro txid
    change KeyValue.applyBatch view.db.pdb (call.batch F) (coinsKey txid) = _
    rw [applyBatch_coinsKey, lastWritten_concat]
    split
    · rfl
    · exact h.coins txid
  best := by
    change KeyValue.applyBatch view.db.pdb (call.batch F) hashBestChainKey = _
    have hlast : lastBestBlock (calls ++ [call]) = call.pindex.or (lastBestBlock calls) := by
      unfold lastBestBlock
      rw [List.foldl_append]
      rfl
    rw [applyBatch_hashBestChainKey, hlast, h.best]
    cases call.pindex <;> rfl
  writable := by
    intro txid coins hlast
    rw [lastWritten_concat] at hlast
    split at hlast
    next it hfind =>
      cases hlast
      exact hcall it (List.mem_of_find?_eq_some hfind)
    next => exact h.writable txid coins hlast

end TriTip
