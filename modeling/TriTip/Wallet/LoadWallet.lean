import TriTip.Block.CheckTransaction
import TriTip.Lib.Earliest
import TriTip.Lib.LittleEndian
import TriTip.Wallet.ReorderTransactions
import TriTip.Wallet.Rewrite

/-!
# The birthday of a wallet

`LoadWallet` of `walletdb.cpp` reads the records of the wallet file, and keeps the earliest
creation time that a `keymeta` record has in `nTimeFirstKey`; `ScanForWalletTransactions` of
`wallet.cpp` skips the blocks that are two hours older. That every key has such a record is not
tested: as many `keymeta` records as keys are enough, and `wkey` records are not counted
(`LoadWallet_noMetadata`). `LoadWallet_dated_iff` says when no block that is newer than a key is
skipped.
-/

namespace TriTip

open Std ExactInt64

/-- A string of bytes as it stands in the source. -/
def ascii (s : String) : List UInt8 := s.toList.map fun c => UInt8.ofNat c.toNat

/-- `CPubKey::GetLen` of the first byte; 0 if there is none. -/
def GetLen : List UInt8 → Nat
  | [] => 0
  | chHeader :: _ =>
    if chHeader = 2 ∨ chHeader = 3 then 33
    else if chHeader = 4 ∨ chHeader = 6 ∨ chHeader = 7 then 65
    else 0

/-- A public key, from `begin()` to `end()`; it has no bytes if it is not valid. -/
structure CPubKey where
  vch : List UInt8
  length_eq : GetLen vch = vch.length
  deriving DecidableEq

namespace CPubKey

def Set (vch : List UInt8) : CPubKey :=
  if h : GetLen vch = vch.length then ⟨vch, h⟩ else ⟨[], rfl⟩

def IsValid (k : CPubKey) : Bool := 0 < k.vch.length

def IsCompressed (k : CPubKey) : Bool := k.vch.length = 33

end CPubKey

inductive DBErrors where
  | DB_LOAD_OK
  | DB_CORRUPT
  | DB_NONCRITICAL_ERROR
  | DB_TOO_NEW
  | DB_LOAD_FAIL
  | DB_NEED_REWRITE
  deriving DecidableEq

/-- What is read of the record of a transaction. -/
structure TxRecord (H : Type) where
  tx : CTransaction H
  fTimeReceivedIsTxTime : UInt32
  order : TxOrder

/-- How the values in the records are read, but for integers. -/
structure WalletFormat (H : Type) where
  string : Parser (List UInt8)
  /-- `vector<unsigned char>` -/
  vector : Parser (List UInt8)
  uint160 : Parser (List UInt8)
  uint256 : Parser H
  CScript : Parser CScript
  CPubKey : Parser CPubKey
  CPrivKey : Parser (List UInt8)
  /-- its `vchPrivKey` -/
  CWalletKey : Parser (List UInt8)
  CMasterKey : Parser (List UInt8)
  /-- its `nCreateTime` -/
  CKeyMetadata : Parser Int64
  CAccountingEntry : Parser EntryOrder
  CWalletTx : Parser (TxRecord H)
  /-- what a read of a transaction that throws leaves -/
  thrownTx : List UInt8 → TxOrder

/-- Private keys, and the store for them. -/
structure KeyStore (K S : Type) where
  SetPrivKey : List UInt8 → Bool → Option K
  GetPubKey : K → CPubKey
  LoadKey : S → K → CPubKey → Option S
  AddCryptedKey : S → CPubKey → List UInt8 → Option S
  LoadCScript : S → CScript → Option S

structure LoadedWallet (H S : Type) [Ord H] where
  mapWallet : ExtTreeMap H TxOrder compare
  /-- the numbers of the master keys -/
  mapMasterKeys : Finset UInt32
  keyStore : S
  nTimeFirstKey : Int64
  nOrderPosNext : Int64
  /-- the public keys of the private keys that were loaded, which no code reads -/
  loaded : List CPubKey

structure CWalletScanState (H : Type) where
  nKeys : UInt32 := 0
  nCKeys : UInt32 := 0
  nKeyMeta : UInt32 := 0
  fIsEncrypted : Bool := false
  fAnyUnordered : Bool := false
  nFileVersion : Int32 := 0
  vWalletUpgrade : List H := []

structure LoadState (H S : Type) [Ord H] where
  pwallet : LoadedWallet H S
  wss : CWalletScanState H := {}

/-- `true` is `none`, `false` is `some` with `strErr`. -/
abbrev ReadResult (H S : Type) [Ord H] := Option String × LoadState H S

/-- A value is read; an exception makes `ReadKeyValue` return false. -/
def reading {H S α : Type} [Ord H] (p : Parser α) (ss : List UInt8) (s : LoadState H S)
    (f : α → List UInt8 → ReadResult H S) : ReadResult H S :=
  match p ss with
  | none => (some "", s)
  | some (a, ss) => f a ss

section

variable {H K S : Type} [Ord H] [TransOrd H] [Zero H] [DecidableEq H] (R : Consensus H)
  (F : WalletFormat H) (keys : KeyStore K S)

/-! ## The types of records -/

def readTx (ssKey ssValue : List UInt8) (s : LoadState H S) : ReadResult H S :=
  reading F.uint256 ssKey s fun hash _ =>
    let setWtx (wtx : TxOrder) : LoadState H S :=
      { s with pwallet.mapWallet := s.pwallet.mapWallet.insert hash wtx }
    match F.CWalletTx ssValue with
    | none => (some "", setWtx (F.thrownTx ssValue))
    | some (wtx, ssValue) =>
      if (CheckTransaction R wtx.tx).isOk && R.txHash wtx.tx = hash then
        let s := setWtx wtx.order
        let unordered (s : LoadState H S) : ReadResult H S :=
          (none, if wtx.order.nOrderPos = -1 then { s with wss.fAnyUnordered := true } else s)
        -- Undo serialize changes in 31600
        if 31404 ≤ wtx.fTimeReceivedIsTxTime ∧ wtx.fTimeReceivedIsTxTime ≤ 31703 then
          let upgraded : LoadState H S :=
            { s with wss.vWalletUpgrade := s.wss.vWalletUpgrade ++ [hash] }
          if ssValue.isEmpty then unordered upgraded
          else
            reading Codec.uint8.read ssValue s fun _ ssValue =>
              reading Codec.uint8.read ssValue s fun _ ssValue =>
                reading F.string ssValue s fun _ _ => unordered upgraded
        else unordered s
      else (some "", { s with pwallet.mapWallet := s.pwallet.mapWallet.erase hash })

def readAcentry (ssKey ssValue : List UInt8) (s : LoadState H S) : ReadResult H S :=
  reading F.string ssKey s fun _ ssKey =>
    reading Codec.uint64.read ssKey s fun _ _ =>
      if s.wss.fAnyUnordered then (none, s)
      else
        reading F.CAccountingEntry ssValue s fun acentry _ =>
          (none, if acentry.nOrderPos = -1 then { s with wss.fAnyUnordered := true } else s)

/-- A record of the type `key`, or `wkey`, which is not counted. -/
def readKey (strType ssKey ssValue : List UInt8) (s : LoadState H S) : ReadResult H S :=
  reading F.CPubKey ssKey s fun vchPubKey _ =>
    if !vchPubKey.IsValid then (some "Error reading wallet database: CPubKey corrupt", s)
    else
      let s : LoadState H S :=
        if strType = ascii "key" then { s with wss.nKeys := s.wss.nKeys + 1 } else s
      reading (if strType = ascii "key" then F.CPrivKey else F.CWalletKey) ssValue s fun pkey _ =>
        match keys.SetPrivKey pkey vchPubKey.IsCompressed with
        | none => (some "Error reading wallet database: CPrivKey corrupt", s)
        | some key =>
          if keys.GetPubKey key ≠ vchPubKey then
            (some "Error reading wallet database: CPrivKey pubkey inconsistency", s)
          else
            match keys.LoadKey s.pwallet.keyStore key vchPubKey with
            | none => (some "Error reading wallet database: LoadKey failed", s)
            | some keyStore =>
              (none, { s with
                pwallet.keyStore := keyStore
                pwallet.loaded := s.pwallet.loaded ++ [vchPubKey] })

def readMkey (ssKey ssValue : List UInt8) (s : LoadState H S) : ReadResult H S :=
  reading Codec.uint32.read ssKey s fun nID _ =>
    reading F.CMasterKey ssValue s fun _ _ =>
      if nID ∈ s.pwallet.mapMasterKeys then
        (some s!"Error reading wallet database: duplicate CMasterKey id {nID}", s)
      else (none, { s with pwallet.mapMasterKeys := insert nID s.pwallet.mapMasterKeys })

def readCkey (ssKey ssValue : List UInt8) (s : LoadState H S) : ReadResult H S :=
  reading F.vector ssKey s fun vchPubKey _ =>
    reading F.vector ssValue s fun vchPrivKey _ =>
      let s : LoadState H S := { s with wss.nCKeys := s.wss.nCKeys + 1 }
      match keys.AddCryptedKey s.pwallet.keyStore (.Set vchPubKey) vchPrivKey with
      | none => (some "Error reading wallet database: LoadCryptedKey failed", s)
      | some keyStore =>
        (none, { s with
          pwallet.keyStore := keyStore
          pwallet.loaded := s.pwallet.loaded ++ [.Set vchPubKey]
          wss.fIsEncrypted := true })

def readKeymeta (ssKey ssValue : List UInt8) (s : LoadState H S) : ReadResult H S :=
  reading F.vector ssKey s fun _ _ =>
    reading F.CKeyMetadata ssValue s fun nCreateTime _ =>
      let s : LoadState H S := { s with wss.nKeyMeta := s.wss.nKeyMeta + 1 }
      -- find earliest key creation time, as wallet birthday
      if s.pwallet.nTimeFirstKey = 0 ∨ nCreateTime < s.pwallet.nTimeFirstKey then
        (none, { s with pwallet.nTimeFirstKey := nCreateTime })
      else (none, s)

def readVersion (ssValue : List UInt8) (s : LoadState H S) : ReadResult H S :=
  reading Codec.int32.read ssValue s fun nFileVersion _ =>
    (none, { s with wss.nFileVersion := if nFileVersion = 10300 then 300 else nFileVersion })

def readCscript (ssKey ssValue : List UInt8) (s : LoadState H S) : ReadResult H S :=
  reading F.uint160 ssKey s fun _ _ =>
    reading F.CScript ssValue s fun script _ =>
      match keys.LoadCScript s.pwallet.keyStore script with
      | none => (some "Error reading wallet database: LoadCScript failed", s)
      | some keyStore => (none, { s with pwallet.keyStore := keyStore })

def readOrderposnext (ssValue : List UInt8) (s : LoadState H S) : ReadResult H S :=
  reading Codec.int64.read ssValue s fun nOrderPosNext _ =>
    (none, { s with pwallet.nOrderPosNext := nOrderPosNext })

def ReadKeyValue (ssKey ssValue : List UInt8) (s : LoadState H S) : ReadResult H S :=
  reading F.string ssKey s fun strType ssKey =>
    if strType = ascii "name" then
      reading F.string ssKey s fun _ _ => reading F.string ssValue s fun _ _ => (none, s)
    else if strType = ascii "tx" then readTx R F ssKey ssValue s
    else if strType = ascii "acentry" then readAcentry F ssKey ssValue s
    else if strType = ascii "key" ∨ strType = ascii "wkey" then
      readKey F keys strType ssKey ssValue s
    else if strType = ascii "mkey" then readMkey F ssKey ssValue s
    else if strType = ascii "ckey" then readCkey F keys ssKey ssValue s
    else if strType = ascii "keymeta" then readKeymeta F ssKey ssValue s
    else if strType = ascii "defaultkey" then reading F.CPubKey ssValue s fun _ _ => (none, s)
    else if strType = ascii "pool" then reading Codec.int64.read ssKey s fun _ _ => (none, s)
    else if strType = ascii "version" then readVersion ssValue s
    else if strType = ascii "cscript" then readCscript F keys ssKey ssValue s
    else if strType = ascii "orderposnext" then readOrderposnext ssValue s
    else (none, s)

def IsKeyType (strType : List UInt8) : Bool :=
  strType = ascii "key" || strType = ascii "wkey" || strType = ascii "mkey" ||
    strType = ascii "ckey"

/-! ## The file -/

/-- The type of a record; empty if it cannot be read. -/
def recordType (ssKey : List UInt8) : List UInt8 := ((F.string ssKey).map Prod.fst).getD []

/-- The accounting entry of a record. -/
def acentryOf (r : DbRecord) : Option (EntryKey × EntryOrder) := do
  let (strType, ssKey) ← F.string r.1
  guard (strType = ascii "acentry")
  let (strAccount, ssKey) ← F.string ssKey
  let (nEntryNo, _) ← Codec.uint64.read ssKey
  let (acentry, _) ← F.CAccountingEntry r.2
  return ((strAccount, nEntryNo), acentry)

/-- The transaction of a record. -/
def txOf (r : DbRecord) : Option (H × TxOrder) := do
  let (strType, ssKey) ← F.string r.1
  guard (strType = ascii "tx")
  let (hash, _) ← F.uint256 ssKey
  let (wtx, _) ← F.CWalletTx r.2
  return (hash, wtx.order)

/-- `Read((string)"minversion", nMinVersion)` -/
def readMinVersion (records : List DbRecord) : Option Int32 :=
  (records.lookup (writeCompactSize 10 ++ ascii "minversion")).bind fun ssValue =>
    (Codec.int32.read ssValue).map Prod.fst

/-- What Berkeley DB does in a run of `LoadWallet`. -/
structure LoadOutcome where
  /-- whether there is a cursor -/
  pcursor : Bool
  /-- whether the read with this number fails -/
  readFails : Nat → Bool
  /-- how the writes of transactions and entries end -/
  fWrite : Nat → Bool

/-- What the loop over the records keeps. -/
structure LoadScan (H S : Type) [Ord H] where
  state : LoadState H S
  result : DBErrors := .DB_LOAD_OK
  fNoncriticalErrors : Bool := false

/-- One turn of the loop: single corrupt records are tolerated, if they are no keys. -/
def loadRecord (scan : LoadScan H S) (r : DbRecord) : LoadScan H S :=
  match ReadKeyValue R F keys r.1 r.2 scan.state with
  | (none, state) => { scan with state }
  | (some _, state) =>
    if IsKeyType (recordType F r.1) then { scan with state, result := .DB_CORRUPT }
    else { scan with state, fNoncriticalErrors := true }

/-- The loop, from the record with number `i` on; an error if a read fails. -/
def loadLoop (out : LoadOutcome) :
    (records : List DbRecord) → (i : Nat) → LoadScan H S → Except (LoadScan H S) (LoadScan H S)
  | [], i, scan => if out.readFails i then .error scan else .ok scan
  | r :: records, i, scan =>
    if out.readFails i then .error scan
    else loadLoop out records (i + 1) (loadRecord R F keys scan r)

/-- The order of the transactions and entries, after the upgraded transactions are written. -/
def walletOrder (out : LoadOutcome) (records : List DbRecord) (s : LoadState H S) :
    WalletOrder H :=
  s.wss.vWalletUpgrade.foldl
    (fun w hash =>
      match w.mapWallet[hash]? with
      | none => w
      | some wtx => (w.WriteTx hash wtx).getD { w with fWrite := fun n => w.fWrite (n + 1) })
    { mapWallet := s.pwallet.mapWallet
      nOrderPosNext := s.pwallet.nOrderPosNext
      tx := ExtTreeMap.ofList (records.filterMap (txOf F)) compare
      acentry := ExtTreeMap.ofList (records.filterMap (acentryOf F)) entryCmp
      fWrite := out.fWrite }

/-- What follows on a loop that has found no error. -/
def loadEnd (out : LoadOutcome) (records : List DbRecord) (s : LoadState H S) :
    DBErrors × LoadedWallet H S :=
  -- nTimeFirstKey is only reliable if all keys have metadata
  let pwallet :=
    if s.wss.nKeys + s.wss.nCKeys ≠ s.wss.nKeyMeta then { s.pwallet with nTimeFirstKey := 0 }
    else s.pwallet
  -- Rewrite encrypted wallets of versions 0.4.0 and 0.5.0rc
  if s.wss.fIsEncrypted ∧ (s.wss.nFileVersion = 40000 ∨ s.wss.nFileVersion = 50000) then
    (.DB_NEED_REWRITE, pwallet)
  else if s.wss.fAnyUnordered then
    match (walletOrder F out records s).ReorderTransactions with
    | none => (.DB_LOAD_FAIL, pwallet)
    | some w =>
      (.DB_LOAD_OK, { pwallet with mapWallet := w.mapWallet, nOrderPosNext := w.nOrderPosNext })
  else (.DB_LOAD_OK, pwallet)

def LoadWallet (CLIENT_VERSION : Int32) (out : LoadOutcome) (file : DbFile)
    (pwallet : LoadedWallet H S) : DBErrors × LoadedWallet H S :=
  let pwallet := { pwallet with loaded := [] }
  if (readMinVersion file.records).any (CLIENT_VERSION < ·) then (.DB_TOO_NEW, pwallet)
  else if !out.pcursor then (.DB_CORRUPT, pwallet)
  else
    match loadLoop R F keys out file.records 0 { state := { pwallet } } with
    | .error scan => (.DB_CORRUPT, scan.state.pwallet)
    | .ok scan =>
      let result :=
        if scan.fNoncriticalErrors ∧ scan.result = .DB_LOAD_OK then .DB_NONCRITICAL_ERROR
        else scan.result
      if result ≠ .DB_LOAD_OK then (result, scan.state.pwallet)
      else loadEnd F out file.records scan.state

end

/-! ## The scan -/

/-- Whether `ScanForWalletTransactions` does not read a block. -/
def skipsBlock (nTimeFirstKey : Int64) (nTime : UInt32) : Bool :=
  nTimeFirstKey ≠ 0 ∧ Int64.ofNat nTime.toNat < nTimeFirstKey - 7200

/-- The blocks of a chain that are read, by their `nTime`. -/
def ScanForWalletTransactions (nTimeFirstKey : Int64) : (chain : List UInt32) → List UInt32
  | [] => []
  | nTime :: chain =>
    if skipsBlock nTimeFirstKey nTime then ScanForWalletTransactions nTimeFirstKey chain
    else nTime :: ScanForWalletTransactions nTimeFirstKey chain

/-! ## What the records say -/

section

variable {H : Type} (F : WalletFormat H)

/-- The public key of a record with a private key. -/
def keyOf (r : DbRecord) : Option CPubKey := do
  let (strType, ssKey) ← F.string r.1
  if strType = ascii "key" ∨ strType = ascii "wkey" then (F.CPubKey ssKey).map Prod.fst
  else if strType = ascii "ckey" then (F.vector ssKey).map fun vchPubKey => .Set vchPubKey.1
  else none

/-- Whether a record is one of those that are counted as keys. -/
def countsAsKey (r : DbRecord) : Bool :=
  recordType F r.1 = ascii "key" ∨ recordType F r.1 = ascii "ckey"

/-- The public key of a `keymeta` record, and its creation time. -/
def metaOf (r : DbRecord) : Option (CPubKey × Int64) := do
  let (strType, ssKey) ← F.string r.1
  guard (strType = ascii "keymeta")
  let (vchPubKey, _) ← F.vector ssKey
  let (nCreateTime, _) ← F.CKeyMetadata r.2
  return (.Set vchPubKey, nCreateTime)

/-- The keys of a file, and the `keymeta` records. -/
def keysOf (records : List DbRecord) : List CPubKey := records.filterMap (keyOf F)

def metasOf (records : List DbRecord) : List (CPubKey × Int64) := records.filterMap (metaOf F)

/-- The creation times in the order of the cursor, behind what `nTimeFirstKey` is before. -/
def createTimes (nTimeFirstKey : Int64) (records : List DbRecord) : List Int :=
  nTimeFirstKey.toInt :: (metasOf F records).map fun m => m.2.toInt

/-- What is said of a wallet whose birthday is known: every key that was loaded has its creation
time recorded, is not older than the wallet, and has no block that is newer skipped. -/
structure Dated (records : List DbRecord) {S : Type} [Ord H] (pwallet : LoadedWallet H S) :
    Prop where
  hasMeta : ∀ k ∈ pwallet.loaded, ∃ nCreateTime, (k, nCreateTime) ∈ metasOf F records
  le : ∀ k ∈ pwallet.loaded, ∀ nCreateTime, (k, nCreateTime) ∈ metasOf F records →
    pwallet.nTimeFirstKey ≤ nCreateTime
  scanned : ∀ k ∈ pwallet.loaded, ∀ nCreateTime, (k, nCreateTime) ∈ metasOf F records →
    ∀ (chain : List UInt32) (nTime : UInt32), nTime ∈ chain → nCreateTime.toInt < nTime.toNat →
      nTime ∈ ScanForWalletTransactions pwallet.nTimeFirstKey chain

/-- As many `keymeta` records as keys are counted, and some creation time counts. -/
def BirthdayKept (nTimeFirstKey : Int64) (records : List DbRecord) : Prop :=
  UInt32.ofNat (records.countP (countsAsKey F)) = UInt32.ofNat (metasOf F records).length ∧
    Earliest.counting (createTimes F nTimeFirstKey records) ≠ []

/-- A key with a `keymeta` record; none of them has a time before all that count, and none has one
that a block may have if a time is so far back that two hours cannot be taken off. -/
structure DatedKey (times : List Int) (metas : List (CPubKey × Int64)) (k : CPubKey) : Prop where
  hasMeta : ∃ nCreateTime, (k, nCreateTime) ∈ metas
  le : ∀ nCreateTime, (k, nCreateTime) ∈ metas →
    ∃ t ∈ Earliest.counting times, t ≤ nCreateTime.toInt
  noWrap : ∀ nCreateTime, (k, nCreateTime) ∈ metas → nCreateTime.toInt < 2 ^ 32 - 1 →
    ∀ t ∈ Earliest.counting times, -2 ^ 63 + 7200 ≤ t

end

/-! ## One record -/

section

variable {H K S : Type} [Ord H] [TransOrd H] [Zero H] [DecidableEq H] {R : Consensus H}
  {F : WalletFormat H} {keys : KeyStore K S}

/-- What a record adds to what is known of the keys. -/
structure Adds (s s' : LoadState H S) (newKeys : List CPubKey) (nKeys : UInt32)
    (times : List Int64) : Prop where
  loaded : s'.pwallet.loaded = s.pwallet.loaded ++ newKeys
  nKeys : s'.wss.nKeys + s'.wss.nCKeys = s.wss.nKeys + s.wss.nCKeys + nKeys
  nKeyMeta : s'.wss.nKeyMeta = s.wss.nKeyMeta + UInt32.ofNat times.length
  nTimeFirstKey : s'.pwallet.nTimeFirstKey.toInt =
    (times.map Int64.toInt).foldl Earliest.update s.pwallet.nTimeFirstKey.toInt

/-- A record that has nothing to do with keys, if it is read. -/
def Keeps (s : LoadState H S) (r : ReadResult H S) : Prop :=
  r.1 = none → Adds s r.2 [] 0 []

omit [TransOrd H] [Zero H] [DecidableEq H] in
theorem keeps_none {s s' : LoadState H S} (hloaded : s'.pwallet.loaded = s.pwallet.loaded)
    (hkeys : s'.wss.nKeys = s.wss.nKeys) (hckeys : s'.wss.nCKeys = s.wss.nCKeys)
    (hmeta : s'.wss.nKeyMeta = s.wss.nKeyMeta)
    (htime : s'.pwallet.nTimeFirstKey = s.pwallet.nTimeFirstKey) : Keeps s (none, s') := by
  intro _
  refine ⟨?_, ?_, ?_, ?_⟩
  · rw [hloaded, List.append_nil]
  · rw [hkeys, hckeys, UInt32.add_zero]
  · rw [hmeta]
    exact (UInt32.add_zero _).symm
  · rw [htime]
    rfl

omit [TransOrd H] [Zero H] [DecidableEq H] in
theorem keeps_some (s s' : LoadState H S) (strErr : String) : Keeps s (some strErr, s') := nofun

omit [TransOrd H] [Zero H] [DecidableEq H] in
theorem keeps_reading {α : Type} {p : Parser α} {ss : List UInt8} {s s' : LoadState H S}
    {f : α → List UInt8 → ReadResult H S} (h : ∀ a ss, Keeps s (f a ss)) :
    Keeps s (reading p ss s' f) := by
  unfold reading
  split
  · exact keeps_some _ _ _
  · exact h _ _

omit [TransOrd H] [Zero H] [DecidableEq H] in
theorem keeps_ite {c : Prop} [Decidable c] {s : LoadState H S} {r r' : ReadResult H S}
    (h : Keeps s r) (h' : Keeps s r') : Keeps s (if c then r else r') := by
  split
  · exact h
  · exact h'

theorem keeps_readTx (ssKey ssValue : List UInt8) (s : LoadState H S) :
    Keeps s (readTx R F ssKey ssValue s) := by
  refine keeps_reading fun hash _ => ?_
  have hkeep (s' : LoadState H S) (nOrderPos : Int64) (h : Keeps s (none, s')) :
      Keeps s (none, if nOrderPos = -1 then { s' with wss.fAnyUnordered := true } else s') := by
    split
    · exact fun _ => ⟨(h rfl).loaded, (h rfl).nKeys, (h rfl).nKeyMeta, (h rfl).nTimeFirstKey⟩
    · exact h
  dsimp only
  split
  · exact keeps_some _ _ _
  · split
    · split
      · split
        · exact hkeep _ _ (keeps_none rfl rfl rfl rfl rfl)
        · exact keeps_reading fun _ _ => keeps_reading fun _ _ => keeps_reading fun _ _ =>
            hkeep _ _ (keeps_none rfl rfl rfl rfl rfl)
      · exact hkeep _ _ (keeps_none rfl rfl rfl rfl rfl)
    · exact keeps_some _ _ _

omit [TransOrd H] [Zero H] [DecidableEq H] in
theorem keeps_readAcentry (ssKey ssValue : List UInt8) (s : LoadState H S) :
    Keeps s (readAcentry F ssKey ssValue s) := by
  refine keeps_reading fun _ _ => keeps_reading fun _ _ => ?_
  split
  · exact keeps_none rfl rfl rfl rfl rfl
  · refine keeps_reading fun acentry _ => ?_
    split
    · exact keeps_none rfl rfl rfl rfl rfl
    · exact keeps_none rfl rfl rfl rfl rfl

omit [TransOrd H] [Zero H] [DecidableEq H] in
theorem keeps_readMkey (ssKey ssValue : List UInt8) (s : LoadState H S) :
    Keeps s (readMkey F ssKey ssValue s) := by
  refine keeps_reading fun _ _ => keeps_reading fun _ _ => ?_
  split
  · exact keeps_some _ _ _
  · exact keeps_none rfl rfl rfl rfl rfl

omit [TransOrd H] [Zero H] [DecidableEq H] in
theorem keeps_readCscript (ssKey ssValue : List UInt8) (s : LoadState H S) :
    Keeps s (readCscript F keys ssKey ssValue s) := by
  refine keeps_reading fun _ _ => keeps_reading fun _ _ => ?_
  split
  · exact keeps_some _ _ _
  · exact keeps_none rfl rfl rfl rfl rfl

omit [TransOrd H] [Zero H] [DecidableEq H] in
theorem reading_eq_none {α : Type} {p : Parser α} {ss : List UInt8} {s s' : LoadState H S}
    {f : α → List UInt8 → ReadResult H S} (h : reading p ss s f = (none, s')) :
    ∃ a ss', p ss = some (a, ss') ∧ f a ss' = (none, s') := by
  unfold reading at h
  split at h
  · cases h
  · next a ss' hp => exact ⟨a, ss', hp, h⟩

omit [TransOrd H] [Zero H] [DecidableEq H] in
theorem adds_readKey {strType ssKey ssValue : List UInt8} {s s' : LoadState H S}
    (h : readKey F keys strType ssKey ssValue s = (none, s')) :
    ∃ k ss, F.CPubKey ssKey = some (k, ss) ∧
      Adds s s' [k] (if strType = ascii "key" then 1 else 0) [] := by
  obtain ⟨k, ss, hk, h⟩ := reading_eq_none h
  refine ⟨k, ss, hk, ?_⟩
  split at h
  · cases h
  obtain ⟨pkey, _, -, h⟩ := reading_eq_none h
  split at h
  · cases h
  split at h
  · cases h
  split at h
  · cases h
  cases h
  split_ifs
  · refine ⟨rfl, ?_, (UInt32.add_zero _).symm, rfl⟩
    change s.wss.nKeys + 1 + s.wss.nCKeys = s.wss.nKeys + s.wss.nCKeys + 1
    rw [UInt32.add_assoc, UInt32.add_comm 1, UInt32.add_assoc]
  · exact ⟨rfl, (UInt32.add_zero _).symm, (UInt32.add_zero _).symm, rfl⟩

omit [TransOrd H] [Zero H] [DecidableEq H] in
theorem adds_readCkey {ssKey ssValue : List UInt8} {s s' : LoadState H S}
    (h : readCkey F keys ssKey ssValue s = (none, s')) :
    ∃ vchPubKey ss, F.vector ssKey = some (vchPubKey, ss) ∧ Adds s s' [.Set vchPubKey] 1 [] := by
  obtain ⟨vchPubKey, ss, hk, h⟩ := reading_eq_none h
  refine ⟨vchPubKey, ss, hk, ?_⟩
  obtain ⟨vchPrivKey, _, -, h⟩ := reading_eq_none h
  dsimp only at h
  split at h
  · cases h
  cases h
  exact ⟨rfl, (UInt32.add_assoc ..).symm, (UInt32.add_zero _).symm, rfl⟩

omit [TransOrd H] [Zero H] [DecidableEq H] in
theorem adds_readKeymeta {ssKey ssValue : List UInt8} {s s' : LoadState H S}
    (h : readKeymeta F ssKey ssValue s = (none, s')) :
    ∃ vchPubKey ss nCreateTime ss', F.vector ssKey = some (vchPubKey, ss) ∧
      F.CKeyMetadata ssValue = some (nCreateTime, ss') ∧ Adds s s' [] 0 [nCreateTime] := by
  obtain ⟨vchPubKey, ss, hk, h⟩ := reading_eq_none h
  obtain ⟨nCreateTime, ss', htime, h⟩ := reading_eq_none h
  refine ⟨vchPubKey, ss, nCreateTime, ss', hk, htime, ?_⟩
  have hiff : (s.pwallet.nTimeFirstKey = 0 ∨ nCreateTime < s.pwallet.nTimeFirstKey) ↔
      s.pwallet.nTimeFirstKey.toInt = 0 ∨
        nCreateTime.toInt < s.pwallet.nTimeFirstKey.toInt := by
    rw [Int64.lt_iff_toInt_lt, ← Int64.toInt_inj, Int64.toInt_zero]
  dsimp only at h
  split at h
  · next hearlier =>
    cases h
    refine ⟨(List.append_nil _).symm, (UInt32.add_zero _).symm, rfl, ?_⟩
    exact (if_pos (hiff.1 hearlier)).symm
  · next hearlier =>
    cases h
    refine ⟨(List.append_nil _).symm, (UInt32.add_zero _).symm, rfl, ?_⟩
    exact (if_neg (mt hiff.2 hearlier)).symm

section

omit [Ord H] [TransOrd H] [Zero H] [DecidableEq H]

variable {r : DbRecord} {strType ssKey : List UInt8}

theorem keyOf_of_eq (h : F.string r.1 = some (strType, ssKey)) :
    keyOf F r =
      if strType = ascii "key" ∨ strType = ascii "wkey" then (F.CPubKey ssKey).map Prod.fst
      else if strType = ascii "ckey" then
        (F.vector ssKey).map fun vchPubKey => .Set vchPubKey.1
      else none := by
  unfold keyOf
  rw [h]
  rfl

theorem countsAsKey_of_eq (h : F.string r.1 = some (strType, ssKey)) :
    countsAsKey F r = decide (strType = ascii "key" ∨ strType = ascii "ckey") := by
  unfold countsAsKey recordType
  rw [h]
  rfl

theorem metaOf_of_ne (h : F.string r.1 = some (strType, ssKey)) (hne : strType ≠ ascii "keymeta") :
    metaOf F r = none := by
  have hguard : (guard (strType = ascii "keymeta") : Option Unit) = none := if_neg hne
  unfold metaOf
  rw [h]
  change Option.bind (guard (strType = ascii "keymeta")) _ = none
  rw [hguard]
  rfl

theorem metaOf_of_keymeta {vchPubKey ss ss' : List UInt8} {nCreateTime : Int64}
    (h : F.string r.1 = some (ascii "keymeta", ssKey))
    (hk : F.vector ssKey = some (vchPubKey, ss))
    (htime : F.CKeyMetadata r.2 = some (nCreateTime, ss')) :
    metaOf F r = some (.Set vchPubKey, nCreateTime) := by
  unfold metaOf
  rw [h]
  change (F.vector ssKey).bind _ = _
  rw [hk]
  change (F.CKeyMetadata r.2).bind _ = _
  rw [htime]
  rfl

end

/-- The types of records that are not about keys. -/
theorem keeps_ReadKeyValue {r : DbRecord} {strType ssKey : List UInt8} (s : LoadState H S)
    (htype : F.string r.1 = some (strType, ssKey))
    (hkey : ¬(strType = ascii "key" ∨ strType = ascii "wkey")) (hckey : strType ≠ ascii "ckey")
    (hmeta : strType ≠ ascii "keymeta") : Keeps s (ReadKeyValue R F keys r.1 r.2 s) := by
  unfold ReadKeyValue reading
  rw [htype]
  dsimp only
  rw [if_neg hkey, if_neg hckey, if_neg hmeta]
  have hread {α : Type} {p : Parser α} {ss : List UInt8} :
      Keeps s (reading p ss s fun _ _ => (none, s)) :=
    keeps_reading fun _ _ => keeps_none rfl rfl rfl rfl rfl
  refine keeps_ite (keeps_reading fun _ _ => hread) ?_
  refine keeps_ite (keeps_readTx _ _ _) ?_
  refine keeps_ite (keeps_readAcentry _ _ _) ?_
  refine keeps_ite (keeps_readMkey _ _ _) ?_
  refine keeps_ite hread ?_
  refine keeps_ite hread ?_
  refine keeps_ite (keeps_reading fun _ _ => keeps_none rfl rfl rfl rfl rfl) ?_
  refine keeps_ite (keeps_readCscript _ _ _) ?_
  refine keeps_ite (keeps_reading fun _ _ => keeps_none rfl rfl rfl rfl rfl) ?_
  exact keeps_none rfl rfl rfl rfl rfl

/-- **What a record adds**, by its type. -/
theorem adds_ReadKeyValue {r : DbRecord} {s s' : LoadState H S}
    (h : ReadKeyValue R F keys r.1 r.2 s = (none, s')) :
    Adds s s' (keyOf F r).toList (if countsAsKey F r then 1 else 0)
      ((metaOf F r).map Prod.snd).toList := by
  obtain ⟨strType, ssKey, htype, hread⟩ := reading_eq_none h
  rw [keyOf_of_eq htype, countsAsKey_of_eq htype]
  by_cases hkey : strType = ascii "key" ∨ strType = ascii "wkey"
  · have hread : readKey F keys strType ssKey r.2 s = (none, s') := by
      rcases hkey with rfl | rfl <;> exact hread
    obtain ⟨k, ss, hk, hadds⟩ := adds_readKey hread
    have hckey : strType ≠ ascii "ckey" := by rcases hkey with rfl | rfl <;> decide
    have hmeta : strType ≠ ascii "keymeta" := by rcases hkey with rfl | rfl <;> decide
    have hcount : decide (strType = ascii "key" ∨ strType = ascii "ckey") =
        decide (strType = ascii "key") := decide_eq_decide.2 (or_iff_left hckey)
    rw [if_pos hkey, hk, metaOf_of_ne htype hmeta, hcount]
    simp only [decide_eq_true_iff]
    exact hadds
  by_cases hckey : strType = ascii "ckey"
  · subst hckey
    obtain ⟨vchPubKey, ss, hk, hadds⟩ := adds_readCkey hread
    rw [if_neg hkey, if_pos rfl, hk, metaOf_of_ne htype (by decide), if_pos (by decide)]
    exact hadds
  have hcount : ¬decide (strType = ascii "key" ∨ strType = ascii "ckey") = true := by
    rw [decide_eq_true_iff]
    exact fun h => h.elim (fun h => hkey (.inl h)) hckey
  rw [if_neg hkey, if_neg hckey, if_neg hcount]
  by_cases hmeta : strType = ascii "keymeta"
  · subst hmeta
    obtain ⟨vchPubKey, ss, nCreateTime, ss', hk, htime, hadds⟩ := adds_readKeymeta hread
    rw [metaOf_of_keymeta htype hk htime]
    exact hadds
  have hadds : Keeps s (ReadKeyValue R F keys r.1 r.2 s) :=
    keeps_ReadKeyValue s htype hkey hckey hmeta
  rw [h] at hadds
  rw [metaOf_of_ne htype hmeta]
  exact hadds rfl

/-! ## The loop -/

omit [TransOrd H] [Zero H] [DecidableEq H] in
theorem Adds.trans {s s₁ s₂ : LoadState H S} {k₁ k₂ : List CPubKey} {n₁ n₂ : UInt32}
    {t₁ t₂ : List Int64} (h₁ : Adds s s₁ k₁ n₁ t₁) (h₂ : Adds s₁ s₂ k₂ n₂ t₂) :
    Adds s s₂ (k₁ ++ k₂) (n₁ + n₂) (t₁ ++ t₂) where
  loaded := by rw [h₂.loaded, h₁.loaded, List.append_assoc]
  nKeys := by rw [h₂.nKeys, h₁.nKeys, UInt32.add_assoc]
  nKeyMeta := by
    rw [h₂.nKeyMeta, h₁.nKeyMeta, List.length_append, UInt32.ofNat_add, UInt32.add_assoc]
  nTimeFirstKey := by
    rw [h₂.nTimeFirstKey, h₁.nTimeFirstKey, List.map_append, List.foldl_append]

/-- No error in a turn of the loop, and none before it. -/
theorem adds_loadRecord {scan : LoadScan H S} {r : DbRecord}
    (hresult : (loadRecord R F keys scan r).result = .DB_LOAD_OK)
    (hnoncritical : (loadRecord R F keys scan r).fNoncriticalErrors = false) :
    scan.result = .DB_LOAD_OK ∧ scan.fNoncriticalErrors = false ∧
      Adds scan.state (loadRecord R F keys scan r).state (keyOf F r).toList
        (if countsAsKey F r then 1 else 0) ((metaOf F r).map Prod.snd).toList := by
  unfold loadRecord at hresult hnoncritical ⊢
  split at hresult
  · next state hread =>
    rw [hread] at hnoncritical
    exact ⟨hresult, hnoncritical, adds_ReadKeyValue hread⟩
  · next strErr state hread =>
    rw [hread] at hnoncritical
    split_ifs at hresult hnoncritical

/-- **What the records add**, if no error is found. -/
theorem adds_loadLoop {out : LoadOutcome} {records : List DbRecord} {i : Nat}
    {scan scan' : LoadScan H S} (h : loadLoop R F keys out records i scan = .ok scan')
    (hresult : scan'.result = .DB_LOAD_OK) (hnoncritical : scan'.fNoncriticalErrors = false) :
    scan.result = .DB_LOAD_OK ∧ scan.fNoncriticalErrors = false ∧
      Adds scan.state scan'.state (keysOf F records)
        (UInt32.ofNat (records.countP (countsAsKey F))) ((metasOf F records).map Prod.snd) := by
  induction records generalizing i scan with
  | nil =>
    unfold loadLoop at h
    split at h
    · cases h
    · cases h
      exact ⟨hresult, hnoncritical, keeps_none rfl rfl rfl rfl rfl rfl⟩
  | cons r records ih =>
    unfold loadLoop at h
    split at h
    · cases h
    · obtain ⟨hresult₁, hnoncritical₁, hrest⟩ := ih h
      obtain ⟨hresult₀, hnoncritical₀, hrecord⟩ := adds_loadRecord hresult₁ hnoncritical₁
      refine ⟨hresult₀, hnoncritical₀, ?_⟩
      have hadds := hrecord.trans hrest
      have hkeys : (keyOf F r).toList ++ keysOf F records = keysOf F (r :: records) := by
        unfold keysOf
        rw [List.filterMap_cons]
        cases keyOf F r <;> rfl
      have hmetas : ((metaOf F r).map Prod.snd).toList ++ (metasOf F records).map Prod.snd =
          (metasOf F (r :: records)).map Prod.snd := by
        unfold metasOf
        rw [List.filterMap_cons]
        cases metaOf F r <;> rfl
      have hcount : (if countsAsKey F r then 1 else 0) +
          UInt32.ofNat (records.countP (countsAsKey F)) =
            UInt32.ofNat ((r :: records).countP (countsAsKey F)) := by
        rw [List.countP_cons, Nat.add_comm, UInt32.ofNat_add]
        split_ifs <;> rfl
      rwa [hkeys, hmetas, hcount] at hadds

omit [Zero H] [DecidableEq H] in
/-- What is done after the loop does not load keys, and keeps the time if the counts agree. -/
theorem loadEnd_ok {out : LoadOutcome} {records : List DbRecord} {s : LoadState H S}
    {w : LoadedWallet H S} (h : loadEnd F out records s = (.DB_LOAD_OK, w)) :
    w.loaded = s.pwallet.loaded ∧ w.nTimeFirstKey =
      if s.wss.nKeys + s.wss.nCKeys = s.wss.nKeyMeta then s.pwallet.nTimeFirstKey else 0 := by
  unfold loadEnd at h
  dsimp only at h
  have hwallet : w.loaded = (if s.wss.nKeys + s.wss.nCKeys ≠ s.wss.nKeyMeta then
        { s.pwallet with nTimeFirstKey := 0 } else s.pwallet).loaded ∧
      w.nTimeFirstKey = (if s.wss.nKeys + s.wss.nCKeys ≠ s.wss.nKeyMeta then
        { s.pwallet with nTimeFirstKey := 0 } else s.pwallet).nTimeFirstKey := by
    generalize (if s.wss.nKeys + s.wss.nCKeys ≠ s.wss.nKeyMeta then
      { s.pwallet with nTimeFirstKey := 0 } else s.pwallet) = pwallet at h ⊢
    split at h
    · cases h
    split at h
    · split at h
      · cases h
      · cases h
        exact ⟨rfl, rfl⟩
    · cases h
      exact ⟨rfl, rfl⟩
  rw [hwallet.1, hwallet.2]
  by_cases hcount : s.wss.nKeys + s.wss.nCKeys = s.wss.nKeyMeta
  · rw [if_neg (not_not.2 hcount), if_pos hcount]
    exact ⟨rfl, rfl⟩
  · rw [if_pos hcount, if_neg hcount]
    exact ⟨rfl, rfl⟩

/-- What is loaded, and the birthday that is left. -/
theorem LoadWallet_ok {CLIENT_VERSION : Int32} {out : LoadOutcome} {file : DbFile}
    {pwallet w : LoadedWallet H S}
    (h : LoadWallet R F keys CLIENT_VERSION out file pwallet = (.DB_LOAD_OK, w)) :
    w.loaded = keysOf F file.records ∧ w.nTimeFirstKey.toInt =
      if UInt32.ofNat (file.records.countP (countsAsKey F)) =
          UInt32.ofNat (metasOf F file.records).length then
        (createTimes F pwallet.nTimeFirstKey file.records).foldl Earliest.update 0
      else 0 := by
  unfold LoadWallet at h
  dsimp only at h
  split at h
  · cases h
  split at h
  · cases h
  split at h
  · cases h
  next scan hloop =>
    split at h
    · cases h
    next hok =>
      split at h
      · next hbad => exact absurd (Prod.mk.inj h).1 hbad
      next hgood =>
      have hresult : scan.result = .DB_LOAD_OK := not_not.1 hgood
      have hnoncritical : scan.fNoncriticalErrors = false :=
        Bool.eq_false_iff.2 fun hbad => hok ⟨hbad, hresult⟩
      obtain ⟨-, -, hadds⟩ := adds_loadLoop hloop hresult hnoncritical
      obtain ⟨hloaded, htime⟩ := loadEnd_ok h
      refine ⟨hloaded.trans (hadds.loaded.trans (List.nil_append _)), ?_⟩
      have hkeys : scan.state.wss.nKeys + scan.state.wss.nCKeys =
          UInt32.ofNat (file.records.countP (countsAsKey F)) :=
        hadds.nKeys.trans (UInt32.zero_add _)
      have hmetas : scan.state.wss.nKeyMeta = UInt32.ofNat (metasOf F file.records).length := by
        rw [hadds.nKeyMeta, List.length_map]
        exact UInt32.zero_add _
      have hzero : Earliest.update 0 pwallet.nTimeFirstKey.toInt = pwallet.nTimeFirstKey.toInt :=
        if_pos (.inl rfl)
      rw [htime, hkeys, hmetas, apply_ite Int64.toInt, hadds.nTimeFirstKey, List.map_map,
        createTimes, List.foldl_cons, hzero]
      rfl

/-! ## The birthday -/

theorem mem_ScanForWalletTransactions {nTimeFirstKey : Int64} {chain : List UInt32}
    {nTime : UInt32} : nTime ∈ ScanForWalletTransactions nTimeFirstKey chain ↔
      nTime ∈ chain ∧ skipsBlock nTimeFirstKey nTime = false := by
  induction chain with
  | nil => simp [ScanForWalletTransactions]
  | cons n chain ih =>
    unfold ScanForWalletTransactions
    split
    · next hskip =>
      rw [ih, List.mem_cons]
      refine ⟨fun h => ⟨.inr h.1, h.2⟩, fun h => ⟨h.1.resolve_left ?_, h.2⟩⟩
      rintro rfl
      rw [hskip] at h
      exact nomatch h.2
    · next hskip =>
      rw [List.mem_cons, List.mem_cons, ih]
      refine ⟨?_, ?_⟩
      · rintro (rfl | h)
        · exact ⟨.inl rfl, Bool.eq_false_iff.2 hskip⟩
        · exact ⟨.inr h.1, h.2⟩
      · rintro ⟨rfl | h, hkeep⟩
        · exact .inl rfl
        · exact .inr ⟨h, hkeep⟩

theorem toInt_toNat_uint32 (n : UInt32) : (Int64.ofNat n.toNat).toInt = n.toNat :=
  Int64.toInt_ofNat_of_lt (n.toNat_lt.trans (by decide))

/-- Nothing that is newer than the birthday is skipped, if two hours can be taken off it. -/
theorem skipsBlock_of_lt {nTimeFirstKey : Int64} {nTime : UInt32}
    (hwrap : -2 ^ 63 + 7200 ≤ nTimeFirstKey.toInt) (h : nTimeFirstKey.toInt < nTime.toNat) :
    skipsBlock nTimeFirstKey nTime = false := by
  have hsub : (nTimeFirstKey - 7200).toInt = nTimeFirstKey.toInt - 7200 :=
    toInt_sub ⟨by change _ ≤ nTimeFirstKey.toInt - 7200; omega,
      by change nTimeFirstKey.toInt - 7200 < _; have := nTimeFirstKey.toInt_lt; omega⟩
  refine decide_eq_false fun hskip => ?_
  have hlt := Int64.lt_iff_toInt_lt.1 hskip.2
  rw [hsub, toInt_toNat_uint32] at hlt
  omega

/-- If they cannot, all blocks are skipped. -/
theorem skipsBlock_of_wrap {nTimeFirstKey : Int64}
    (hwrap : nTimeFirstKey.toInt < -2 ^ 63 + 7200) (nTime : UInt32) :
    skipsBlock nTimeFirstKey nTime = true := by
  have hge := nTimeFirstKey.le_toInt
  have hsub : (nTimeFirstKey - 7200).toInt = nTimeFirstKey.toInt - 7200 + 2 ^ 64 := by
    rw [Int64.toInt_sub]
    change (nTimeFirstKey.toInt - 7200).bmod (2 ^ 64) = _
    rw [← Int.add_bmod_right, Int.bmod_eq_of_le] <;> omega
  have hlt := nTime.toNat_lt
  refine decide_eq_true ⟨?_, Int64.lt_iff_toInt_lt.2 ?_⟩
  · rintro rfl
    exact absurd hwrap (by decide)
  · rw [hsub, toInt_toNat_uint32]
    omega

/-- `nTimeFirstKey` is left as it is if and only if the counts agree and a time counts. -/
theorem birthdayKept_iff {CLIENT_VERSION : Int32} {out : LoadOutcome} {file : DbFile}
    {pwallet w : LoadedWallet H S}
    (h : LoadWallet R F keys CLIENT_VERSION out file pwallet = (.DB_LOAD_OK, w)) :
    w.nTimeFirstKey ≠ 0 ↔ BirthdayKept F pwallet.nTimeFirstKey file.records := by
  obtain ⟨-, htime⟩ := LoadWallet_ok h
  have hzero : w.nTimeFirstKey = 0 ↔ w.nTimeFirstKey.toInt = 0 := by
    rw [← Int64.toInt_inj, Int64.toInt_zero]
  unfold BirthdayKept
  rw [Ne, hzero, htime]
  split
  · next hcount =>
    rw [and_iff_right hcount, not_iff_not]
    rcases Earliest.isEarliest_foldl (createTimes F pwallet.nTimeFirstKey file.records) with
      ⟨hnil, hkept⟩ | ⟨hne, hmem, -⟩
    · exact iff_of_true hkept hnil
    · exact iff_of_false hne fun hnil => List.not_mem_nil (hnil ▸ hmem)
  · next hcount => exact iff_of_false (not_not_intro rfl) fun hkept => hcount hkept.1

/-- A birthday that is left is the earliest of the times that count. -/
theorem birthday_earliest {CLIENT_VERSION : Int32} {out : LoadOutcome} {file : DbFile}
    {pwallet w : LoadedWallet H S}
    (h : LoadWallet R F keys CLIENT_VERSION out file pwallet = (.DB_LOAD_OK, w))
    (hkept : BirthdayKept F pwallet.nTimeFirstKey file.records) :
    w.nTimeFirstKey.toInt ∈
        Earliest.counting (createTimes F pwallet.nTimeFirstKey file.records) ∧
      ∀ t ∈ Earliest.counting (createTimes F pwallet.nTimeFirstKey file.records),
        w.nTimeFirstKey.toInt ≤ t := by
  obtain ⟨-, htime⟩ := LoadWallet_ok h
  rw [htime, if_pos hkept.1]
  rcases Earliest.isEarliest_foldl (createTimes F pwallet.nTimeFirstKey file.records) with
    ⟨hnil, -⟩ | ⟨-, hmem, hle⟩
  · exact absurd hnil hkept.2
  · exact ⟨hmem, hle⟩

/-- **The birthday is that of the keys** if and only if the counts do not agree or no time counts,
or every key has its time recorded and the times that count are before it. -/
theorem LoadWallet_dated_iff {CLIENT_VERSION : Int32} {out : LoadOutcome} {file : DbFile}
    {pwallet w : LoadedWallet H S}
    (h : LoadWallet R F keys CLIENT_VERSION out file pwallet = (.DB_LOAD_OK, w)) :
    (w.nTimeFirstKey ≠ 0 → Dated F file.records w) ↔
      (BirthdayKept F pwallet.nTimeFirstKey file.records → ∀ k ∈ keysOf F file.records,
        DatedKey (createTimes F pwallet.nTimeFirstKey file.records) (metasOf F file.records)
          k) := by
  rw [birthdayKept_iff h]
  refine imp_congr_right fun hkept => ?_
  obtain ⟨hmem, hle⟩ := birthday_earliest h hkept
  obtain ⟨hloaded, -⟩ := LoadWallet_ok h
  rw [← hloaded]
  constructor
  · rintro hdated k hk
    refine ⟨hdated.hasMeta k hk, fun t ht => ⟨_, hmem, Int64.le_iff_toInt_le.1
      (hdated.le k hk t ht)⟩, fun t ht hlt t' ht' => ?_⟩
    by_contra hwrap
    -- the last block of all is newer than the key, and is skipped
    have hskip := skipsBlock_of_wrap ((hle t' ht').trans_lt (Int.not_le.1 hwrap)) 0xffffffff
    have hscan := hdated.scanned k hk t ht [0xffffffff] 0xffffffff List.mem_cons_self hlt
    rw [mem_ScanForWalletTransactions, hskip] at hscan
    exact nomatch hscan.2
  · intro hkeys
    refine ⟨fun k hk => (hkeys k hk).hasMeta, fun k hk t ht => ?_,
      fun k hk t ht chain nTime hchain hlt => ?_⟩
    · obtain ⟨t', ht', hle'⟩ := (hkeys k hk).le t ht
      exact Int64.le_iff_toInt_le.2 ((hle t' ht').trans hle')
    · obtain ⟨t', ht', hle'⟩ := (hkeys k hk).le t ht
      have hbound := nTime.toNat_lt
      rw [mem_ScanForWalletTransactions]
      refine ⟨hchain, skipsBlock_of_lt ((hkeys k hk).noWrap t ht (by omega) _ hmem) ?_⟩
      exact ((hle t' ht').trans hle').trans_lt hlt

end

/-! ## A key without its time -/

/-- Bytes behind their number. -/
def sized (bs : List UInt8) : List UInt8 := writeCompactSize bs.length ++ bs

/-- Fewer than 253 bytes behind their number. -/
def readSized : Parser (List UInt8)
  | [] => none
  | nSize :: bs =>
    if nSize < 253 ∧ nSize.toNat ≤ bs.length then some (bs.splitAt nSize.toNat) else none

/-- As the records of few bytes are read; other than keys and their times none are there. -/
def fewBytes : WalletFormat Nat where
  string := readSized
  vector := readSized
  uint160 _ := none
  uint256 _ := none
  CScript _ := none
  CPubKey := CPubKey.Set <$> readSized
  CPrivKey := readSized
  CWalletKey := readSized
  CMasterKey _ := none
  CKeyMetadata := do
    let _ ← Codec.int32.read
    Codec.int64.read
  CAccountingEntry _ := none
  CWalletTx _ := none
  thrownTx _ := ⟨0, -1⟩

/-- The bytes of a public key, by a number. -/
def pubKeyBytes (n : UInt8) : List UInt8 := 2 :: List.replicate 31 0 ++ [n]

/-- Private keys of one byte, which is the number of the public key. -/
def numberedKeys : KeyStore UInt8 (List CPubKey) where
  SetPrivKey pkey _ := pkey.head?
  GetPubKey n := .Set (pubKeyBytes n)
  LoadKey s _ k := some (k :: s)
  AddCryptedKey s k _ := some (k :: s)
  LoadCScript s _ := some s

def keyRecord (strType : String) (n : UInt8) : DbRecord :=
  (sized (ascii strType) ++ sized (pubKeyBytes n), sized [n])

def keymetaRecord (n : UInt8) (nCreateTime : Int64) : DbRecord :=
  (sized (ascii "keymeta") ++ sized (pubKeyBytes n),
    Codec.int32.write 1 ++ Codec.int64.write nCreateTime)

/-- A key with its time. -/
def oneKey : DbFile where
  records := [keyRecord "key" 1, keymetaRecord 1 1000000]
  nodup := by decide

/-- And an old key without. -/
def oldKey : DbFile where
  records := [keyRecord "key" 1, keymetaRecord 1 1000000, keyRecord "wkey" 2]
  nodup := by decide

def loadAll : LoadOutcome := ⟨true, fun _ => false, fun _ => true⟩

def noWallet : LoadedWallet Nat (List CPubKey) := ⟨∅, ∅, [], 0, 0, []⟩

/-- A run in which the wallet is loaded. -/
def runOf (file : DbFile) : DBErrors × LoadedWallet Nat (List CPubKey) :=
  LoadWallet Consensus.numbers fewBytes numberedKeys 80000 loadAll file noWallet

theorem LoadWallet_dated_oneKey :
    ∃ w, runOf oneKey = (.DB_LOAD_OK, w) ∧ w.nTimeFirstKey = 1000000 ∧
      ((w.nTimeFirstKey ≠ 0 → Dated fewBytes oneKey.records w) ↔
        (BirthdayKept fewBytes 0 oneKey.records → ∀ k ∈ keysOf fewBytes oneKey.records,
          DatedKey (createTimes fewBytes 0 oneKey.records) (metasOf fewBytes oneKey.records)
            k)) := by
  have hrun : runOf oneKey = (.DB_LOAD_OK, (runOf oneKey).2) := Prod.ext (by decide) rfl
  exact ⟨_, hrun, by decide, LoadWallet_dated_iff hrun⟩

theorem LoadWallet_noMetadata :
    ∃ w, runOf oldKey = (.DB_LOAD_OK, w) ∧ w.nTimeFirstKey ≠ 0 ∧
      ¬Dated fewBytes oldKey.records w := by
  have hrun : runOf oldKey = (.DB_LOAD_OK, (runOf oldKey).2) := Prod.ext (by decide) rfl
  refine ⟨_, hrun, by decide, fun hdated => ?_⟩
  obtain ⟨nCreateTime, hmeta⟩ := hdated.hasMeta (.Set (pubKeyBytes 2)) (by decide)
  have hmetas : metasOf fewBytes oldKey.records = [(.Set (pubKeyBytes 1), 1000000)] := by decide
  rw [hmetas, List.mem_singleton] at hmeta
  exact absurd (Prod.mk.inj hmeta).1 (by decide)

end TriTip
