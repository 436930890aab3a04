import TriTip.Base58.CBase58Data
import TriTip.Wallet.LoadWallet

/-!
# Records that cannot be read

`ReadKeyValue` of `walletdb.cpp`, with all that it does to the wallet. Names and transactions are
read into the entries of `mapAddressBook` and `mapWallet`, which `operator[]` makes; when the read
throws, the entry stays. Only a transaction that was read and is not valid is taken out again, also
if it was there before. `ReadKeyValue_clean_iff` says when a record that is refused leaves the
containers alone. The reads of `serialize.h` and `wallet.h` and the key store are arbitrary.
-/

namespace TriTip.WalletRecords

/-- The fields that no read of a record looks at are in `rest`. -/
structure CWalletTx (H X : Type) where
  tx : CTransaction H
  fTimeReceivedIsTxTime : UInt32
  nOrderPos : Int64
  strFromAccount : List UInt8
  rest : X

structure CMasterKey where
  vchCryptedKey : List UInt8
  vchSalt : List UInt8
  nDerivationMethod : UInt32
  nDeriveIterations : UInt32
  vchOtherDerivationParameters : List UInt8
  deriving DecidableEq

/-- How the values in the records are read, but for integers; strings and transactions are read in
place. -/
structure RecordFormat (H X : Type) where
  string : Decoder (List UInt8) Unit
  /-- `vector<unsigned char>` -/
  vector : Parser (List UInt8)
  uint160 : Parser (List UInt8)
  uint256 : Parser H
  CScript : Parser CScript
  CPubKey : Parser CPubKey
  CPrivKey : Parser (List UInt8)
  /-- its `vchPrivKey` -/
  CWalletKey : Parser (List UInt8)
  CMasterKey : Parser CMasterKey
  /-- its `nCreateTime` -/
  CKeyMetadata : Parser Int64
  CAccountingEntry : Parser EntryOrder
  CWalletTx : Decoder (CWalletTx H X) Unit
  /-- `CWalletTx()` -/
  newTx : WalletRecords.CWalletTx H X
  BindWallet : X → X
  /-- `uint256::ToString` -/
  ToString : H → String

/-- A string that is read into a new variable. -/
def RecordFormat.newString {H X : Type} (F : RecordFormat H X) : Parser (List UInt8) := fun ss =>
  match F.string [] ss with
  | (str, some (_, ss)) => some (str, ss)
  | (_, none) => none

/-- Private keys, and the store for them: whether a key or script is added, and the store then. -/
structure CKeyStore (K S : Type) where
  SetPrivKey : List UInt8 → Bool → Option K
  GetPubKey : K → CPubKey
  LoadKey : S → K → CPubKey → Bool × S
  AddCryptedKey : S → CPubKey → List UInt8 → Bool × S
  LoadCScript : S → CScript → Bool × S

structure CWallet (H X S : Type) where
  mapWallet : H → Option (CWalletTx H X)
  mapAddressBook : CTxDestination → Option (List UInt8)
  mapMasterKeys : UInt32 → Option CMasterKey
  nMasterKeyMaxID : UInt32
  setKeyPool : Finset Int64
  keyStore : S
  vchDefaultKey : CPubKey
  nTimeFirstKey : Int64
  nOrderPosNext : Int64

/-- What `ReadKeyValue` may change. -/
structure RecordState (H X S : Type) where
  pwallet : CWallet H X S
  wss : CWalletScanState H
  nAccountingEntryNumber : UInt64
  strType : List UInt8
  strErr : List UInt8

/-- What `ReadKeyValue` returns, and the state then. -/
abbrev RecordResult (H X S : Type) := Bool × RecordState H X S

/-- A value is read into a new variable; an exception makes `ReadKeyValue` return false. -/
def reading {H X S α : Type} (p : Parser α) (ss : List UInt8) (s : RecordState H X S)
    (f : α → List UInt8 → RecordResult H X S) : RecordResult H X S :=
  match p ss with
  | none => (false, s)
  | some (a, ss) => f a ss

section

variable {H K X S : Type} [Zero H] [DecidableEq H] (R : Consensus H) (F : RecordFormat H X)
  (keys : CKeyStore K S) (Hash : Hasher) (fTestNet : Bool)

/-! ## The types of records -/

def setName (s : RecordState H X S) (address : CTxDestination) (strName : List UInt8) :
    RecordState H X S :=
  let mapAddressBook := Function.update s.pwallet.mapAddressBook address (some strName)
  { s with pwallet.mapAddressBook := mapAddressBook }

def readName (ssKey ssValue : List UInt8) (s : RecordState H X S) : RecordResult H X S :=
  reading F.newString ssKey s fun strAddress _ =>
    match CBitcoinAddress.ofString Hash strAddress with
    | .error _ => (false, s)
    | .ok addr =>
      let address := CBitcoinAddress.Get fTestNet addr
      match F.string ((s.pwallet.mapAddressBook address).getD []) ssValue with
      | (strName, none) => (false, setName s address strName)
      | (strName, some _) => (true, setName s address strName)

def setTx (s : RecordState H X S) (hash : H) (wtx : Option (CWalletTx H X)) : RecordState H X S :=
  { s with pwallet.mapWallet := Function.update s.pwallet.mapWallet hash wtx }

/-- `ssValue >> fTmp >> fUnused >> wtx.strFromAccount`: the account, and `fTmp` if nothing
throws. -/
def readUpgrade (strFromAccount ssValue : List UInt8) : List UInt8 × Option Int8 :=
  match Codec.uint8.read ssValue with
  | none => (strFromAccount, none)
  | some (fTmp, ssValue) =>
    match Codec.uint8.read ssValue with
    | none => (strFromAccount, none)
    | some (_, ssValue) =>
      match F.string strFromAccount ssValue with
      | (strFromAccount, none) => (strFromAccount, none)
      | (strFromAccount, some _) => (strFromAccount, some fTmp.toInt8)

def IsValidTx (wtx : CWalletTx H X) (hash : H) : Bool :=
  (CheckTransaction R wtx.tx).isOk && R.txHash wtx.tx = hash

/-- The transaction has the fields of 31600. -/
def NeedsUpgrade (wtx : CWalletTx H X) : Bool :=
  31404 ≤ wtx.fTimeReceivedIsTxTime && wtx.fTimeReceivedIsTxTime ≤ 31703

/-- Undo serialize changes in 31600; `none` if a read throws. -/
def upgradeTx (hash : H) (wtx : CWalletTx H X) (ssValue : List UInt8) :
    CWalletTx H X × Option (List UInt8) :=
  let ver := wtx.fTimeReceivedIsTxTime
  if !ssValue.isEmpty then
    match readUpgrade F wtx.strFromAccount ssValue with
    | (strFromAccount, none) => ({ wtx with strFromAccount }, none)
    | (strFromAccount, some fTmp) =>
      ({ wtx with strFromAccount, fTimeReceivedIsTxTime := fTmp.toInt32.toUInt32 },
        some (ascii s!"LoadWallet() upgrading tx ver={ver} {fTmp} " ++ [39] ++
          c_str strFromAccount ++ [39] ++ ascii (" " ++ F.ToString hash)))
  else
    ({ wtx with fTimeReceivedIsTxTime := 0 },
      some (ascii (s!"LoadWallet() repairing tx ver={ver} " ++ F.ToString hash)))

def keepTx (s : RecordState H X S) (hash : H) (wtx : CWalletTx H X) : RecordResult H X S :=
  let s := setTx s hash (some wtx)
  (true, if wtx.nOrderPos = -1 then { s with wss.fAnyUnordered := true } else s)

def readTx (ssKey ssValue : List UInt8) (s : RecordState H X S) : RecordResult H X S :=
  reading F.uint256 ssKey s fun hash _ =>
    match F.CWalletTx ((s.pwallet.mapWallet hash).getD F.newTx) ssValue with
    | (wtx, none) => (false, setTx s hash (some wtx))
    | (wtx, some (_, ssValue)) =>
      if IsValidTx R wtx hash then
        let wtx := { wtx with rest := F.BindWallet wtx.rest }
        if NeedsUpgrade wtx then
          match upgradeTx F hash wtx ssValue with
          | (wtx, none) => (false, setTx s hash (some wtx))
          | (wtx, some strErr) =>
            keepTx { s with strErr, wss.vWalletUpgrade := s.wss.vWalletUpgrade ++ [hash] } hash wtx
        else keepTx s hash wtx
      else (false, setTx s hash none)

def readAcentry (ssKey ssValue : List UInt8) (s : RecordState H X S) : RecordResult H X S :=
  reading F.newString ssKey s fun _ ssKey =>
    reading Codec.uint64.read ssKey s fun nNumber _ =>
      let s := { s with nAccountingEntryNumber := max s.nAccountingEntryNumber nNumber }
      if s.wss.fAnyUnordered then (true, s)
      else
        reading F.CAccountingEntry ssValue s fun acentry _ =>
          (true, if acentry.nOrderPos = -1 then { s with wss.fAnyUnordered := true } else s)

def fail (s : RecordState H X S) (strErr : String) : RecordResult H X S :=
  (false, { s with strErr := ascii ("Error reading wallet database: " ++ strErr) })

/-- What follows on the call that adds a key or script. -/
def added (s : RecordState H X S) (result : Bool × S) (strErr : String) : RecordResult H X S :=
  let s := { s with pwallet.keyStore := result.2 }
  if result.1 then (true, s) else fail s strErr

def addKey (vchPubKey : CPubKey) (pkey : List UInt8) (s : RecordState H X S) :
    RecordResult H X S :=
  match keys.SetPrivKey pkey vchPubKey.IsCompressed with
  | none => fail s "CPrivKey corrupt"
  | some key =>
    if keys.GetPubKey key ≠ vchPubKey then fail s "CPrivKey pubkey inconsistency"
    else added s (keys.LoadKey s.pwallet.keyStore key vchPubKey) "LoadKey failed"

/-- A record of the type `key`, or `wkey`, which is not counted. -/
def readKey (ssKey ssValue : List UInt8) (s : RecordState H X S) : RecordResult H X S :=
  reading F.CPubKey ssKey s fun vchPubKey _ =>
    if !vchPubKey.IsValid then fail s "CPubKey corrupt"
    else
      let fKey : Bool := s.strType = ascii "key"
      let s := if fKey then { s with wss.nKeys := s.wss.nKeys + 1 } else s
      reading (if fKey then F.CPrivKey else F.CWalletKey) ssValue s fun pkey _ =>
        addKey keys vchPubKey pkey s

def readMkey (ssKey ssValue : List UInt8) (s : RecordState H X S) : RecordResult H X S :=
  reading Codec.uint32.read ssKey s fun nID _ =>
    reading F.CMasterKey ssValue s fun kMasterKey _ =>
      if (s.pwallet.mapMasterKeys nID).isSome then fail s s!"duplicate CMasterKey id {nID}"
      else
        (true, { s with
          pwallet.mapMasterKeys := Function.update s.pwallet.mapMasterKeys nID (some kMasterKey)
          pwallet.nMasterKeyMaxID := max s.pwallet.nMasterKeyMaxID nID })

def readCkey (ssKey ssValue : List UInt8) (s : RecordState H X S) : RecordResult H X S :=
  reading F.vector ssKey s fun vchPubKey _ =>
    reading F.vector ssValue s fun vchPrivKey _ =>
      let s := { s with wss.nCKeys := s.wss.nCKeys + 1 }
      let result := keys.AddCryptedKey s.pwallet.keyStore (.Set vchPubKey) vchPrivKey
      let (fOk, s) := added s result "LoadCryptedKey failed"
      (fOk, if fOk then { s with wss.fIsEncrypted := true } else s)

def readKeymeta (ssKey ssValue : List UInt8) (s : RecordState H X S) : RecordResult H X S :=
  reading F.vector ssKey s fun _ _ =>
    reading F.CKeyMetadata ssValue s fun nCreateTime _ =>
      let s := { s with wss.nKeyMeta := s.wss.nKeyMeta + 1 }
      -- find earliest key creation time, as wallet birthday
      if s.pwallet.nTimeFirstKey = 0 ∨ nCreateTime < s.pwallet.nTimeFirstKey then
        (true, { s with pwallet.nTimeFirstKey := nCreateTime })
      else (true, s)

def readDefaultkey (ssValue : List UInt8) (s : RecordState H X S) : RecordResult H X S :=
  reading F.CPubKey ssValue s fun vchDefaultKey _ =>
    (true, { s with pwallet.vchDefaultKey := vchDefaultKey })

def readPool (ssKey : List UInt8) (s : RecordState H X S) : RecordResult H X S :=
  reading Codec.int64.read ssKey s fun nIndex _ =>
    (true, { s with pwallet.setKeyPool := insert nIndex s.pwallet.setKeyPool })

def readVersion (ssValue : List UInt8) (s : RecordState H X S) : RecordResult H X S :=
  reading Codec.int32.read ssValue s fun nFileVersion _ =>
    (true, { s with wss.nFileVersion := if nFileVersion = 10300 then 300 else nFileVersion })

def readCscript (ssKey ssValue : List UInt8) (s : RecordState H X S) : RecordResult H X S :=
  reading F.uint160 ssKey s fun _ _ =>
    reading F.CScript ssValue s fun script _ =>
      added s (keys.LoadCScript s.pwallet.keyStore script) "LoadCScript failed"

def readOrderposnext (ssValue : List UInt8) (s : RecordState H X S) : RecordResult H X S :=
  reading Codec.int64.read ssValue s fun nOrderPosNext _ =>
    (true, { s with pwallet.nOrderPosNext := nOrderPosNext })

/-- What is done with the rest of a record, by its type. -/
def readTyped (ssKey ssValue : List UInt8) (s : RecordState H X S) : RecordResult H X S :=
  if s.strType = ascii "name" then readName F Hash fTestNet ssKey ssValue s
  else if s.strType = ascii "tx" then readTx R F ssKey ssValue s
  else if s.strType = ascii "acentry" then readAcentry F ssKey ssValue s
  else if s.strType = ascii "key" ∨ s.strType = ascii "wkey" then readKey F keys ssKey ssValue s
  else if s.strType = ascii "mkey" then readMkey F ssKey ssValue s
  else if s.strType = ascii "ckey" then readCkey F keys ssKey ssValue s
  else if s.strType = ascii "keymeta" then readKeymeta F ssKey ssValue s
  else if s.strType = ascii "defaultkey" then readDefaultkey F ssValue s
  else if s.strType = ascii "pool" then readPool ssKey s
  else if s.strType = ascii "version" then readVersion ssValue s
  else if s.strType = ascii "cscript" then readCscript F keys ssKey ssValue s
  else if s.strType = ascii "orderposnext" then readOrderposnext ssValue s
  else (true, s)

def ReadKeyValue (ssKey ssValue : List UInt8) (s : RecordState H X S) : RecordResult H X S :=
  match F.string s.strType ssKey with
  | (strType, none) => (false, { s with strType })
  | (strType, some (_, ssKey)) => readTyped R F keys Hash fTestNet ssKey ssValue { s with strType }

end

/-! ## What a refused record leaves -/

section

variable {H K X S : Type}

structure SameContainers (w w' : CWallet H X S) : Prop where
  mapWallet : w'.mapWallet = w.mapWallet
  mapAddressBook : w'.mapAddressBook = w.mapAddressBook
  mapMasterKeys : w'.mapMasterKeys = w.mapMasterKeys
  setKeyPool : w'.setKeyPool = w.setKeyPool
  keyStore : w'.keyStore = w.keyStore

/-- The record is read, or the containers are as they were. -/
def Clean (s : RecordState H X S) (r : RecordResult H X S) : Prop :=
  r.1 = true ∨ SameContainers s.pwallet r.2.pwallet

/-- A key or script that is not added leaves the store as it was. -/
structure CKeyStore.Refuses (keys : CKeyStore K S) : Prop where
  LoadKey : ∀ store key vchPubKey, (keys.LoadKey store key vchPubKey).1 = false →
    (keys.LoadKey store key vchPubKey).2 = store
  AddCryptedKey : ∀ store vchPubKey vchCryptedSecret,
    (keys.AddCryptedKey store vchPubKey vchCryptedSecret).1 = false →
      (keys.AddCryptedKey store vchPubKey vchCryptedSecret).2 = store
  LoadCScript : ∀ store script, (keys.LoadCScript store script).1 = false →
    (keys.LoadCScript store script).2 = store

variable {s s' : RecordState H X S}

theorem SameContainers.refl (w : CWallet H X S) : SameContainers w w := ⟨rfl, rfl, rfl, rfl, rfl⟩

theorem clean_true (s s' : RecordState H X S) : Clean s (true, s') := .inl rfl

theorem clean_false : Clean s (false, s') ↔ SameContainers s.pwallet s'.pwallet :=
  or_iff_right Bool.false_ne_true

theorem clean_ite {c : Prop} [Decidable c] {r₁ r₂ : RecordResult H X S} (h₁ : Clean s r₁)
    (h₂ : Clean s r₂) : Clean s (if c then r₁ else r₂) := by
  split
  · exact h₁
  · exact h₂

theorem clean_fail {strErr : String} (h : SameContainers s.pwallet s'.pwallet) :
    Clean s (fail s' strErr) := .inr h

theorem clean_reading {α : Type} {p : Parser α} {ss : List UInt8}
    {f : α → List UInt8 → RecordResult H X S} (hs : SameContainers s.pwallet s'.pwallet)
    (h : ∀ a ss, Clean s (f a ss)) : Clean s (reading p ss s' f) := by
  unfold reading
  split
  · exact .inr hs
  · exact h _ _

theorem clean_readAcentry (F : RecordFormat H X) (ssKey ssValue : List UInt8)
    (s : RecordState H X S) : Clean s (readAcentry F ssKey ssValue s) := by
  refine clean_reading (.refl _) fun _ _ => clean_reading (.refl _) fun nNumber _ => ?_
  dsimp only
  split
  · exact clean_true _ _
  · exact clean_reading (.refl _) fun _ _ => clean_true _ _

theorem Clean.of_pwallet {s₁ : RecordState H X S} {r : RecordResult H X S} (h : Clean s₁ r)
    (hs : s₁.pwallet = s.pwallet) : Clean s r :=
  h.imp_right fun hsame => hs ▸ hsame

theorem clean_added {result : Bool × S} (h : result.1 = false → result.2 = s.pwallet.keyStore)
    (strErr : String) : Clean s (added s result strErr) := by
  obtain ⟨fLoaded, keyStore⟩ := result
  cases fLoaded with
  | true => exact clean_true _ _
  | false => exact clean_fail ⟨rfl, rfl, rfl, rfl, h rfl⟩

theorem clean_addKey {keys : CKeyStore K S} (hkeys : keys.Refuses) (vchPubKey : CPubKey)
    (pkey : List UInt8) (s : RecordState H X S) : Clean s (addKey keys vchPubKey pkey s) := by
  unfold addKey
  split
  · exact clean_fail (.refl _)
  · next key _ =>
    split
    · exact clean_fail (.refl _)
    · exact clean_added (hkeys.LoadKey _ key vchPubKey) _

theorem clean_readKey {keys : CKeyStore K S} (hkeys : keys.Refuses) (F : RecordFormat H X)
    (ssKey ssValue : List UInt8) (s : RecordState H X S) :
    Clean s (readKey F keys ssKey ssValue s) := by
  refine clean_reading (.refl _) fun vchPubKey _ => ?_
  split
  · exact clean_fail (.refl _)
  · dsimp only
    split
    · exact
        (clean_reading (.refl _) fun pkey _ => clean_addKey hkeys vchPubKey pkey _).of_pwallet rfl
    · exact clean_reading (.refl _) fun pkey _ => clean_addKey hkeys vchPubKey pkey s

theorem clean_readMkey (F : RecordFormat H X) (ssKey ssValue : List UInt8)
    (s : RecordState H X S) : Clean s (readMkey F ssKey ssValue s) := by
  refine clean_reading (.refl _) fun nID _ => clean_reading (.refl _) fun kMasterKey _ => ?_
  split
  · exact clean_fail (.refl _)
  · exact clean_true _ _

theorem clean_readCkey {keys : CKeyStore K S} (hkeys : keys.Refuses) (F : RecordFormat H X)
    (ssKey ssValue : List UInt8) (s : RecordState H X S) :
    Clean s (readCkey F keys ssKey ssValue s) := by
  refine clean_reading (.refl _) fun vchPubKey _ => clean_reading (.refl _) fun vchPrivKey _ => ?_
  have hadded := clean_added (s := { s with wss.nCKeys := s.wss.nCKeys + 1 })
    (hkeys.AddCryptedKey s.pwallet.keyStore (.Set vchPubKey) vchPrivKey) "LoadCryptedKey failed"
  dsimp only at hadded ⊢
  generalize added _ _ _ = r at hadded ⊢
  obtain ⟨fOk, s'⟩ := r
  refine hadded.imp_right fun hsame => ?_
  split
  · exact hsame
  · exact hsame

theorem clean_readKeymeta (F : RecordFormat H X) (ssKey ssValue : List UInt8)
    (s : RecordState H X S) : Clean s (readKeymeta F ssKey ssValue s) := by
  refine clean_reading (.refl _) fun _ _ => clean_reading (.refl _) fun nCreateTime _ => ?_
  dsimp only
  split
  · exact clean_true _ _
  · exact clean_true _ _

theorem clean_readCscript {keys : CKeyStore K S} (hkeys : keys.Refuses) (F : RecordFormat H X)
    (ssKey ssValue : List UInt8) (s : RecordState H X S) :
    Clean s (readCscript F keys ssKey ssValue s) :=
  clean_reading (.refl _) fun _ _ => clean_reading (.refl _) fun script _ =>
    clean_added (hkeys.LoadCScript _ script) _

/-! ## Names and transactions -/

/-- An entry that is written stays the same if it has the value already. -/
theorem update_eq_self_iff {α β : Type} [DecidableEq α] {f : α → β} {a : α} {b : β} :
    Function.update f a b = f ↔ f a = b := by
  rw [Function.update_eq_iff]
  exact ⟨fun h => h.1.symm, fun h => ⟨h.symm, fun _ _ => rfl⟩⟩

theorem sameContainers_setName {address : CTxDestination} {strName : List UInt8} :
    SameContainers s.pwallet (setName s address strName).pwallet ↔
      s.pwallet.mapAddressBook address = some strName :=
  ⟨fun h => update_eq_self_iff.1 h.mapAddressBook,
    fun h => ⟨rfl, update_eq_self_iff.2 h, rfl, rfl, rfl⟩⟩

/-- A name that cannot be read would leave what the address book has. -/
def KeepsName (F : RecordFormat H X) (Hash : Hasher) (fTestNet : Bool) (ssKey ssValue : List UInt8)
    (w : CWallet H X S) : Prop :=
  ∀ strAddress rest addr strName, F.newString ssKey = some (strAddress, rest) →
    CBitcoinAddress.ofString Hash strAddress = .ok addr →
      F.string ((w.mapAddressBook (CBitcoinAddress.Get fTestNet addr)).getD []) ssValue =
          (strName, none) →
        w.mapAddressBook (CBitcoinAddress.Get fTestNet addr) = some strName

variable {F : RecordFormat H X} {Hash : Hasher} {fTestNet : Bool}

theorem clean_readName_iff (ssKey ssValue : List UInt8) :
    Clean s (readName F Hash fTestNet ssKey ssValue s) ↔
      KeepsName F Hash fTestNet ssKey ssValue s.pwallet := by
  unfold readName reading KeepsName
  cases hkey : F.newString ssKey with
  | none => exact ⟨fun _ _ _ _ _ => nofun, fun _ => .inr (.refl _)⟩
  | some key =>
    obtain ⟨strAddress, rest⟩ := key
    dsimp only
    cases haddr : CBitcoinAddress.ofString Hash strAddress with
    | error e =>
      refine ⟨fun _ _ _ addr _ h hok => ?_, fun _ => .inr (.refl _)⟩
      obtain ⟨rfl, -⟩ := Prod.mk.inj (Option.some.inj h)
      rw [haddr] at hok
      cases hok
    | ok addr =>
      dsimp only
      rcases hread : F.string
        ((s.pwallet.mapAddressBook (CBitcoinAddress.Get fTestNet addr)).getD []) ssValue with
        ⟨strName, _ | read⟩
      · rw [clean_false, sameContainers_setName]
        constructor
        · intro hentry _ _ addr' strName' heq hok hread'
          obtain ⟨rfl, -⟩ := Prod.mk.inj (Option.some.inj heq)
          obtain rfl := Except.ok.inj (haddr.symm.trans hok)
          obtain ⟨rfl, -⟩ := Prod.mk.inj (hread.symm.trans hread')
          exact hentry
        · exact fun h => h strAddress rest addr strName rfl haddr hread
      · refine ⟨fun _ _ _ addr' strName' heq hok hread' => ?_, fun _ => clean_true _ _⟩
        obtain ⟨rfl, -⟩ := Prod.mk.inj (Option.some.inj heq)
        obtain rfl := Except.ok.inj (haddr.symm.trans hok)
        cases hread.symm.trans hread'

/-- What is upgraded stays as it is if a read throws, but for the account. -/
theorem upgradeTx_none_iff {hash : H} {wtx wtx' : CWalletTx H X} {ssValue : List UInt8} :
    upgradeTx F hash wtx ssValue = (wtx', none) ↔ ssValue ≠ [] ∧ ∃ strFromAccount,
      readUpgrade F wtx.strFromAccount ssValue = (strFromAccount, none) ∧
        wtx' = { wtx with strFromAccount } := by
  cases ssValue with
  | nil => simp [upgradeTx]
  | cons b bs =>
    unfold upgradeTx
    dsimp only
    rw [if_pos (by rfl)]
    rcases readUpgrade F wtx.strFromAccount (b :: bs) with ⟨strFromAccount, _ | fTmp⟩
    · simp [eq_comm]
    · simp

variable [Zero H] [DecidableEq H] {R : Consensus H}

omit [Zero H] in
theorem sameContainers_setTx {hash : H} {wtx : Option (CWalletTx H X)} :
    SameContainers s.pwallet (setTx s hash wtx).pwallet ↔ s.pwallet.mapWallet hash = wtx :=
  ⟨fun h => update_eq_self_iff.1 h.mapWallet,
    fun h => ⟨update_eq_self_iff.2 h, rfl, rfl, rfl, rfl⟩⟩

/-- The same of a transaction; one that is not valid is not in the wallet. -/
structure KeepsTx (R : Consensus H) (F : RecordFormat H X) (hash : H) (ssValue : List UInt8)
    (w : CWallet H X S) : Prop where
  throws : ∀ wtx, F.CWalletTx ((w.mapWallet hash).getD F.newTx) ssValue = (wtx, none) →
    w.mapWallet hash = some wtx
  invalid : ∀ wtx rest,
    F.CWalletTx ((w.mapWallet hash).getD F.newTx) ssValue = (wtx, some ((), rest)) →
      IsValidTx R wtx hash = false → w.mapWallet hash = none
  upgrade : ∀ wtx rest strFromAccount,
    F.CWalletTx ((w.mapWallet hash).getD F.newTx) ssValue = (wtx, some ((), rest)) →
      IsValidTx R wtx hash = true → NeedsUpgrade wtx = true → rest ≠ [] →
        readUpgrade F wtx.strFromAccount rest = (strFromAccount, none) →
          w.mapWallet hash = some { wtx with strFromAccount, rest := F.BindWallet wtx.rest }

/-- The record is none of those that are refused with a change. -/
structure KeepsContainers (R : Consensus H) (F : RecordFormat H X) (Hash : Hasher)
    (fTestNet : Bool) (ssKey ssValue : List UInt8) (s : RecordState H X S) : Prop where
  name : ∀ rest, F.string s.strType ssKey = (ascii "name", some ((), rest)) →
    KeepsName F Hash fTestNet rest ssValue s.pwallet
  tx : ∀ rest, F.string s.strType ssKey = (ascii "tx", some ((), rest)) →
    ∀ hash rest', F.uint256 rest = some (hash, rest') → KeepsTx R F hash ssValue s.pwallet

section

variable {hash : H} {ssValue : List UInt8} {w : CWallet H X S} {wtx : CWalletTx H X}

theorem keepsTx_of_throws
    (hread : F.CWalletTx ((w.mapWallet hash).getD F.newTx) ssValue = (wtx, none)) :
    KeepsTx R F hash ssValue w ↔ w.mapWallet hash = some wtx := by
  constructor
  · exact fun h => h.throws wtx hread
  · intro hentry
    refine ⟨fun wtx' hread' => ?_, fun wtx' _ hread' => ?_, fun wtx' _ _ hread' => ?_⟩
    · obtain ⟨rfl, -⟩ := Prod.mk.inj (hread.symm.trans hread')
      exact hentry
    · cases hread.symm.trans hread'
    · cases hread.symm.trans hread'

theorem keepsTx_of_invalid {tail : List UInt8}
    (hread : F.CWalletTx ((w.mapWallet hash).getD F.newTx) ssValue = (wtx, some ((), tail)))
    (hvalid : IsValidTx R wtx hash = false) :
    KeepsTx R F hash ssValue w ↔ w.mapWallet hash = none := by
  constructor
  · exact fun h => h.invalid wtx tail hread hvalid
  · intro hentry
    refine ⟨fun wtx' hread' => ?_, fun _ _ _ _ => hentry, fun wtx' _ _ hread' hvalid' => ?_⟩
    · cases hread.symm.trans hread'
    · obtain ⟨rfl, -⟩ := Prod.mk.inj (hread.symm.trans hread')
      rw [hvalid] at hvalid'
      cases hvalid'

theorem keepsTx_of_valid {tail : List UInt8}
    (hread : F.CWalletTx ((w.mapWallet hash).getD F.newTx) ssValue = (wtx, some ((), tail)))
    (hvalid : IsValidTx R wtx hash = true) :
    KeepsTx R F hash ssValue w ↔ ∀ strFromAccount, NeedsUpgrade wtx = true → tail ≠ [] →
      readUpgrade F wtx.strFromAccount tail = (strFromAccount, none) →
        w.mapWallet hash = some { wtx with strFromAccount, rest := F.BindWallet wtx.rest } := by
  constructor
  · exact fun h strFromAccount => h.upgrade wtx tail strFromAccount hread hvalid
  · intro h
    refine ⟨fun wtx' hread' => ?_, fun wtx' _ hread' hvalid' => ?_,
      fun wtx' tail' strFromAccount hread' _ => ?_⟩
    · cases hread.symm.trans hread'
    · obtain ⟨rfl, -⟩ := Prod.mk.inj (hread.symm.trans hread')
      rw [hvalid] at hvalid'
      cases hvalid'
    · obtain ⟨rfl, heq⟩ := Prod.mk.inj (hread.symm.trans hread')
      obtain ⟨-, rfl⟩ := Prod.mk.inj (Option.some.inj heq)
      exact h strFromAccount

end

theorem clean_readTx_iff (ssKey ssValue : List UInt8) :
    Clean s (readTx R F ssKey ssValue s) ↔ ∀ hash rest, F.uint256 ssKey = some (hash, rest) →
      KeepsTx R F hash ssValue s.pwallet := by
  unfold readTx reading
  cases hkey : F.uint256 ssKey with
  | none => exact ⟨fun _ _ _ => nofun, fun _ => .inr (.refl _)⟩
  | some key =>
    obtain ⟨hash, rest⟩ := key
    have hone : (∀ hash' rest', some (hash, rest) = some (hash', rest') →
        KeepsTx R F hash' ssValue s.pwallet) ↔ KeepsTx R F hash ssValue s.pwallet := by
      constructor
      · exact fun h => h hash rest rfl
      · intro h hash' rest' heq
        obtain ⟨rfl, -⟩ := Prod.mk.inj (Option.some.inj heq)
        exact h
    dsimp only
    rw [hone]
    rcases hread : F.CWalletTx ((s.pwallet.mapWallet hash).getD F.newTx) ssValue with
      ⟨wtx, _ | ⟨⟨⟩, tail⟩⟩
    · rw [clean_false, sameContainers_setTx, keepsTx_of_throws hread]
    dsimp only
    cases hvalid : IsValidTx R wtx hash with
    | false =>
      rw [if_neg Bool.false_ne_true, clean_false, sameContainers_setTx,
        keepsTx_of_invalid hread hvalid]
    | true =>
      rw [if_pos rfl, keepsTx_of_valid hread hvalid]
      change Clean s (if NeedsUpgrade wtx = true then _ else _) ↔ _
      cases hup : NeedsUpgrade wtx with
      | false => exact ⟨fun _ _ => nofun, fun _ => clean_true _ _⟩
      | true =>
        rw [if_pos rfl]
        rcases hresult : upgradeTx F hash { wtx with rest := F.BindWallet wtx.rest } tail with
          ⟨wtx', _ | strErr⟩
        · obtain ⟨htail, strFromAccount, hthrow, rfl⟩ := upgradeTx_none_iff.1 hresult
          rw [clean_false, sameContainers_setTx]
          constructor
          · intro hentry account _ _ hthrow'
            obtain ⟨rfl, -⟩ := Prod.mk.inj (hthrow.symm.trans hthrow')
            exact hentry
          · exact fun h => h strFromAccount rfl htail hthrow
        · refine ⟨fun _ account _ htail hthrow => ?_, fun _ => clean_true _ _⟩
          have hnone :
              upgradeTx F hash { wtx with rest := F.BindWallet wtx.rest } tail = (_, none) :=
            upgradeTx_none_iff.2 ⟨htail, account, hthrow, rfl⟩
          cases hresult.symm.trans hnone

/-- A record with a type that can be read. -/
theorem clean_readTyped_iff {keys : CKeyStore K S} (hkeys : keys.Refuses)
    (ssKey ssValue : List UInt8) :
    Clean s (readTyped R F keys Hash fTestNet ssKey ssValue s) ↔
      (s.strType = ascii "name" → KeepsName F Hash fTestNet ssKey ssValue s.pwallet) ∧
      (s.strType = ascii "tx" → ∀ hash rest, F.uint256 ssKey = some (hash, rest) →
        KeepsTx R F hash ssValue s.pwallet) := by
  by_cases hname : s.strType = ascii "name"
  · rw [readTyped, if_pos hname, clean_readName_iff]
    refine ⟨fun h => ⟨fun _ => h, fun htx => ?_⟩, fun h => h.1 hname⟩
    exact absurd (hname.symm.trans htx) (by decide)
  by_cases htx : s.strType = ascii "tx"
  · rw [readTyped, if_neg hname, if_pos htx, clean_readTx_iff]
    exact ⟨fun h => ⟨fun hname' => absurd hname' hname, fun _ => h⟩, fun h => h.2 htx⟩
  refine iff_of_true ?_ ⟨fun h => absurd h hname, fun h => absurd h htx⟩
  rw [readTyped, if_neg hname, if_neg htx]
  refine clean_ite (clean_readAcentry F ssKey ssValue s) ?_
  refine clean_ite (clean_readKey hkeys F ssKey ssValue s) ?_
  refine clean_ite (clean_readMkey F ssKey ssValue s) ?_
  refine clean_ite (clean_readCkey hkeys F ssKey ssValue s) ?_
  refine clean_ite (clean_readKeymeta F ssKey ssValue s) ?_
  refine clean_ite (clean_reading (.refl _) fun _ _ => clean_true _ _) ?_
  refine clean_ite (clean_reading (.refl _) fun _ _ => clean_true _ _) ?_
  refine clean_ite (clean_reading (.refl _) fun _ _ => clean_true _ _) ?_
  refine clean_ite (clean_readCscript hkeys F ssKey ssValue s) ?_
  exact clean_ite (clean_reading (.refl _) fun _ _ => clean_true _ _) (clean_true _ _)

/-- **Records that are refused.** `ReadKeyValue` returns true, or leaves the containers as they
were, just if the record is no name or transaction of which something is left in the wallet, or
that is taken out of it. -/
theorem ReadKeyValue_clean_iff {keys : CKeyStore K S} (hkeys : keys.Refuses)
    (ssKey ssValue : List UInt8) (s : RecordState H X S) :
    Clean s (ReadKeyValue R F keys Hash fTestNet ssKey ssValue s) ↔
      KeepsContainers R F Hash fTestNet ssKey ssValue s := by
  unfold ReadKeyValue
  rcases hread : F.string s.strType ssKey with ⟨strType, _ | ⟨⟨⟩, rest⟩⟩
  · refine iff_of_true (.inr (.refl _)) ⟨fun _ h => ?_, fun _ h => ?_⟩
    · cases hread.symm.trans h
    · cases hread.symm.trans h
  · have htyped : Clean { s with strType } (readTyped R F keys Hash fTestNet rest ssValue
        { s with strType }) ↔ _ := clean_readTyped_iff hkeys rest ssValue
    refine Iff.trans htyped ⟨fun h => ⟨fun rest' h' => ?_, fun rest' h' => ?_⟩, fun h => ⟨?_, ?_⟩⟩
    · obtain ⟨rfl, heq⟩ := Prod.mk.inj (hread.symm.trans h')
      obtain ⟨-, rfl⟩ := Prod.mk.inj (Option.some.inj heq)
      exact h.1 rfl
    · obtain ⟨rfl, heq⟩ := Prod.mk.inj (hread.symm.trans h')
      obtain ⟨-, rfl⟩ := Prod.mk.inj (Option.some.inj heq)
      exact h.2 rfl
    · rintro rfl
      exact h.name rest hread
    · rintro rfl
      exact h.tx rest hread

end

/-! ## Truncated records -/

section Records

/-- Fewer than 253 bytes behind their number, as they are read into a string: it has the size
before it has the bytes. -/
def readIntoString : Decoder (List UInt8) Unit := fun str ss =>
  match ss with
  | [] => (str, none)
  | nSize :: bs =>
    let n := nSize.toNat
    if 253 ≤ n then (str, none)
    else if n ≤ bs.length then (bs.take n, some ((), bs.drop n))
    else (str.take n ++ .replicate (n - str.length) 0, none)

def newTx : CWalletTx Nat Unit := ⟨⟨1, [], [], 0⟩, 0, -1, [], ()⟩

/-- As the records of few bytes are read; of other than names, and of hashes, there are none. -/
def fewRecords : RecordFormat Nat Unit where
  string := readIntoString
  vector := readSized
  uint160 _ := none
  uint256 ss := if 32 ≤ ss.length then some (LittleEndian.decode (ss.take 32), ss.drop 32) else none
  CScript _ := none
  CPubKey := CPubKey.Set <$> readSized
  CPrivKey := readSized
  CWalletKey := readSized
  CMasterKey _ := none
  CKeyMetadata _ := none
  CAccountingEntry _ := none
  CWalletTx wtx _ :=
    ({ wtx with fTimeReceivedIsTxTime := 0, nOrderPos := -1, strFromAccount := [] }, none)
  newTx
  BindWallet _ := ()
  ToString hash := toString hash

/-- Private keys of one byte, which is the number of the public key. -/
def numberedStore : CKeyStore UInt8 (List CPubKey) where
  SetPrivKey pkey _ := pkey.head?
  GetPubKey n := .Set (pubKeyBytes n)
  LoadKey store _ k := (true, k :: store)
  AddCryptedKey store k _ := (true, k :: store)
  LoadCScript store _ := (true, store)

theorem numberedStore_refuses : numberedStore.Refuses where
  LoadKey _ _ _ := nofun
  AddCryptedKey _ _ _ := nofun
  LoadCScript _ _ := nofun

def emptyWallet : RecordState Nat Unit (List CPubKey) where
  pwallet := ⟨fun _ => none, fun _ => none, fun _ => none, 0, ∅, [], .Set [], 0, 0⟩
  wss := {}
  nAccountingEntryNumber := 0
  strType := []
  strErr := []

/-- A record is read into the empty wallet. -/
def readRecord (ssKey ssValue : List UInt8) : RecordResult Nat Unit (List CPubKey) :=
  ReadKeyValue Consensus.numbers fewRecords numberedStore (fun _ => .replicate 32 0) false ssKey
    ssValue emptyWallet

/-- The name of what is no address. -/
def nameKey : List UInt8 := sized (ascii "name") ++ sized (ascii "!")

/-- The transaction with hash 7. -/
def txKey : List UInt8 := sized (ascii "tx") ++ 7 :: .replicate 31 0

/-- A name that is read. -/
theorem ReadKeyValue_clean_name :
    (readRecord nameKey (sized (ascii "a"))).1 = true ∧
      (Clean emptyWallet (readRecord nameKey (sized (ascii "a"))) ↔
        KeepsContainers Consensus.numbers fewRecords (fun _ => .replicate 32 0) false nameKey
          (sized (ascii "a")) emptyWallet) :=
  ⟨by decide, ReadKeyValue_clean_iff numberedStore_refuses _ _ _⟩

/-- A name and a transaction without a value are refused and stay in the wallet. -/
theorem ReadKeyValue_leaves :
    ¬Clean emptyWallet (readRecord nameKey []) ∧ ¬Clean emptyWallet (readRecord txKey []) := by
  constructor
  · rintro (h | h)
    · exact absurd h (by decide)
    · exact absurd (congrFun h.mapAddressBook .noDestination) (by decide)
  · rintro (h | h)
    · exact absurd h (by decide)
    · have hentry : ((readRecord txKey []).2.pwallet.mapWallet 7).isSome = true := by decide
      rw [congrFun h.mapWallet 7] at hentry
      cases hentry

end Records

end TriTip.WalletRecords
