import TriTip.Wallet.ReadKeyValue

/-!
# The records that a wallet is loaded from

`LoadWallet` knows less of the records than `ReadKeyValue` reads: of a transaction its order, of a
master key its number, and no names. What it has of the wallet after a record
(`agrees_ReadKeyValue`) and after all of them (`loads_loadLoop`) is what `ReadKeyValue` makes of
them, if what is read overwrites what was in an object before.
-/

namespace TriTip.WalletRecords

section

variable {H K X S : Type}

/-- What a read of a string or transaction finds and leaves does not depend on the object before;
strings are of ordinary length. -/
structure Overwrites (F : RecordFormat H X) (order : CWalletTx H X → TxOrder)
    (thrownTx : List UInt8 → TxOrder) : Prop where
  string : ∀ str ss str' rest, F.string [] ss = (str', some ((), rest)) →
    F.string str ss = (str', some ((), rest))
  stringThrows : ∀ str ss, (F.string [] ss).2 = none → (F.string str ss).2 = none
  short : ∀ ss str rest, F.newString ss = some (str, rest) → str.length < 2 ^ 31
  tx : ∀ wtx ss wtx' rest, F.CWalletTx F.newTx ss = (wtx', some ((), rest)) →
    F.CWalletTx wtx ss = (wtx', some ((), rest))
  txThrows : ∀ wtx ss, (F.CWalletTx F.newTx ss).2 = none →
    ∃ wtx', F.CWalletTx wtx ss = (wtx', none) ∧ order wtx' = thrownTx ss
  nOrderPos : ∀ wtx, (order wtx).nOrderPos = wtx.nOrderPos
  upgraded : ∀ wtx fTimeReceivedIsTxTime strFromAccount,
    order { wtx with fTimeReceivedIsTxTime, strFromAccount, rest := F.BindWallet wtx.rest } =
      order wtx

def RecordFormat.toWalletFormat (F : RecordFormat H X)
    (order : WalletRecords.CWalletTx H X → TxOrder) (thrownTx : List UInt8 → TxOrder) :
    WalletFormat H where
  string := F.newString
  vector := F.vector
  uint160 := F.uint160
  uint256 := F.uint256
  CScript := F.CScript
  CPubKey := F.CPubKey
  CPrivKey := F.CPrivKey
  CWalletKey := F.CWalletKey
  CMasterKey ss := (F.CMasterKey ss).map fun r => (r.1.vchCryptedKey, r.2)
  CKeyMetadata := F.CKeyMetadata
  CAccountingEntry := F.CAccountingEntry
  CWalletTx ss :=
    match F.CWalletTx F.newTx ss with
    | (wtx, some (_, ss)) => some (⟨wtx.tx, wtx.fTimeReceivedIsTxTime, order wtx⟩, ss)
    | (_, none) => none
  thrownTx

/-- `none` for a key or script that is not added. -/
def ifAdded (result : Bool × S) : Option S := if result.1 then some result.2 else none

def CKeyStore.toKeyStore (keys : CKeyStore K S) : KeyStore K S where
  SetPrivKey := keys.SetPrivKey
  GetPubKey := keys.GetPubKey
  LoadKey store key vchPubKey := ifAdded (keys.LoadKey store key vchPubKey)
  AddCryptedKey store vchPubKey vchCryptedSecret :=
    ifAdded (keys.AddCryptedKey store vchPubKey vchCryptedSecret)
  LoadCScript store script := ifAdded (keys.LoadCScript store script)

variable {F : RecordFormat H X} {order : CWalletTx H X → TxOrder}
  {thrownTx : List UInt8 → TxOrder}

theorem Overwrites.string_cases (hF : Overwrites F order thrownTx) (str ss : List UInt8) :
    (∃ str' rest, F.string str ss = (str', some ((), rest)) ∧ F.newString ss = some (str', rest)) ∨
      ∃ str', F.string str ss = (str', none) ∧ F.newString ss = none := by
  unfold RecordFormat.newString
  rcases hnew : F.string [] ss with ⟨str', _ | ⟨⟨⟩, rest⟩⟩
  · have hthrows := hF.stringThrows str ss (by rw [hnew])
    exact .inr ⟨(F.string str ss).1, Prod.ext rfl hthrows, rfl⟩
  · exact .inl ⟨str', rest, hF.string str ss str' rest hnew, rfl⟩

theorem Overwrites.tx_cases (hF : Overwrites F order thrownTx) (wtx : CWalletTx H X)
    (ss : List UInt8) :
    (∃ wtx' rest, F.CWalletTx wtx ss = (wtx', some ((), rest)) ∧
      (F.toWalletFormat order thrownTx).CWalletTx ss =
        some (⟨wtx'.tx, wtx'.fTimeReceivedIsTxTime, order wtx'⟩, rest)) ∨
      ∃ wtx', F.CWalletTx wtx ss = (wtx', none) ∧ order wtx' = thrownTx ss ∧
        (F.toWalletFormat order thrownTx).CWalletTx ss = none := by
  unfold RecordFormat.toWalletFormat
  dsimp only
  rcases hnew : F.CWalletTx F.newTx ss with ⟨wtx', _ | ⟨⟨⟩, rest⟩⟩
  · obtain ⟨wtx', hthrows, horder⟩ := hF.txThrows wtx ss (by rw [hnew])
    exact .inr ⟨wtx', hthrows, horder, rfl⟩
  · exact .inl ⟨wtx', rest, hF.tx wtx ss wtx' rest hnew, rfl⟩

variable [Ord H]

/-- The upgrade, read as three values: it throws here and there, or it does not. -/
theorem upgradeTx_cases (hF : Overwrites F order thrownTx) (hash : H) (wtx : CWalletTx H X)
    (ss : List UInt8) :
    (∃ strFromAccount, upgradeTx F hash wtx ss = ({ wtx with strFromAccount }, none) ∧
      ∀ (g : ReadResult H S) (t : LoadState H S), (if ss.isEmpty then g
        else
          TriTip.reading Codec.uint8.read ss t fun _ ss =>
            TriTip.reading Codec.uint8.read ss t fun _ ss =>
              TriTip.reading F.newString ss t fun _ _ => g) = (some "", t)) ∨
    (∃ strFromAccount fTimeReceivedIsTxTime strErr, upgradeTx F hash wtx ss =
        ({ wtx with strFromAccount, fTimeReceivedIsTxTime }, some strErr) ∧
      ∀ (g : ReadResult H S) (t : LoadState H S), (if ss.isEmpty then g
        else
          TriTip.reading Codec.uint8.read ss t fun _ ss =>
            TriTip.reading Codec.uint8.read ss t fun _ ss =>
              TriTip.reading F.newString ss t fun _ _ => g) = g) := by
  unfold upgradeTx TriTip.reading readUpgrade
  dsimp only
  cases ss.isEmpty with
  | true => exact .inr ⟨_, _, _, rfl, fun _ _ => rfl⟩
  | false =>
    rcases Codec.uint8.read ss with _ | ⟨fTmp, ss⟩
    · exact .inl ⟨_, rfl, fun _ _ => rfl⟩
    dsimp only
    rcases Codec.uint8.read ss with _ | ⟨fUnused, ss⟩
    · exact .inl ⟨_, rfl, fun _ _ => rfl⟩
    dsimp only
    rcases hF.string_cases wtx.strFromAccount ss with ⟨str, rest, hstr, hnew⟩ | ⟨str, hstr, hnew⟩
    · rw [hstr, hnew]
      exact .inr ⟨_, _, _, rfl, fun _ _ => rfl⟩
    · rw [hstr, hnew]
      exact .inl ⟨_, rfl, fun _ _ => rfl⟩

variable [Std.TransOrd H]

/-- What `LoadWallet` has of a state. -/
structure Loads (order : CWalletTx H X → TxOrder) (s : RecordState H X S) (t : LoadState H S) :
    Prop where
  mapWallet : ∀ hash, t.pwallet.mapWallet[hash]? = (s.pwallet.mapWallet hash).map order
  mapMasterKeys : ∀ nID, nID ∈ t.pwallet.mapMasterKeys ↔ (s.pwallet.mapMasterKeys nID).isSome
  keyStore : t.pwallet.keyStore = s.pwallet.keyStore
  nTimeFirstKey : t.pwallet.nTimeFirstKey = s.pwallet.nTimeFirstKey
  nOrderPosNext : t.pwallet.nOrderPosNext = s.pwallet.nOrderPosNext
  wss : t.wss = s.wss

/-- The same result, with states that belong together. -/
def Agrees (order : CWalletTx H X → TxOrder) (r : RecordResult H X S) (r' : ReadResult H S) :
    Prop :=
  r.1 = r'.1.isNone ∧ Loads order r.2 r'.2

variable {s s' : RecordState H X S} {t t' : LoadState H S}

theorem agrees_none (h : Loads order s' t') : Agrees order (true, s') (none, t') := ⟨rfl, h⟩

theorem agrees_some {strErr : String} (h : Loads order s' t') :
    Agrees order (false, s') (some strErr, t') := ⟨rfl, h⟩

theorem agrees_ite {c : Prop} [Decidable c] {r₁ r₂ : RecordResult H X S}
    {r₁' r₂' : ReadResult H S} (h₁ : Agrees order r₁ r₁') (h₂ : Agrees order r₂ r₂') :
    Agrees order (if c then r₁ else r₂) (if c then r₁' else r₂') := by
  split
  · exact h₁
  · exact h₂

/-- Of a value that is read, the loaded wallet may know less. -/
theorem agrees_reading_map {α β : Type} {p : Parser α} {q : Parser β} {ss : List UInt8}
    (val : α → β) (hq : q ss = (p ss).map fun r => (val r.1, r.2)) (hs : Loads order s t)
    {f : α → List UInt8 → RecordResult H X S} {g : β → List UInt8 → ReadResult H S}
    (h : ∀ a rest, p ss = some (a, rest) → Agrees order (f a rest) (g (val a) rest)) :
    Agrees order (reading p ss s f) (TriTip.reading q ss t g) := by
  unfold reading TriTip.reading
  rw [hq]
  rcases hp : p ss with _ | ⟨a, rest⟩
  · exact agrees_some hs
  · exact h a rest hp

theorem agrees_reading {α : Type} {p : Parser α} {ss : List UInt8} (hs : Loads order s t)
    {f : α → List UInt8 → RecordResult H X S} {g : α → List UInt8 → ReadResult H S}
    (h : ∀ a rest, p ss = some (a, rest) → Agrees order (f a rest) (g a rest)) :
    Agrees order (reading p ss s f) (TriTip.reading p ss t g) :=
  agrees_reading_map id (by simp) hs h

theorem Loads.setWss (h : Loads order s t) (wss : CWalletScanState H) :
    Loads order { s with wss } { t with wss } :=
  ⟨h.mapWallet, h.mapMasterKeys, h.keyStore, h.nTimeFirstKey, h.nOrderPosNext, rfl⟩

/-- What the loaded wallet does not know. -/
theorem Loads.setOther (h : Loads order s t) (nAccountingEntryNumber : UInt64)
    (strType strErr : List UInt8) :
    Loads order { s with nAccountingEntryNumber, strType, strErr } t :=
  ⟨h.mapWallet, h.mapMasterKeys, h.keyStore, h.nTimeFirstKey, h.nOrderPosNext, h.wss⟩

theorem agrees_fail {strErr strErr' : String} (h : Loads order s t) :
    Agrees order (fail s strErr) (some strErr', t) :=
  agrees_some (h.setOther _ _ _)

theorem agrees_added {result : Bool × S} {strErr strErr' : String} (h : Loads order s t)
    (hrefuse : result.1 = false → result.2 = s.pwallet.keyStore)
    {g : S → LoadState H S}
    (hg : ∀ keyStore, Loads order { s with pwallet.keyStore := keyStore } (g keyStore)) :
    Agrees order (added s result strErr)
      (match ifAdded result with
        | none => (some strErr', t)
        | some keyStore => (none, g keyStore)) := by
  obtain ⟨fLoaded, keyStore⟩ := result
  cases fLoaded with
  | true => exact agrees_none (hg keyStore)
  | false =>
    obtain rfl := hrefuse rfl
    exact agrees_fail h

variable {keys : CKeyStore K S}

theorem agrees_readAcentry (ssKey ssValue : List UInt8) (h : Loads order s t) :
    Agrees order (readAcentry F ssKey ssValue s)
      (TriTip.readAcentry (F.toWalletFormat order thrownTx) ssKey ssValue t) := by
  refine agrees_reading h fun _ _ _ => agrees_reading h fun nNumber _ _ => ?_
  have hnumber := h.setOther (max s.nAccountingEntryNumber nNumber) s.strType s.strErr
  dsimp only
  rw [h.wss]
  split
  · exact agrees_none hnumber
  · refine agrees_reading hnumber fun acentry _ _ => ?_
    split
    · exact agrees_none (hnumber.setWss _)
    · exact agrees_none hnumber

theorem agrees_readKey (hkeys : keys.Refuses) (ssKey ssValue : List UInt8)
    (h : Loads order s t) :
    Agrees order (readKey F keys ssKey ssValue s)
      (TriTip.readKey (F.toWalletFormat order thrownTx) keys.toKeyStore s.strType ssKey ssValue
        t) := by
  refine agrees_reading h fun vchPubKey _ _ => ?_
  split
  · exact agrees_fail h
  have hadd : ∀ {s : RecordState H X S} {t : LoadState H S}, Loads order s t →
      ∀ pkey : List UInt8, Agrees order (addKey keys vchPubKey pkey s)
        (match keys.SetPrivKey pkey vchPubKey.IsCompressed with
        | none => (some "Error reading wallet database: CPrivKey corrupt", t)
        | some key =>
          if keys.GetPubKey key ≠ vchPubKey then
            (some "Error reading wallet database: CPrivKey pubkey inconsistency", t)
          else
            match ifAdded (keys.LoadKey t.pwallet.keyStore key vchPubKey) with
            | none => (some "Error reading wallet database: LoadKey failed", t)
            | some keyStore =>
              (none, { t with
                pwallet.keyStore := keyStore
                pwallet.loaded := t.pwallet.loaded ++ [vchPubKey] })) := by
    intro s t h pkey
    unfold addKey
    cases keys.SetPrivKey pkey vchPubKey.IsCompressed with
    | none => exact agrees_fail h
    | some key =>
      refine agrees_ite (agrees_fail h) ?_
      rw [h.keyStore]
      exact agrees_added h (hkeys.LoadKey _ key vchPubKey) fun keyStore =>
        ⟨h.mapWallet, h.mapMasterKeys, rfl, h.nTimeFirstKey, h.nOrderPosNext, h.wss⟩
  dsimp only
  rw [h.wss]
  by_cases hkey : s.strType = ascii "key"
  · rw [if_pos (decide_eq_true hkey), if_pos (decide_eq_true hkey), if_pos hkey, if_pos hkey]
    exact agrees_reading (h.setWss _) fun pkey _ _ => hadd (h.setWss _) pkey
  · have hnot : ¬decide (s.strType = ascii "key") = true := by simpa using hkey
    rw [if_neg hnot, if_neg hnot, if_neg hkey, if_neg hkey]
    exact agrees_reading h fun pkey _ _ => hadd h pkey

theorem agrees_readMkey (ssKey ssValue : List UInt8) (h : Loads order s t) :
    Agrees order (readMkey F ssKey ssValue s)
      (TriTip.readMkey (F.toWalletFormat order thrownTx) ssKey ssValue t) := by
  refine agrees_reading h fun nID _ _ =>
    agrees_reading_map CMasterKey.vchCryptedKey rfl h fun kMasterKey _ _ => ?_
  by_cases hdup : (s.pwallet.mapMasterKeys nID).isSome = true
  · rw [if_pos hdup, if_pos ((h.mapMasterKeys nID).2 hdup)]
    exact agrees_fail h
  · rw [if_neg hdup, if_neg (mt (h.mapMasterKeys nID).1 hdup)]
    refine agrees_none ⟨h.mapWallet, fun nID' => ?_, h.keyStore, h.nTimeFirstKey,
      h.nOrderPosNext, h.wss⟩
    dsimp only
    rw [Finset.mem_insert, Function.update_apply, h.mapMasterKeys]
    split
    · next heq => simp [heq]
    · next hne => simp [hne]

theorem agrees_readCkey (hkeys : keys.Refuses) (ssKey ssValue : List UInt8)
    (h : Loads order s t) :
    Agrees order (readCkey F keys ssKey ssValue s)
      (TriTip.readCkey (F.toWalletFormat order thrownTx) keys.toKeyStore ssKey ssValue t) := by
  refine agrees_reading h fun vchPubKey _ _ => agrees_reading h fun vchPrivKey _ _ => ?_
  have hrefuse := hkeys.AddCryptedKey s.pwallet.keyStore (.Set vchPubKey) vchPrivKey
  unfold CKeyStore.toKeyStore
  dsimp only
  rw [h.keyStore, h.wss]
  revert hrefuse
  rcases keys.AddCryptedKey s.pwallet.keyStore (.Set vchPubKey) vchPrivKey with
    ⟨_ | _, keyStore⟩
  · intro hrefuse
    obtain rfl := hrefuse rfl
    exact agrees_fail (h.setWss _)
  · intro _
    exact agrees_none ⟨h.mapWallet, h.mapMasterKeys, rfl, h.nTimeFirstKey, h.nOrderPosNext, rfl⟩

theorem agrees_readKeymeta (ssKey ssValue : List UInt8) (h : Loads order s t) :
    Agrees order (readKeymeta F ssKey ssValue s)
      (TriTip.readKeymeta (F.toWalletFormat order thrownTx) ssKey ssValue t) := by
  refine agrees_reading h fun vchPubKey _ _ => agrees_reading h fun nCreateTime _ _ => ?_
  dsimp only
  rw [h.wss, h.nTimeFirstKey]
  have hwss := h.setWss { s.wss with nKeyMeta := s.wss.nKeyMeta + 1 }
  split
  · exact agrees_none ⟨hwss.mapWallet, hwss.mapMasterKeys, hwss.keyStore, rfl,
      hwss.nOrderPosNext, hwss.wss⟩
  · exact agrees_none hwss

theorem agrees_readVersion (ssValue : List UInt8) (h : Loads order s t) :
    Agrees order (readVersion ssValue s) (TriTip.readVersion ssValue t) := by
  refine agrees_reading h fun nFileVersion _ _ => ?_
  rw [h.wss]
  exact agrees_none (h.setWss _)

theorem agrees_readCscript (hkeys : keys.Refuses) (ssKey ssValue : List UInt8)
    (h : Loads order s t) :
    Agrees order (readCscript F keys ssKey ssValue s)
      (TriTip.readCscript (F.toWalletFormat order thrownTx) keys.toKeyStore ssKey ssValue t) := by
  refine agrees_reading h fun _ _ _ => agrees_reading h fun script _ _ => ?_
  rw [h.keyStore]
  exact agrees_added h (hkeys.LoadCScript _ script) fun keyStore =>
    ⟨h.mapWallet, h.mapMasterKeys, rfl, h.nTimeFirstKey, h.nOrderPosNext, h.wss⟩

theorem agrees_readOrderposnext (ssValue : List UInt8) (h : Loads order s t) :
    Agrees order (readOrderposnext ssValue s) (TriTip.readOrderposnext ssValue t) :=
  agrees_reading h fun _ _ _ => agrees_none
    ⟨h.mapWallet, h.mapMasterKeys, h.keyStore, h.nTimeFirstKey, rfl, h.wss⟩

theorem agrees_readName (hF : Overwrites F order thrownTx) (Hash : Hasher) (fTestNet : Bool)
    (ssKey ssValue : List UInt8) (h : Loads order s t) :
    Agrees order (readName F Hash fTestNet ssKey ssValue s)
      (TriTip.reading F.newString ssKey t fun _ _ =>
        TriTip.reading F.newString ssValue t fun _ _ => (none, t)) := by
  refine agrees_reading h fun strAddress rest hread => ?_
  obtain ⟨addr, haddr⟩ := CBitcoinAddress.exists_ofString Hash (hF.short _ _ _ hread)
  have hname : ∀ address strName, Loads order (setName s address strName) t := fun _ _ =>
    ⟨h.mapWallet, h.mapMasterKeys, h.keyStore, h.nTimeFirstKey, h.nOrderPosNext, h.wss⟩
  rw [haddr]
  dsimp only
  unfold TriTip.reading
  rcases hF.string_cases ((s.pwallet.mapAddressBook (CBitcoinAddress.Get fTestNet addr)).getD [])
    ssValue with ⟨strName, tail, hstr, hnew⟩ | ⟨strName, hstr, hnew⟩
  · rw [hstr, hnew]
    exact agrees_none (hname _ _)
  · rw [hstr, hnew]
    exact agrees_some (hname _ _)

variable [Std.LawfulEqOrd H] [DecidableEq H]

theorem Loads.setTx (h : Loads order s t) (hash : H) {wtx : CWalletTx H X} {v : TxOrder}
    (hv : order wtx = v) :
    Loads order (WalletRecords.setTx s hash (some wtx))
      { t with pwallet.mapWallet := t.pwallet.mapWallet.insert hash v } := by
  refine ⟨fun hash' => ?_, h.mapMasterKeys, h.keyStore, h.nTimeFirstKey, h.nOrderPosNext, h.wss⟩
  change (t.pwallet.mapWallet.insert hash v)[hash']? =
    (Function.update s.pwallet.mapWallet hash (some wtx) hash').map order
  rw [Std.ExtTreeMap.getElem?_insert, Function.update_apply]
  by_cases heq : hash = hash'
  · subst heq
    simp [hv]
  · rw [if_neg (by simpa using heq), if_neg (Ne.symm heq), h.mapWallet]

theorem Loads.eraseTx (h : Loads order s t) (hash : H) :
    Loads order (WalletRecords.setTx s hash none)
      { t with pwallet.mapWallet := t.pwallet.mapWallet.erase hash } := by
  refine ⟨fun hash' => ?_, h.mapMasterKeys, h.keyStore, h.nTimeFirstKey, h.nOrderPosNext, h.wss⟩
  change (t.pwallet.mapWallet.erase hash)[hash']? =
    (Function.update s.pwallet.mapWallet hash none hash').map order
  rw [Std.ExtTreeMap.getElem?_erase, Function.update_apply]
  by_cases heq : hash = hash'
  · subst heq
    simp
  · rw [if_neg (by simpa using heq), if_neg (Ne.symm heq), h.mapWallet]

/-- A transaction that is kept, with what follows on its order. -/
theorem agrees_keepTx (hF : Overwrites F order thrownTx) (h : Loads order s t) (hash : H)
    {wtx : CWalletTx H X} {v : TxOrder} (hv : order wtx = v) (wss : CWalletScanState H) :
    Agrees order (keepTx { s with wss } hash wtx) (none,
      if v.nOrderPos = -1 then
        { t with
          pwallet.mapWallet := t.pwallet.mapWallet.insert hash v
          wss := { wss with fAnyUnordered := true } }
      else { t with pwallet.mapWallet := t.pwallet.mapWallet.insert hash v, wss }) := by
  have hset := (h.setWss wss).setTx hash hv
  subst hv
  unfold keepTx
  dsimp only
  rw [hF.nOrderPos]
  split
  · exact agrees_none (hset.setWss _)
  · exact agrees_none hset

variable [Zero H] {R : Consensus H}

theorem agrees_readTx (hF : Overwrites F order thrownTx) (ssKey ssValue : List UInt8)
    (h : Loads order s t) :
    Agrees order (readTx R F ssKey ssValue s)
      (TriTip.readTx R (F.toWalletFormat order thrownTx) ssKey ssValue t) := by
  refine agrees_reading h fun hash _ _ => ?_
  rcases hF.tx_cases ((s.pwallet.mapWallet hash).getD F.newTx) ssValue with
    ⟨wtx, tail, htx, hnew⟩ | ⟨wtx, htx, horder, hnew⟩
  · rw [htx, hnew]
    dsimp only
    have hup : ∀ fTimeReceivedIsTxTime strFromAccount, order { wtx with
        fTimeReceivedIsTxTime, strFromAccount, rest := F.BindWallet wtx.rest } = order wtx :=
      hF.upgraded wtx
    by_cases hvalid : IsValidTx R wtx hash = true
    · have hvalid' : ((CheckTransaction R wtx.tx).isOk && decide (R.txHash wtx.tx = hash)) = true :=
        hvalid
      rw [if_pos hvalid, if_pos hvalid', h.wss]
      by_cases hneeds : 31404 ≤ wtx.fTimeReceivedIsTxTime ∧ wtx.fTimeReceivedIsTxTime ≤ 31703
      · have hneeds' : NeedsUpgrade { wtx with rest := F.BindWallet wtx.rest } = true := by
          unfold NeedsUpgrade
          simpa using hneeds
        have hstring : (F.toWalletFormat order thrownTx).string = F.newString := rfl
        rw [if_pos hneeds, if_pos hneeds', hstring]
        rcases upgradeTx_cases hF hash { wtx with rest := F.BindWallet wtx.rest } tail with
          ⟨str, hthrows, hstop⟩ | ⟨str, ver, strErr, hread, hgo⟩
        · rw [hthrows, hstop]
          exact agrees_some ((h.setWss s.wss).setTx hash (hup wtx.fTimeReceivedIsTxTime str))
        · rw [hread, hgo]
          exact agrees_keepTx hF (h.setOther s.nAccountingEntryNumber s.strType strErr) hash
            (hup ver str) _
      · have hneeds' : ¬NeedsUpgrade { wtx with rest := F.BindWallet wtx.rest } = true := by
          unfold NeedsUpgrade
          simpa using hneeds
        rw [if_neg hneeds, if_neg hneeds']
        exact agrees_keepTx hF h hash (hup _ _) s.wss
    · have hvalid' :
          ¬((CheckTransaction R wtx.tx).isOk && decide (R.txHash wtx.tx = hash)) = true :=
        hvalid
      rw [if_neg hvalid, if_neg hvalid']
      exact agrees_some (h.eraseTx hash)
  · rw [htx, hnew]
    exact agrees_some (h.setTx hash horder)

/-- **One record, read twice.** `LoadWallet` gets the same result of a record, and has of the wallet
what it knows of it. -/
theorem agrees_ReadKeyValue (hF : Overwrites F order thrownTx) (hkeys : keys.Refuses)
    (Hash : Hasher) (fTestNet : Bool) (ssKey ssValue : List UInt8) (h : Loads order s t) :
    Agrees order (ReadKeyValue R F keys Hash fTestNet ssKey ssValue s)
      (TriTip.ReadKeyValue R (F.toWalletFormat order thrownTx) keys.toKeyStore ssKey ssValue
        t) := by
  unfold ReadKeyValue TriTip.ReadKeyValue
  rcases hF.string_cases s.strType ssKey with ⟨strType, rest, hstr, hnew⟩ | ⟨strType, hstr, hnew⟩
  · have hs := h.setOther s.nAccountingEntryNumber strType s.strErr
    have hother : ∀ {vchDefaultKey setKeyPool}, Loads order { s with
        strType
        pwallet.vchDefaultKey := vchDefaultKey
        pwallet.setKeyPool := setKeyPool } t :=
      ⟨h.mapWallet, h.mapMasterKeys, h.keyStore, h.nTimeFirstKey, h.nOrderPosNext, h.wss⟩
    unfold TriTip.reading
    rw [hstr, show (F.toWalletFormat order thrownTx).string ssKey = some (strType, rest) from hnew]
    refine agrees_ite (agrees_readName hF Hash fTestNet rest ssValue hs) ?_
    refine agrees_ite (agrees_readTx hF rest ssValue hs) ?_
    refine agrees_ite (agrees_readAcentry rest ssValue hs) ?_
    refine agrees_ite (agrees_readKey hkeys rest ssValue hs) ?_
    refine agrees_ite (agrees_readMkey rest ssValue hs) ?_
    refine agrees_ite (agrees_readCkey hkeys rest ssValue hs) ?_
    refine agrees_ite (agrees_readKeymeta rest ssValue hs) ?_
    refine agrees_ite (agrees_reading hs fun _ _ _ => agrees_none hother) ?_
    refine agrees_ite (agrees_reading hs fun _ _ _ => agrees_none hother) ?_
    refine agrees_ite (agrees_readVersion ssValue hs) ?_
    refine agrees_ite (agrees_readCscript hkeys rest ssValue hs) ?_
    exact agrees_ite (agrees_readOrderposnext ssValue hs) (agrees_none hs)
  · unfold TriTip.reading
    rw [hstr, show (F.toWalletFormat order thrownTx).string ssKey = none from hnew]
    exact agrees_some (h.setOther _ _ _)

/-- The records one after another. -/
def readRecords (R : Consensus H) (F : RecordFormat H X) (keys : CKeyStore K S) (Hash : Hasher)
    (fTestNet : Bool) (records : List DbRecord) (s : RecordState H X S) : RecordState H X S :=
  records.foldl (fun s r => (ReadKeyValue R F keys Hash fTestNet r.1 r.2
    { s with strType := [], strErr := [] }).2) s

/-- **The loop of `LoadWallet`** has at its end what it knows of all the records. -/
theorem loads_loadLoop (hF : Overwrites F order thrownTx) (hkeys : keys.Refuses) (Hash : Hasher)
    (fTestNet : Bool) (out : LoadOutcome) {records : List DbRecord} {i : Nat}
    {scan scan' : LoadScan H S} (h : Loads order s scan.state)
    (hloop : loadLoop R (F.toWalletFormat order thrownTx) keys.toKeyStore out records i scan =
      .ok scan') :
    Loads order (readRecords R F keys Hash fTestNet records s) scan'.state := by
  induction records generalizing i s scan with
  | nil =>
    unfold loadLoop at hloop
    split at hloop
    · cases hloop
    · obtain rfl := Except.ok.inj hloop
      exact h
  | cons r records ih =>
    unfold loadLoop at hloop
    split at hloop
    · cases hloop
    · refine ih ?_ hloop
      have hread := agrees_ReadKeyValue (R := R) hF hkeys Hash fTestNet r.1 r.2
        (h.setOther s.nAccountingEntryNumber [] [])
      unfold loadRecord
      generalize TriTip.ReadKeyValue R (F.toWalletFormat order thrownTx) keys.toKeyStore r.1 r.2
        scan.state = result at hread ⊢
      obtain ⟨_ | strErr, state⟩ := result
      · exact hread.2
      · dsimp only
        split
        · exact hread.2
        · exact hread.2

end

/-- A string that is read whole. -/
theorem readIntoString_some {str ss str' rest : List UInt8}
    (h : readIntoString str ss = (str', some ((), rest))) :
    (∀ str₀, readIntoString str₀ ss = (str', some ((), rest))) ∧ str'.length < 253 := by
  cases ss with
  | nil => cases h
  | cons nSize bs =>
    unfold readIntoString at h ⊢
    dsimp only at h ⊢
    split_ifs at h ⊢ with hlarge hfits
    · cases h
    · refine ⟨fun _ => h, ?_⟩
      rw [← (Prod.mk.inj h).1, List.length_take]
      omega
    · cases h

/-- Few bytes are read so. -/
theorem fewRecords_overwrites :
    Overwrites fewRecords (fun wtx => ⟨0, wtx.nOrderPos⟩) fun _ => ⟨0, -1⟩ where
  string str ss str' rest h := (readIntoString_some h).1 str
  stringThrows str ss h := by
    cases hread : fewRecords.string str ss with
    | mk str' read =>
      cases read with
      | none => rfl
      | some r =>
        have hnew := (readIntoString_some hread).1 []
        cases (congrArg Prod.snd hnew).symm.trans h
  short ss str rest h := by
    unfold RecordFormat.newString at h
    split at h
    · next str' _ rest' hread =>
      obtain ⟨rfl, -⟩ := Prod.mk.inj (Option.some.inj h)
      exact (readIntoString_some hread).2.trans (by decide)
    · cases h
  tx _ _ _ _ h := by cases congrArg Prod.snd h
  txThrows wtx ss _ := ⟨_, rfl, rfl⟩
  nOrderPos _ := rfl
  upgraded _ _ _ := rfl

end TriTip.WalletRecords
