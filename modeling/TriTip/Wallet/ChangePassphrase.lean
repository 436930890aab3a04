import TriTip.Lib.Scan
import TriTip.Wallet.ReadKeyValue

/-!
# Changing the passphrase

`CWallet::Unlock` and `CWallet::ChangeWalletPassphrase` of `wallet.cpp`, with `CMasterKey` and
`SetKeyFromPassphrase` of `crypter.cpp`. Both go over the master keys. Where a master key does not
decrypt, `Unlock` tries another one and `ChangeWalletPassphrase` gives up; and it locks the wallet
first, so that a wallet which was unlocked is locked after a change that fails.
`ChangeWalletPassphrase_iff` says for which wallets and passphrases neither is seen. The cipher and
what a crypted key store accepts are arbitrary, the iteration counts are whatever the clock gives.
-/

namespace TriTip.Passphrase

open WalletRecords (CMasterKey)
open Scan

abbrev SecureString := List UInt8

abbrev CKeyingMaterial := List UInt8

/-- What is called of the library for keys of type `K`, each with its initialization vector. -/
structure Cipher (K : Type) where
  /-- with `EVP_aes_256_cbc` and `EVP_sha512`, for which it fills the 32 bytes of a key -/
  EVP_BytesToKey : SecureString → List UInt8 → UInt32 → K
  EVP_Encrypt : K → CKeyingMaterial → List UInt8
  EVP_Decrypt : K → List UInt8 → Option CKeyingMaterial
  decrypt_encrypt : ∀ key vchPlaintext,
    EVP_Decrypt key (EVP_Encrypt key vchPlaintext) = some vchPlaintext

/-- A crypted key store. What it accepts depends on its crypted keys. -/
structure CCryptoKeyStore where
  /-- empty if the store is locked -/
  vMasterKey : CKeyingMaterial
  accepts : CKeyingMaterial → Bool

namespace CCryptoKeyStore

def IsLocked (store : CCryptoKeyStore) : Bool := store.vMasterKey.isEmpty

def Lock (store : CCryptoKeyStore) : CCryptoKeyStore := { store with vMasterKey := [] }

def Unlock (store : CCryptoKeyStore) (vMasterKeyIn : CKeyingMaterial) : Bool × CCryptoKeyStore :=
  if store.accepts vMasterKeyIn then (true, { store with vMasterKey := vMasterKeyIn })
  else (false, store)

@[simp] theorem Unlock_fst (store : CCryptoKeyStore) (vMasterKeyIn : CKeyingMaterial) :
    (store.Unlock vMasterKeyIn).1 = store.accepts vMasterKeyIn := by
  unfold Unlock
  split <;> simp_all

@[simp] theorem Unlock_accepts (store : CCryptoKeyStore) (vMasterKeyIn : CKeyingMaterial) :
    (store.Unlock vMasterKeyIn).2.accepts = store.accepts := by
  unfold Unlock
  split <;> rfl

end CCryptoKeyStore

/-- A wallet, with the master keys by their numbers. -/
structure CWallet where
  keyStore : CCryptoKeyStore
  mapMasterKeys : List (UInt32 × CMasterKey)

/-- What the two measurements of a run make of the iteration count. -/
structure Timing where
  first : UInt32 → UInt32
  second : UInt32 → UInt32

section

variable {K : Type} (C : Cipher K)

/-- The key, if the crypter is set. -/
def SetKeyFromPassphrase (strKeyData : SecureString) (chSalt : List UInt8)
    (nRounds nDerivationMethod : UInt32) : Option K :=
  if nRounds < 1 ∨ chSalt.length ≠ 8 then none
  else if nDerivationMethod = 0 then some (C.EVP_BytesToKey strKeyData chSalt nRounds)
  else none

/-- The crypter's key for a master key. -/
def crypterKey (strPassphrase : SecureString) (key : CMasterKey) : Option K :=
  SetKeyFromPassphrase C strPassphrase key.vchSalt key.nDeriveIterations key.nDerivationMethod

def unlockLoop (strWalletPassphrase : SecureString) (store : CCryptoKeyStore) :
    List (UInt32 × CMasterKey) → Bool × CCryptoKeyStore
  | [] => (false, store)
  | pMasterKey :: rest =>
    match crypterKey C strWalletPassphrase pMasterKey.2 with
    | none => (false, store)
    | some crypter =>
      match C.EVP_Decrypt crypter pMasterKey.2.vchCryptedKey with
      | none => unlockLoop strWalletPassphrase store rest -- try another master key
      | some vMasterKey =>
        if (store.Unlock vMasterKey).1 then store.Unlock vMasterKey
        else unlockLoop strWalletPassphrase (store.Unlock vMasterKey).2 rest

def CWallet.Unlock (wallet : CWallet) (strWalletPassphrase : SecureString) : Bool × CWallet :=
  let (fUnlocked, keyStore) := unlockLoop C strWalletPassphrase wallet.keyStore wallet.mapMasterKeys
  (fUnlocked, { wallet with keyStore })

variable (T : Timing)

/-- The iteration count after the two measurements. -/
def newDeriveIterations (nDeriveIterations : UInt32) : UInt32 :=
  if T.second (T.first nDeriveIterations) < 25000 then 25000
  else T.second (T.first nDeriveIterations)

/-- A master key that the store has accepted is encrypted with the new passphrase. -/
def rewriteMasterKey (strNewWalletPassphrase : SecureString) (vMasterKey : CKeyingMaterial)
    (key : CMasterKey) : Bool × CMasterKey :=
  let key := { key with nDeriveIterations := newDeriveIterations T key.nDeriveIterations }
  match crypterKey C strNewWalletPassphrase key with
  | none => (false, key)
  | some crypter => (true, { key with vchCryptedKey := C.EVP_Encrypt crypter vMasterKey })

def changeLoop (strOldWalletPassphrase strNewWalletPassphrase : SecureString)
    (store : CCryptoKeyStore) :
    List (UInt32 × CMasterKey) → Bool × CCryptoKeyStore × List (UInt32 × CMasterKey)
  | [] => (false, store, [])
  | pMasterKey :: rest =>
    match crypterKey C strOldWalletPassphrase pMasterKey.2 with
    | none => (false, store, pMasterKey :: rest)
    | some crypter =>
      match C.EVP_Decrypt crypter pMasterKey.2.vchCryptedKey with
      | none => (false, store, pMasterKey :: rest)
      | some vMasterKey =>
        if (store.Unlock vMasterKey).1 then
          let (fChanged, key) := rewriteMasterKey C T strNewWalletPassphrase vMasterKey pMasterKey.2
          (fChanged, (store.Unlock vMasterKey).2, (pMasterKey.1, key) :: rest)
        else
          let (fChanged, store, rest) := changeLoop strOldWalletPassphrase strNewWalletPassphrase
            (store.Unlock vMasterKey).2 rest
          (fChanged, store, pMasterKey :: rest)

def CWallet.ChangeWalletPassphrase (wallet : CWallet)
    (strOldWalletPassphrase strNewWalletPassphrase : SecureString) : Bool × CWallet :=
  let fWasLocked := wallet.keyStore.IsLocked
  let (fChanged, keyStore, mapMasterKeys) := changeLoop C T strOldWalletPassphrase
    strNewWalletPassphrase wallet.keyStore.Lock wallet.mapMasterKeys
  (fChanged, ⟨if fChanged && fWasLocked then keyStore.Lock else keyStore, mapMasterKeys⟩)

end

/-! ## The master keys that a loop gets to -/

section

variable {K : Type} (C : Cipher K) (T : Timing)

/-- Whether a key is derived, which no passphrase decides. -/
def Derives (key : CMasterKey) : Prop :=
  1 ≤ key.nDeriveIterations ∧ key.vchSalt.length = 8 ∧ key.nDerivationMethod = 0

/-- What a master key decrypts to. -/
def decryptedKey (strPassphrase : SecureString) (key : CMasterKey) : Option CKeyingMaterial :=
  (crypterKey C strPassphrase key).bind fun crypter => C.EVP_Decrypt crypter key.vchCryptedKey

def Decrypts (strPassphrase : SecureString) (key : CMasterKey) : Prop :=
  (decryptedKey C strPassphrase key).isSome

/-- Whether a passphrase opens a store by a master key. -/
def Opens (store : CCryptoKeyStore) (strPassphrase : SecureString) (key : CMasterKey) : Prop :=
  ∃ vMasterKey, decryptedKey C strPassphrase key = some vMasterKey ∧
    store.accepts vMasterKey = true

variable {C}

theorem crypterKey_eq_none_iff {strPassphrase : SecureString} {key : CMasterKey} :
    crypterKey C strPassphrase key = none ↔ ¬ Derives key := by
  unfold crypterKey SetKeyFromPassphrase Derives
  split_ifs with hbad hmethod
  · rw [← UInt32.not_le] at hbad
    tauto
  · rw [not_or, UInt32.not_lt, not_not] at hbad
    simp [hbad, hmethod]
  · tauto

theorem derives_of_decrypts {strPassphrase : SecureString} {key : CMasterKey}
    (h : Decrypts C strPassphrase key) : Derives key := by
  by_contra hnot
  simp [Decrypts, decryptedKey, crypterKey_eq_none_iff.2 hnot] at h

theorem Opens.decrypts {store : CCryptoKeyStore} {strPassphrase : SecureString} {key : CMasterKey}
    (h : Opens C store strPassphrase key) : Decrypts C strPassphrase key := by
  obtain ⟨vMasterKey, hdecrypt, -⟩ := h
  simp [Decrypts, hdecrypt]

/-- The loop of `Unlock` goes on as long as keys are derived. -/
theorem unlockLoop_iff (strPassphrase : SecureString) (store : CCryptoKeyStore)
    (keys : List (UInt32 × CMasterKey)) :
    (unlockLoop C strPassphrase store keys).1 = true ↔
      Reaches Derives (Opens C store strPassphrase) (keys.map Prod.snd) := by
  induction keys with
  | nil => simp [unlockLoop]
  | cons pMasterKey rest ih =>
    unfold unlockLoop
    rw [List.map_cons, reaches_cons, ← ih]
    cases hkey : crypterKey C strPassphrase pMasterKey.2 with
    | none =>
      have hnot := crypterKey_eq_none_iff.1 hkey
      simp [hnot, Opens, decryptedKey, hkey]
    | some crypter =>
      have hderives : Derives pMasterKey.2 := by
        by_contra hnot
        rw [crypterKey_eq_none_iff.2 hnot] at hkey
        cases hkey
      cases hdecrypt : C.EVP_Decrypt crypter pMasterKey.2.vchCryptedKey with
      | none => simp [hderives, Opens, decryptedKey, hkey, hdecrypt]
      | some vMasterKey =>
        cases haccepts : store.accepts vMasterKey with
        | true => simp [Opens, decryptedKey, hkey, hdecrypt, haccepts]
        | false =>
          simp [hderives, Opens, decryptedKey, hkey, hdecrypt, haccepts, CCryptoKeyStore.Unlock]

/-- The loop of `ChangeWalletPassphrase` goes on as long as the master keys decrypt; when it fails
it has changed nothing. -/
theorem changeLoop_of_not_reaches (p q : SecureString) {store : CCryptoKeyStore}
    {keys : List (UInt32 × CMasterKey)}
    (h : ¬ Reaches (Decrypts C p) (Opens C store p) (keys.map Prod.snd)) :
    changeLoop C T p q store keys = (false, store, keys) := by
  induction keys with
  | nil => rfl
  | cons pMasterKey rest ih =>
    rw [List.map_cons, reaches_cons, not_or, not_and] at h
    obtain ⟨hopens, hrest⟩ := h
    unfold changeLoop
    cases hkey : crypterKey C p pMasterKey.2 with
    | none => rfl
    | some crypter =>
      dsimp only
      cases hdecrypt : C.EVP_Decrypt crypter pMasterKey.2.vchCryptedKey with
      | none => rfl
      | some vMasterKey =>
        have hdecrypted : decryptedKey C p pMasterKey.2 = some vMasterKey := by
          simp [decryptedKey, hkey, hdecrypt]
        have hrefused : store.accepts vMasterKey = false := by
          by_contra haccepts
          exact hopens ⟨vMasterKey, hdecrypted, by simpa using haccepts⟩
        have hloop := ih (hrest (by simp [Decrypts, hdecrypted]))
        simp [CCryptoKeyStore.Unlock, hrefused, hloop]

/-- A master key that has been derived is rewritten so that the new passphrase decrypts it. -/
theorem decryptedKey_rewriteMasterKey (q : SecureString) (vMasterKey : CKeyingMaterial)
    {key : CMasterKey} (h : Derives key) :
    (rewriteMasterKey C T q vMasterKey key).1 = true ∧
      decryptedKey C q (rewriteMasterKey C T q vMasterKey key).2 = some vMasterKey := by
  have hrounds : 1 ≤ newDeriveIterations T key.nDeriveIterations := by
    unfold newDeriveIterations
    split_ifs with hlow
    · decide
    · exact UInt32.le_trans (by decide) (UInt32.not_lt.1 hlow)
  have hderives : Derives
      { key with nDeriveIterations := newDeriveIterations T key.nDeriveIterations } :=
    ⟨hrounds, h.2⟩
  obtain ⟨crypter, hkey⟩ := Option.ne_none_iff_exists'.1
    (mt crypterKey_eq_none_iff.1 (not_not_intro hderives) : crypterKey C q _ ≠ none)
  -- the key is derived from the salt and the count, not from what is encrypted
  have hkey' : crypterKey C q { key with
      nDeriveIterations := newDeriveIterations T key.nDeriveIterations
      vchCryptedKey := C.EVP_Encrypt crypter vMasterKey } = some crypter := hkey
  simp only [rewriteMasterKey, hkey, decryptedKey, hkey', Option.bind_some, C.decrypt_encrypt,
    and_self]

/-- Otherwise the loop ends at the master key that opens the store, and the new passphrase opens it
there. -/
theorem changeLoop_of_reaches (p q : SecureString) {store : CCryptoKeyStore}
    {keys : List (UInt32 × CMasterKey)}
    (h : Reaches (Decrypts C p) (Opens C store p) (keys.map Prod.snd)) :
    (changeLoop C T p q store keys).1 = true ∧
      (changeLoop C T p q store keys).2.1.accepts = store.accepts ∧
      Reaches Derives (Opens C store q) ((changeLoop C T p q store keys).2.2.map Prod.snd) := by
  induction keys with
  | nil => simp at h
  | cons pMasterKey rest ih =>
    rw [List.map_cons, reaches_cons] at h
    have hdecrypts : Decrypts C p pMasterKey.2 := h.elim Opens.decrypts And.left
    have hderives := derives_of_decrypts hdecrypts
    unfold changeLoop
    cases hkey : crypterKey C p pMasterKey.2 with
    | none => exact absurd hderives (crypterKey_eq_none_iff.1 hkey)
    | some crypter =>
      dsimp only
      cases hdecrypt : C.EVP_Decrypt crypter pMasterKey.2.vchCryptedKey with
      | none => simp [Decrypts, decryptedKey, hkey, hdecrypt] at hdecrypts
      | some vMasterKey =>
        cases haccepts : store.accepts vMasterKey with
        | true =>
          obtain ⟨hok, hnew⟩ := decryptedKey_rewriteMasterKey (C := C) T q vMasterKey hderives
          simp only [CCryptoKeyStore.Unlock_fst, haccepts, if_true,
            CCryptoKeyStore.Unlock_accepts, List.map_cons, reaches_cons]
          exact ⟨hok, trivial, Or.inl ⟨vMasterKey, hnew, haccepts⟩⟩
        | false =>
          have hclosed : ¬ Opens C store p pMasterKey.2 := by
            rintro ⟨v, hv, hopens⟩
            simp only [decryptedKey, hkey, Option.bind_some, hdecrypt, Option.some.injEq] at hv
            rw [← hv, haccepts] at hopens
            cases hopens
          obtain ⟨hok, hstore, hreaches⟩ := ih (h.resolve_left hclosed).2
          have hunlock : store.Unlock vMasterKey = (false, store) := by
            simp [CCryptoKeyStore.Unlock, haccepts]
          simp only [hunlock, Bool.false_eq_true, if_false, List.map_cons, reaches_cons]
          exact ⟨hok, hstore, Or.inr ⟨hderives, hreaches⟩⟩

/-! ## What a change is to do -/

/-- A change succeeds where the old passphrase unlocks the wallet; the new one unlocks it then; and
a change that fails has left the master keys and whether the wallet is locked. -/
def ChangesPassphrase (C : Cipher K) (T : Timing) (wallet : CWallet) (p q : SecureString) : Prop :=
  ((wallet.Unlock C p).1 = true → (wallet.ChangeWalletPassphrase C T p q).1 = true) ∧
    ((wallet.ChangeWalletPassphrase C T p q).1 = true →
      ((wallet.ChangeWalletPassphrase C T p q).2.Unlock C q).1 = true) ∧
    ((wallet.ChangeWalletPassphrase C T p q).1 = false →
      (wallet.ChangeWalletPassphrase C T p q).2.mapMasterKeys = wallet.mapMasterKeys ∧
        (wallet.ChangeWalletPassphrase C T p q).2.keyStore.IsLocked = wallet.keyStore.IsLocked)

/-- The master keys of a wallet, in the order of their numbers. -/
def CWallet.masterKeys (wallet : CWallet) : List CMasterKey := wallet.mapMasterKeys.map Prod.snd

theorem Unlock_iff (wallet : CWallet) (p : SecureString) :
    (wallet.Unlock C p).1 = true ↔
      Reaches Derives (Opens C wallet.keyStore p) wallet.masterKeys :=
  unlockLoop_iff p wallet.keyStore wallet.mapMasterKeys

theorem opens_congr {store store' : CCryptoKeyStore} (h : store.accepts = store'.accepts)
    (p : SecureString) : Opens C store p = Opens C store' p := by
  unfold Opens
  rw [h]

/-- A change that gets to a master key which opens the store. -/
theorem change_of_reaches (T : Timing) {wallet : CWallet} {p : SecureString} (q : SecureString)
    (h : Reaches (Decrypts C p) (Opens C wallet.keyStore p) wallet.masterKeys) :
    (wallet.ChangeWalletPassphrase C T p q).1 = true ∧
      ((wallet.ChangeWalletPassphrase C T p q).2.Unlock C q).1 = true := by
  have hlocked : Reaches (Decrypts C p) (Opens C wallet.keyStore.Lock p) wallet.masterKeys := h
  obtain ⟨hok, hstore, hnew⟩ := changeLoop_of_reaches T p q hlocked
  refine ⟨hok, ?_⟩
  have haccepts : (wallet.ChangeWalletPassphrase C T p q).2.keyStore.accepts =
      wallet.keyStore.Lock.accepts := by
    unfold CWallet.ChangeWalletPassphrase
    dsimp only
    split <;> exact hstore
  rw [Unlock_iff, opens_congr haccepts]
  exact hnew

/-- A change that does not leaves the wallet locked, with its master keys. -/
theorem change_of_not_reaches (T : Timing) {wallet : CWallet} {p : SecureString} (q : SecureString)
    (h : ¬ Reaches (Decrypts C p) (Opens C wallet.keyStore p) wallet.masterKeys) :
    wallet.ChangeWalletPassphrase C T p q =
      (false, ⟨wallet.keyStore.Lock, wallet.mapMasterKeys⟩) := by
  have hlocked : ¬ Reaches (Decrypts C p) (Opens C wallet.keyStore.Lock p) wallet.masterKeys := h
  unfold CWallet.ChangeWalletPassphrase
  rw [changeLoop_of_not_reaches T p q hlocked]
  rfl

/-- **When a change of the passphrase does what it is to do.** Either the old passphrase opens the
wallet by a master key before which all decrypt; or the wallet is locked, and the old passphrase
does not unlock it. -/
theorem ChangeWalletPassphrase_iff (C : Cipher K) (T : Timing) (wallet : CWallet)
    (p q : SecureString) :
    ChangesPassphrase C T wallet p q ↔
      Reaches (Decrypts C p) (Opens C wallet.keyStore p) wallet.masterKeys ∨
        wallet.keyStore.IsLocked = true ∧
          ¬ Reaches Derives (Opens C wallet.keyStore p) wallet.masterKeys := by
  unfold ChangesPassphrase
  by_cases hreaches : Reaches (Decrypts C p) (Opens C wallet.keyStore p) wallet.masterKeys
  · obtain ⟨hok, hunlock⟩ := change_of_reaches T q hreaches
    rw [hok]
    exact ⟨fun _ => Or.inl hreaches, fun _ => ⟨fun _ => rfl, fun _ => hunlock, by simp⟩⟩
  · rw [change_of_not_reaches T q hreaches, Unlock_iff]
    constructor
    · rintro ⟨hunlock, -, hkept⟩
      exact Or.inr ⟨(hkept rfl).2.symm, fun h => absurd (hunlock h) (by simp)⟩
    · rintro (h | ⟨hlocked, hclosed⟩)
      · exact absurd h hreaches
      · exact ⟨fun h => absurd h hclosed, by simp, fun _ => ⟨rfl, hlocked.symm⟩⟩

end

/-! ## Two wallets -/

/-- A cipher that puts the passphrase before the text. -/
def prefixCipher : Cipher SecureString where
  EVP_BytesToKey strKeyData _ _ := strKeyData
  EVP_Encrypt key vchPlaintext := key ++ vchPlaintext
  EVP_Decrypt key vchCiphertext :=
    if key.isPrefixOf vchCiphertext then some (vchCiphertext.drop key.length) else none
  decrypt_encrypt key vchPlaintext := by simp

/-- A wallet whose master key is kept once for each of these passphrases. -/
def walletFor (vMasterKey : CKeyingMaterial) (passphrases : List SecureString) : CWallet where
  keyStore := ⟨vMasterKey, fun v => v = [7]⟩
  mapMasterKeys := passphrases.mapIdx fun i p =>
    (.ofNat (i + 1), ⟨p ++ [7], List.replicate 8 0, 0, 25000, []⟩)

/-- The passphrase of the second master key unlocks the wallet and cannot be changed; and a change
with a wrong passphrase locks a wallet that was unlocked. -/
theorem ChangeWalletPassphrase_fails :
    ¬ ChangesPassphrase prefixCipher ⟨id, id⟩ (walletFor [] [[1], [2]]) [2] [3] ∧
      ¬ ChangesPassphrase prefixCipher ⟨id, id⟩ (walletFor [7] [[1]]) [2] [3] := by
  constructor
  · rintro ⟨hunlock, -, -⟩
    exact absurd (hunlock (by decide)) (by decide)
  · rintro ⟨-, -, hkept⟩
    exact absurd (hkept (by decide)).2 (by decide)

end TriTip.Passphrase
