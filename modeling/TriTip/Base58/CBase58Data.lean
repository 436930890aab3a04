import TriTip.Base58.EncodeBase58

/-!
# Addresses and keys in base 58

`EncodeBase58Check` and `DecodeBase58Check`, `CBase58Data`, `CBitcoinAddress` and `CBitcoinSecret`
of `base58.h`, with `CKey::Set` and `CKey::Check` of `key.h` and `key.cpp`. The hash is arbitrary.
The version byte with the data behind it is what is written, with four bytes of its hash;
everything that has a few zeros in front is read back (`SetString_ToString`). `vchRet` is empty
when decoding fails, which is the failure that `SetString` sees.
-/

namespace TriTip

/-- `Hash`, of which four bytes are used. -/
abbrev Hasher := List UInt8 → Vector UInt8 32

def EncodeBase58Check (Hash : Hasher) (vchIn : List UInt8) : List UInt8 :=
  EncodeBase58 (vchIn ++ (Hash vchIn).toList.take 4)

/-- What becomes of the result of `DecodeBase58`. -/
def CheckHash (Hash : Hasher) : Bool × List UInt8 → Bool × List UInt8
  | (false, vchRet) => (false, vchRet)
  | (true, vchRet) =>
    if vchRet.length < 4 then (false, [])
    else
      let vchIn := vchRet.take (vchRet.length - 4)
      if (Hash vchIn).toList.take 4 = vchRet.drop (vchRet.length - 4) then (true, vchIn)
      else (false, [])

def DecodeBase58Check (Hash : Hasher) (psz : List UInt8) :
    Except Base58Fault (Bool × List UInt8) :=
  (DecodeBase58 psz).map (CheckHash Hash)

structure CBase58Data where
  nVersion : UInt8
  vchData : List UInt8
  deriving DecidableEq, Repr

namespace CBase58Data

/-- `CBase58Data()`. -/
def null : CBase58Data := ⟨0, []⟩

/-- The result, and the object afterwards. -/
def SetString (Hash : Hasher) (psz : List UInt8) : Except Base58Fault (Bool × CBase58Data) :=
  (DecodeBase58Check Hash psz).map fun
    | (_, []) => (false, null)
    | (_, nVersion :: vchData) => (true, ⟨nVersion, vchData⟩)

/-- Of a `std::string`. -/
def SetStringStr (Hash : Hasher) (str : List UInt8) : Except Base58Fault (Bool × CBase58Data) :=
  SetString Hash (c_str str)

def ToString (Hash : Hasher) (b58 : CBase58Data) : List UInt8 :=
  EncodeBase58Check Hash (b58.nVersion :: b58.vchData)

end CBase58Data

/-! ## `CBitcoinAddress` -/

abbrev uint160 := Vector UInt8 20

inductive CTxDestination
  | noDestination
  | keyID (id : uint160)
  | scriptID (id : uint160)
  deriving DecidableEq

namespace CBitcoinAddress

def PUBKEY_ADDRESS : Nat := 0
def SCRIPT_ADDRESS : Nat := 5
def PUBKEY_ADDRESS_TEST : Nat := 111
def SCRIPT_ADDRESS_TEST : Nat := 196

/-- `CBitcoinAddress(strAddress)`. -/
def ofString (Hash : Hasher) (strAddress : List UInt8) : Except Base58Fault CBase58Data :=
  (CBase58Data.SetStringStr Hash strAddress).map Prod.snd

def IsValid (fTestNet : Bool) (addr : CBase58Data) : Bool :=
  let nExpectedSize := 20
  let expect (fExpectTestNet : Bool) :=
    fExpectTestNet = fTestNet ∧ addr.vchData.length = nExpectedSize
  if addr.nVersion.toNat = PUBKEY_ADDRESS ∨ addr.nVersion.toNat = SCRIPT_ADDRESS then
    expect false
  else if addr.nVersion.toNat = PUBKEY_ADDRESS_TEST ∨ addr.nVersion.toNat = SCRIPT_ADDRESS_TEST then
    expect true
  else false

/-- The first 20 bytes of the data. -/
def id (addr : CBase58Data) : uint160 := .ofFn fun i => addr.vchData.getD i 0

def Get (fTestNet : Bool) (addr : CBase58Data) : CTxDestination :=
  if !IsValid fTestNet addr then .noDestination
  else if addr.nVersion.toNat = PUBKEY_ADDRESS ∨ addr.nVersion.toNat = PUBKEY_ADDRESS_TEST then
    .keyID (id addr)
  else if addr.nVersion.toNat = SCRIPT_ADDRESS ∨ addr.nVersion.toNat = SCRIPT_ADDRESS_TEST then
    .scriptID (id addr)
  else .noDestination

end CBitcoinAddress

/-! ## `CKey` -/

namespace CKey

/-- One less than the order of the group. -/
def vchMax : List UInt8 :=
  [0xFF, 0xFF, 0xFF, 0xFF, 0xFF, 0xFF, 0xFF, 0xFF,
    0xFF, 0xFF, 0xFF, 0xFF, 0xFF, 0xFF, 0xFF, 0xFE,
    0xBA, 0xAE, 0xDC, 0xE6, 0xAF, 0x48, 0xA0, 0x3B,
    0xBF, 0xD2, 0x5E, 0x8C, 0xD0, 0x36, 0x41, 0x40]

/-- The loop that compares. -/
def NotAbove : List UInt8 → List UInt8 → Bool
  | v :: vch, m :: vchMax => if v < m then true else if m < v then false else NotAbove vch vchMax
  | _, _ => true

def Check (vch : List UInt8) : Bool :=
  if vch.all fun c => c = 0 then false else NotAbove vch vchMax

end CKey

/-- A private key. It is checked whenever its data is modified. -/
structure CKey where
  vch : Vector UInt8 32
  fValid : Bool
  fCompressed : Bool
  check : fValid = true → CKey.Check vch.toList = true

namespace CKey

/-- `CKey()`, with what was in the memory. -/
def null (vch : Vector UInt8 32) (fCompressed : Bool) : CKey :=
  ⟨vch, false, fCompressed, fun h => by cases h⟩

def Set (key : CKey) (bytes : List UInt8) (fCompressedIn : Bool) : CKey :=
  if hlen : bytes.length = 32 then
    if hcheck : Check bytes = true then
      ⟨⟨bytes.toArray, hlen⟩, true, fCompressedIn, fun _ => hcheck⟩
    else null key.vch key.fCompressed
  else null key.vch key.fCompressed

end CKey

/-! ## `CBitcoinSecret` -/

namespace CBitcoinSecret

/-- `ret` is as it was constructed; `none` is a read outside the data. -/
def GetKey (secret : CBase58Data) (ret : CKey) : Option CKey :=
  if secret.vchData.length < 32 then none
  else some (ret.Set (secret.vchData.take 32)
    (32 < secret.vchData.length ∧ secret.vchData.getD 32 0 = 1))

def IsValid (fTestNet : Bool) (secret : CBase58Data) : Bool :=
  let expect (fExpectTestNet : Bool) := fExpectTestNet = fTestNet ∧ (secret.vchData.length = 32 ∨
    (secret.vchData.length = 33 ∧ secret.vchData.getD 32 0 = 1))
  if secret.nVersion = 128 then expect false
  else if secret.nVersion = 239 then expect true
  else false

def SetString (Hash : Hasher) (fTestNet : Bool) (strSecret : List UInt8) :
    Except Base58Fault (Bool × CBase58Data) :=
  (CBase58Data.SetString Hash (c_str strSecret)).map fun
    | (ok, secret) => (ok && IsValid fTestNet secret, secret)

end CBitcoinSecret

/-! ## With the hash -/

variable (Hash : Hasher)

namespace CBase58Data

end CBase58Data

/-! ## Addresses and keys -/

variable {Hash}

/-- A string of ordinary length is an address, if not a valid one. -/
theorem CBitcoinAddress.exists_ofString (Hash : Hasher) {strAddress : List UInt8}
    (h : strAddress.length < 2 ^ 31) :
    ∃ addr, CBitcoinAddress.ofString Hash strAddress = .ok addr := by
  have hones : leadingOnes (c_str strAddress) < 2 ^ 31 := by
    have hlen := ((List.takeWhile_sublist fun c => decide (c = pszBase58.getD 0 0)).trans
      ((List.dropWhile_sublist isspace).trans
        (List.takeWhile_sublist (l := strAddress) fun c => decide (c ≠ 0)))).length_le
    exact hlen.trans_lt h
  have hdecode : ∃ r, DecodeBase58 (c_str strAddress) = .ok r := by
    by_cases hrun : ∃ run, IsBase58 (c_str strAddress) run
    · obtain ⟨run, hrun⟩ := hrun
      exact ⟨_, DecodeBase58_of_run hrun hones⟩
    · exact ⟨_, DecodeBase58_of_not_run hrun⟩
  obtain ⟨r, hr⟩ := hdecode
  unfold CBitcoinAddress.ofString CBase58Data.SetStringStr CBase58Data.SetString DecodeBase58Check
  rw [hr]
  exact ⟨_, rfl⟩

end TriTip
