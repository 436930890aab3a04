import TriTip.Net.Address
import TriTip.Lib.OrdMap

/-!
# The address manager: its tables

`CAddrInfo` and `CAddrMan` of `addrman.h`. `mapInfo` is an ordered map, the new buckets are
ordered sets, the tried buckets are vectors; the two bucket vectors have fixed lengths and are
functions on their index ranges. `mapAddr` is a finite map of which only lookup, assignment and
erasure are used. Ids and the counters are integers, `time` fields have the widths of the source.

The two bucket functions hash the key, the address and the source. They are a parameter of the
model (`BucketHash`): arbitrary functions into the bucket ranges, of which the code's hashes are
an instance (`BucketHash.ofHash`).
-/

namespace TriTip

open Std

abbrev ADDRMAN_TRIED_BUCKET_COUNT : Nat := 64
abbrev ADDRMAN_TRIED_BUCKET_SIZE : Nat := 64
abbrev ADDRMAN_NEW_BUCKET_COUNT : Nat := 256
abbrev ADDRMAN_NEW_BUCKET_SIZE : Nat := 64
abbrev ADDRMAN_TRIED_BUCKETS_PER_GROUP : UInt64 := 4
abbrev ADDRMAN_NEW_BUCKETS_PER_SOURCE_GROUP : UInt64 := 32
abbrev ADDRMAN_NEW_BUCKETS_PER_ADDRESS : Nat := 4
abbrev ADDRMAN_TRIED_ENTRIES_INSPECT_ON_EVICT : Nat := 4
abbrev ADDRMAN_HORIZON_DAYS : Int64 := 30
abbrev ADDRMAN_RETRIES : Int32 := 3
abbrev ADDRMAN_MAX_FAILURES : Int32 := 10
abbrev ADDRMAN_MIN_FAIL_DAYS : Int64 := 7
abbrev ADDRMAN_GETADDR_MAX_PCT : Nat := 23
abbrev ADDRMAN_GETADDR_MAX : Nat := 2500

instance : NeZero ADDRMAN_TRIED_BUCKET_COUNT := ⟨by decide⟩
instance : NeZero ADDRMAN_NEW_BUCKET_COUNT := ⟨by decide⟩

/-- An unsigned 32-bit time as the `int64` it is promoted to. -/
def seconds (t : UInt32) : Int64 := t.toUInt64.toInt64

structure CAddrInfo extends CAddress where
  nLastTry : Int64
  source : CNetAddr
  nLastSuccess : Int64
  nAttempts : Int32
  nRefCount : Int
  fInTried : Bool
  nRandomPos : Int
  deriving DecidableEq

/-- `CAddrInfo(addr, source)`: the address with the statistics `Init` gives. -/
def CAddrInfo.ofAddress (addr : CAddress) (addrSource : CNetAddr) : CAddrInfo :=
  { toCAddress := addr, nLastTry := 0, source := addrSource, nLastSuccess := 0, nAttempts := 0,
    nRefCount := 0, fInTried := false, nRandomPos := -1 }

/-- `CAddress()`: services `NODE_NETWORK` and the time `CAddress::Init` sets. -/
def CAddress.default : CAddress :=
  { ip := .replicate 16 0, port := 0, nServices := 1, nTime := 100000000 }

/-- `CAddrInfo()`. -/
def CAddrInfo.default : CAddrInfo := .ofAddress .default ⟨.replicate 16 0⟩

/-- Statistics bad enough for the entry to be deleted. -/
def CAddrInfo.IsTerrible (info : CAddrInfo) (nNow : Int64) : Bool :=
  if info.nLastTry ≠ 0 ∧ nNow - 60 ≤ info.nLastTry then false
  else if nNow + 10 * 60 < seconds info.nTime then true
  else if info.nTime = 0 ∨ ADDRMAN_HORIZON_DAYS * 86400 < nNow - seconds info.nTime then true
  else if info.nLastSuccess = 0 ∧ ADDRMAN_RETRIES ≤ info.nAttempts then true
  else if ADDRMAN_MIN_FAIL_DAYS * 86400 < nNow - info.nLastSuccess ∧
      ADDRMAN_MAX_FAILURES ≤ info.nAttempts then true
  else false

/-- The two bucket functions: of the key and the address (with port), and of the key, the address
and the source it was heard from. -/
structure BucketHash where
  tried : List UInt8 → CService → Fin ADDRMAN_TRIED_BUCKET_COUNT
  new : List UInt8 → CNetAddr → CNetAddr → Fin ADDRMAN_NEW_BUCKET_COUNT

/-- One bucket for everything. -/
def BucketHash.oneBucket : BucketHash := ⟨fun _ _ => 0, fun _ _ _ => 0⟩

/-- What the code writes into a hash stream: byte vectors and one 64-bit number. -/
inductive HashItem
  | bytes (v : List UInt8)
  | uint64 (n : UInt64)

/-- The bucket functions of the code, over the low 64 bits of `Hash` and `GetGroup`. -/
def BucketHash.ofHash (hash64 : List HashItem → UInt64) (GetGroup : CNetAddr → List UInt8) :
    BucketHash where
  tried nKey addr :=
    let hash1 := hash64 [.bytes nKey, .bytes addr.GetKey]
    let hash2 := hash64 [.bytes nKey, .bytes (GetGroup addr.toCNetAddr),
      .uint64 (hash1 % ADDRMAN_TRIED_BUCKETS_PER_GROUP)]
    Fin.ofNat _ hash2.toNat
  new nKey addr src :=
    let hash1 := hash64 [.bytes nKey, .bytes (GetGroup addr), .bytes (GetGroup src)]
    let hash2 := hash64 [.bytes nKey, .bytes (GetGroup src),
      .uint64 (hash1 % ADDRMAN_NEW_BUCKETS_PER_SOURCE_GROUP)]
    Fin.ofNat _ hash2.toNat

def CAddrInfo.GetTriedBucket (H : BucketHash) (info : CAddrInfo) (nKey : List UInt8) :
    Fin ADDRMAN_TRIED_BUCKET_COUNT :=
  H.tried nKey info.toCService

def CAddrInfo.GetNewBucket (H : BucketHash) (info : CAddrInfo) (nKey : List UInt8)
    (src : CNetAddr) : Fin ADDRMAN_NEW_BUCKET_COUNT :=
  H.new nKey info.toCNetAddr src

structure CAddrMan where
  nKey : List UInt8
  nIdCount : Int
  mapInfo : ExtTreeMap Int CAddrInfo compare
  mapAddr : CNetAddr → Option Int
  vRandom : List Int
  nTried : Int
  vvTried : Fin ADDRMAN_TRIED_BUCKET_COUNT → List Int
  nNew : Int
  vvNew : Fin ADDRMAN_NEW_BUCKET_COUNT → ExtTreeSet Int compare

/-- `CAddrMan()`, with the key the constructor drew. -/
def CAddrMan.empty (nKey : List UInt8) : CAddrMan where
  nKey := nKey
  nIdCount := 0
  mapInfo := ∅
  mapAddr := fun _ => none
  vRandom := []
  nTried := 0
  vvTried := fun _ => []
  nNew := 0
  vvNew := fun _ => ∅

/-- The asserts of `addrman.cpp`, and an access outside a vector. -/
inductive AddrManFault
  | swapRandomRange
  | swapRandomId1
  | swapRandomId2
  | selectTriedId
  | shrinkNewId
  | shrinkNewInspected
  | shrinkNewOldest
  | makeTriedOrigin
  | makeTriedRefCount
  | makeTriedEvicted
  | getAddrId
  | selectId
  | outOfRange
  deriving DecidableEq, Repr

/-- `GetRandInt(nMax)` of the generator's raw draw `r`. -/
def GetRandInt (r nMax : Nat) : Nat := if nMax = 0 then 0 else r % nMax

theorem GetRandInt_lt (r : Nat) {nMax : Nat} (h : 0 < nMax) : GetRandInt r nMax < nMax := by
  unfold GetRandInt
  rw [if_neg (Nat.pos_iff_ne_zero.1 h)]
  exact Nat.mod_lt r h

/-- An `assert`. -/
def require (c : Prop) [Decidable c] (fault : AddrManFault) : Except AddrManFault Unit :=
  if c then .ok () else .error fault

/-- `v[pos]`, failing outside the vector. -/
def readAt (v : List Int) (pos : Int) (fault : AddrManFault) : Except AddrManFault Int :=
  if pos < 0 then .error fault
  else match v[pos.toNat]? with
    | some nId => .ok nId
    | none => .error fault

namespace CAddrMan

/-- `mapInfo[nId]` after the assert that the id is present. -/
def getInfo (am : CAddrMan) (nId : Int) (fault : AddrManFault) : Except AddrManFault CAddrInfo :=
  match am.mapInfo[nId]? with
  | some info => .ok info
  | none => .error fault

/-- A write through a reference into `mapInfo`. -/
def setInfo (am : CAddrMan) (nId : Int) (info : CAddrInfo) : CAddrMan :=
  { am with mapInfo := am.mapInfo.insert nId info }

def insertNew (am : CAddrMan) (b : Fin ADDRMAN_NEW_BUCKET_COUNT) (nId : Int) : CAddrMan :=
  { am with vvNew := Function.update am.vvNew b ((am.vvNew b).insert nId) }

def eraseNew (am : CAddrMan) (b : Fin ADDRMAN_NEW_BUCKET_COUNT) (nId : Int) : CAddrMan :=
  { am with vvNew := Function.update am.vvNew b ((am.vvNew b).erase nId) }

def setTried (am : CAddrMan) (b : Fin ADDRMAN_TRIED_BUCKET_COUNT) (v : List Int) : CAddrMan :=
  { am with vvTried := Function.update am.vvTried b v }

section Fields

variable (am : CAddrMan) (nId : Int) (info : CAddrInfo) (b : Fin ADDRMAN_NEW_BUCKET_COUNT)
  (t : Fin ADDRMAN_TRIED_BUCKET_COUNT) (v : List Int)

@[simp] theorem setInfo_nKey : (am.setInfo nId info).nKey = am.nKey := rfl
@[simp] theorem setInfo_nIdCount : (am.setInfo nId info).nIdCount = am.nIdCount := rfl
@[simp] theorem setInfo_mapAddr : (am.setInfo nId info).mapAddr = am.mapAddr := rfl
@[simp] theorem setInfo_vRandom : (am.setInfo nId info).vRandom = am.vRandom := rfl
@[simp] theorem setInfo_nTried : (am.setInfo nId info).nTried = am.nTried := rfl
@[simp] theorem setInfo_vvTried : (am.setInfo nId info).vvTried = am.vvTried := rfl
@[simp] theorem setInfo_nNew : (am.setInfo nId info).nNew = am.nNew := rfl
@[simp] theorem setInfo_vvNew : (am.setInfo nId info).vvNew = am.vvNew := rfl

theorem setInfo_mapInfo (k : Int) :
    (am.setInfo nId info).mapInfo[k]? = if nId = k then some info else am.mapInfo[k]? := by
  simp [setInfo, ExtTreeMap.getElem?_insert]

@[simp] theorem setInfo_mapInfo_self : (am.setInfo nId info).mapInfo[nId]? = some info := by
  simp [setInfo_mapInfo]

theorem setInfo_mapInfo_of_ne {k : Int} (h : nId ≠ k) :
    (am.setInfo nId info).mapInfo[k]? = am.mapInfo[k]? := by
  simp [setInfo_mapInfo, h]

/-- Two writes through the same reference: the last one counts. -/
@[simp] theorem setInfo_setInfo (info' : CAddrInfo) :
    (am.setInfo nId info).setInfo nId info' = am.setInfo nId info' := by
  have h := OrdMap.insert_insert_self am.mapInfo nId info info'
  unfold setInfo
  dsimp only
  rw [h]

@[simp] theorem insertNew_mapInfo : (am.insertNew b nId).mapInfo = am.mapInfo := rfl
@[simp] theorem insertNew_mapAddr : (am.insertNew b nId).mapAddr = am.mapAddr := rfl
@[simp] theorem insertNew_vRandom : (am.insertNew b nId).vRandom = am.vRandom := rfl
@[simp] theorem insertNew_nIdCount : (am.insertNew b nId).nIdCount = am.nIdCount := rfl
@[simp] theorem insertNew_nKey : (am.insertNew b nId).nKey = am.nKey := rfl
@[simp] theorem insertNew_vvTried : (am.insertNew b nId).vvTried = am.vvTried := rfl
@[simp] theorem insertNew_nNew : (am.insertNew b nId).nNew = am.nNew := rfl
@[simp] theorem insertNew_nTried : (am.insertNew b nId).nTried = am.nTried := rfl

@[simp] theorem eraseNew_mapInfo : (am.eraseNew b nId).mapInfo = am.mapInfo := rfl
@[simp] theorem eraseNew_mapAddr : (am.eraseNew b nId).mapAddr = am.mapAddr := rfl
@[simp] theorem eraseNew_vRandom : (am.eraseNew b nId).vRandom = am.vRandom := rfl
@[simp] theorem eraseNew_nIdCount : (am.eraseNew b nId).nIdCount = am.nIdCount := rfl
@[simp] theorem eraseNew_nKey : (am.eraseNew b nId).nKey = am.nKey := rfl
@[simp] theorem eraseNew_vvTried : (am.eraseNew b nId).vvTried = am.vvTried := rfl
@[simp] theorem eraseNew_nNew : (am.eraseNew b nId).nNew = am.nNew := rfl
@[simp] theorem eraseNew_nTried : (am.eraseNew b nId).nTried = am.nTried := rfl

theorem mem_insertNew {b' : Fin ADDRMAN_NEW_BUCKET_COUNT} {k : Int} :
    k ∈ (am.insertNew b nId).vvNew b' ↔ (b' = b ∧ k = nId) ∨ k ∈ am.vvNew b' := by
  by_cases h : b' = b
  · subst h
    simp [insertNew, ExtTreeSet.mem_insert, @eq_comm _ k nId]
  · simp [insertNew, h]

theorem mem_eraseNew {b' : Fin ADDRMAN_NEW_BUCKET_COUNT} {k : Int} :
    k ∈ (am.eraseNew b nId).vvNew b' ↔ ¬(b' = b ∧ k = nId) ∧ k ∈ am.vvNew b' := by
  by_cases h : b' = b
  · subst h
    simp [eraseNew, ExtTreeSet.mem_erase, @eq_comm _ k nId]
  · simp [eraseNew, h]

end Fields

end CAddrMan

end TriTip
