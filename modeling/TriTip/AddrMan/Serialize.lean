import TriTip.AddrMan.Operations
import TriTip.Lib.Codec

/-!
# The address manager: its file format

The two branches of `IMPLEMENT_SERIALIZE` in `addrman.h`. The encodings of the single values
(`serialize.h`, `protocol.h`) are the parameter `PeersCodec`. The write branch is a function to
bytes; the read branch decodes in place, so that a read which throws leaves the manager half
loaded.

`vvNew[b]` with `b` outside the vector is recorded in `outOfRange`: the code forms the reference
without using it.
-/

namespace TriTip

open Std

/-- How the values in the file are written and read. -/
structure PeersCodec where
  byte : Codec UInt8
  key : Codec (List UInt8)
  int : Codec Int32
  int64 : Codec Int64
  address : Codec CAddress
  netAddr : Codec CNetAddr

namespace PeersCodec

variable (c : PeersCodec)

def writeInt (n : Int) : List UInt8 := c.int.write (Int32.ofInt n)

def writeInfo (info : CAddrInfo) : List UInt8 :=
  c.address.write info.toCAddress ++ c.netAddr.write info.source ++
    c.int64.write info.nLastSuccess ++ c.int.write info.nAttempts

end PeersCodec

namespace CAddrMan

/-! ## The write branch -/

/-- The first loop: the new entries, and the index given to each id. -/
def WriteNewLoop (c : PeersCodec) (nNew : Int) :
    List (Int × CAddrInfo) → Int → ExtTreeMap Int Int compare →
      List UInt8 × ExtTreeMap Int Int compare
  | [], _, mapUnkIds => ([], mapUnkIds)
  | (nId, info) :: rest, nIds, mapUnkIds =>
    -- this means nNew was wrong, oh ow
    if nIds = nNew then ([], mapUnkIds)
    else
      let mapUnkIds := mapUnkIds.insert nId nIds
      if info.nRefCount ≠ 0 then
        let (bytes, mapUnkIds) := WriteNewLoop c nNew rest (nIds + 1) mapUnkIds
        (c.writeInfo info ++ bytes, mapUnkIds)
      else WriteNewLoop c nNew rest nIds mapUnkIds

/-- The second loop: the tried entries. -/
def WriteTriedLoop (c : PeersCodec) (nTried : Int) : List (Int × CAddrInfo) → Int → List UInt8
  | [], _ => []
  | (_, info) :: rest, nIds =>
    if nIds = nTried then []
    else if info.fInTried then c.writeInfo info ++ WriteTriedLoop c nTried rest (nIds + 1)
    else WriteTriedLoop c nTried rest nIds

/-- One new bucket: its size, and the indexes of its ids. -/
def WriteBucket (c : PeersCodec) (mapUnkIds : ExtTreeMap Int Int compare)
    (vNew : ExtTreeSet Int compare) : List UInt8 :=
  c.writeInt vNew.size ++ vNew.toList.flatMap fun nId => c.writeInt ((mapUnkIds[nId]?).getD 0)

def Serialize (c : PeersCodec) (am : CAddrMan) : List UInt8 :=
  let (news, mapUnkIds) := WriteNewLoop c am.nNew am.mapInfo.toList 0 ∅
  c.byte.write 0 ++ c.key.write am.nKey ++ c.writeInt am.nNew ++ c.writeInt am.nTried ++
    c.writeInt ADDRMAN_NEW_BUCKET_COUNT ++ news ++
    WriteTriedLoop c am.nTried am.mapInfo.toList 0 ++
    (List.finRange ADDRMAN_NEW_BUCKET_COUNT).flatMap fun b => WriteBucket c mapUnkIds (am.vvNew b)

/-! ## The read branch -/

/-- The manager while it is read, and the reader's `nLost`. -/
structure Loading where
  am : CAddrMan
  nLost : Int
  outOfRange : Bool

namespace Loading

def update (f : CAddrMan → CAddrMan) (s : Loading) : Loading := { s with am := f s.am }

/-- `mapInfo[nId]`, which makes a missing entry. -/
def info (s : Loading) (nId : Int) : CAddrInfo := (s.am.mapInfo[nId]?).getD .default

def setInfo (nId : Int) (info : CAddrInfo) : Loading → Loading :=
  update fun am => am.setInfo nId info

end Loading

/-- `READWRITE(info)` on the entry of `nId`, field by field. -/
def ReadInfo (c : PeersCodec) (nId : Int) : Decoder Loading Unit := do
  let _ ← Decoder.readInto c.address (fun s => (s.info nId).toCAddress)
    fun a s => s.setInfo nId { s.info nId with toCAddress := a }
  let _ ← Decoder.readInto c.netAddr (fun s => (s.info nId).source)
    fun a s => s.setInfo nId { s.info nId with source := a }
  let _ ← Decoder.readInto c.int64 (fun s => (s.info nId).nLastSuccess)
    fun a s => s.setInfo nId { s.info nId with nLastSuccess := a }
  let _ ← Decoder.readInto c.int (fun s => (s.info nId).nAttempts)
    fun a s => s.setInfo nId { s.info nId with nAttempts := a }
  pure ()

/-- `READWRITE(info)` on a local entry. -/
def ReadLocalInfo (c : PeersCodec) : Decoder Loading CAddrInfo := do
  let address ← Decoder.readLocal c.address
  let source ← Decoder.readLocal c.netAddr
  let nLastSuccess ← Decoder.readLocal c.int64
  let nAttempts ← Decoder.readLocal c.int
  pure { CAddrInfo.ofAddress address source with nLastSuccess, nAttempts }

/-- What is done with the new entry `n` once it is read. -/
def EnterNew (H : BucketHash) (nUBuckets : Int) (n : Int) (info : CAddrInfo) (am : CAddrMan) :
    CAddrMan :=
  let info := { info with nRandomPos := am.vRandom.length }
  let am := { am.setInfo n info with
    mapAddr := Function.update am.mapAddr info.toCNetAddr (some n)
    vRandom := am.vRandom ++ [n] }
  if nUBuckets ≠ ADDRMAN_NEW_BUCKET_COUNT then
    let am := am.insertNew (info.GetNewBucket H am.nKey info.source) n
    am.setInfo n { info with nRefCount := info.nRefCount + 1 }
  else am

/-- The loop over the new entries, from `n` on. -/
def ReadNewLoop (c : PeersCodec) (H : BucketHash) (nUBuckets : Int) :
    Nat → Nat → Decoder Loading Unit
  | 0, _ => pure ()
  | todo + 1, n => do
    Decoder.modify fun s => s.setInfo n (s.info n)
    ReadInfo c n
    Decoder.modify fun s => s.update (EnterNew H nUBuckets n (s.info n))
    ReadNewLoop c H nUBuckets todo (n + 1)

/-- What is done with a tried entry once it is read: it is kept while its bucket has room. -/
def EnterTried (H : BucketHash) (info : CAddrInfo) (s : Loading) : Loading :=
  let am := s.am
  let nKBucket := info.GetTriedBucket H am.nKey
  if (am.vvTried nKBucket).length < ADDRMAN_TRIED_BUCKET_SIZE then
    let info := { info with nRandomPos := am.vRandom.length, fInTried := true }
    let am := { am.setInfo am.nIdCount info with
      vRandom := am.vRandom ++ [am.nIdCount]
      mapAddr := Function.update am.mapAddr info.toCNetAddr (some am.nIdCount) }
    let am := am.setTried nKBucket (am.vvTried nKBucket ++ [am.nIdCount])
    { s with am := { am with nIdCount := am.nIdCount + 1 } }
  else { s with nLost := s.nLost + 1 }

/-- The loop over the tried entries. -/
def ReadTriedLoop (c : PeersCodec) (H : BucketHash) : Nat → Decoder Loading Unit
  | 0 => pure ()
  | todo + 1 => do
    let info ← ReadLocalInfo c
    Decoder.modify (EnterTried H info)
    ReadTriedLoop c H todo

/-- What is done with an index read for bucket `b`. -/
def EnterIndex (nUBuckets : Int) (b : Nat) (nIndex : Int) (s : Loading) : Loading :=
  let info := s.info nIndex
  let s := s.setInfo nIndex info
  if nUBuckets = ADDRMAN_NEW_BUCKET_COUNT ∧
      info.nRefCount < (ADDRMAN_NEW_BUCKETS_PER_ADDRESS : Int) then
    s.update fun am =>
      let am := am.setInfo nIndex { info with nRefCount := info.nRefCount + 1 }
      if h : b < ADDRMAN_NEW_BUCKET_COUNT then am.insertNew ⟨b, h⟩ nIndex else am
  else s

/-- The loop over the indexes of bucket `b`. -/
def ReadIndexLoop (c : PeersCodec) (nUBuckets : Int) (b : Nat) : Nat → Decoder Loading Unit
  | 0 => pure ()
  | todo + 1 => do
    let nIndex ← Decoder.readLocal c.int
    Decoder.modify (EnterIndex nUBuckets b nIndex.toInt)
    ReadIndexLoop c nUBuckets b todo

/-- The loop over the new buckets, from `b` on. -/
def ReadBucketLoop (c : PeersCodec) (nUBuckets : Int) : Nat → Nat → Decoder Loading Unit
  | 0, _ => pure ()
  | todo + 1, b => do
    Decoder.modify fun s => { s with
      outOfRange := s.outOfRange || !decide (b < ADDRMAN_NEW_BUCKET_COUNT) }
    let nSize ← Decoder.readLocal c.int
    ReadIndexLoop c nUBuckets b nSize.toInt.toNat
    ReadBucketLoop c nUBuckets todo (b + 1)

/-- The assignments between the header and the loops. -/
def clear (am : CAddrMan) : CAddrMan :=
  { am with
    nIdCount := 0
    mapInfo := ∅
    mapAddr := fun _ => none
    vRandom := []
    vvTried := fun _ => []
    vvNew := fun _ => ∅ }

/-- What the read branch does once `nNew` and `nTried` are read. -/
def ReadTables (c : PeersCodec) (H : BucketHash) (nNew nTried : Int) : Decoder Loading Unit := do
  let nUBuckets ← Decoder.readLocal c.int
  Decoder.modify fun s => s.update clear
  ReadNewLoop c H nUBuckets.toInt nNew.toNat 0
  Decoder.modify fun s => { s.update (fun am => { am with nIdCount := am.nNew }) with nLost := 0 }
  ReadTriedLoop c H nTried.toNat
  Decoder.modify fun s => s.update fun am => { am with nTried := am.nTried - s.nLost }
  ReadBucketLoop c nUBuckets.toInt nUBuckets.toInt.toNat 0

/-- The read branch after the version byte. -/
def ReadBody (c : PeersCodec) (H : BucketHash) : Decoder Loading Unit := do
  let _ ← Decoder.readInto c.key (fun s => s.am.nKey)
    fun nKey s => s.update fun am => { am with nKey }
  let nNew ← Decoder.readInto c.int (fun s => Int32.ofInt s.am.nNew)
    fun n s => s.update fun am => { am with nNew := n.toInt }
  let nTried ← Decoder.readInto c.int (fun s => Int32.ofInt s.am.nTried)
    fun n s => s.update fun am => { am with nTried := n.toInt }
  ReadTables c H nNew.toInt nTried.toInt

/-- The version byte is read and not looked at. -/
def Unserialize (c : PeersCodec) (H : BucketHash) : Decoder Loading Unit := do
  let _ ← Decoder.readLocal c.byte
  ReadBody c H

end CAddrMan

end TriTip
