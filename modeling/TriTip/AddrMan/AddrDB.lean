import TriTip.AddrMan.RoundTrip

/-!
# The address manager: `CAddrDB`

`CAddrDB::Read` of `db.cpp`. The checksum function is a parameter. A content that passes the
checksum and the magic number is decoded straight into the manager of the caller; `DecodesHalf`
are the contents on which that stops after it has begun.
-/

namespace TriTip

open Std

namespace CAddrDB

/-- What the file system gives for `peers.dat`. -/
structure File where
  opens : Bool
  content : List UInt8
  ioError : Bool

/-- `fileSize - sizeof(uint256)`, where `fileSize` is an `int`, and 0 if that is negative. -/
def File.dataSize (file : File) : Nat := ((Int32.ofNat file.content.length).toInt - 32).toNat

def File.vchData (file : File) : List UInt8 := file.content.take file.dataSize

def File.hashIn (file : File) : List UInt8 := (file.content.drop file.dataSize).take 32

def Read (c : PeersCodec) (H : BucketHash) (Hash : List UInt8 → List UInt8)
    (pchMessageStart : Vector UInt8 4) (file : File) (addr : CAddrMan) : Bool × CAddrMan :=
  if !file.opens then (false, addr)
  else if file.ioError || file.content.length < file.dataSize + 32 then (false, addr)
  else if file.hashIn ≠ Hash file.vchData then (false, addr)
  else if file.vchData.length < 4 then (false, addr)
  -- verify the network matches ours
  else if file.vchData.take 4 ≠ pchMessageStart.toList then (false, addr)
  else
    match CAddrMan.Unserialize c H ⟨addr, 0, false⟩ (file.vchData.drop 4) with
    | (s, some _) => (true, s.am)
    | (s, none) => (false, s.am)

variable {c : PeersCodec} {H : BucketHash} {Hash : List UInt8 → List UInt8}
  {pchMessageStart : Vector UInt8 4} {file : File}

section Keeps

open CAddrMan Decoder

end Keeps

section Files

end Files

end CAddrDB

end TriTip
