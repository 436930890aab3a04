import Mathlib

/-!
# Network addresses

`CNetAddr`, `CService` and `CAddress` as `netbase.cpp` and `protocol.cpp` have them: sixteen bytes
of address, a port, and the services and time a peer announces with it. `CAddress::nLastTry` is
kept with the only class that uses it, `CAddrInfo`. `IsRoutable` is the test an address has to
pass before the address manager takes it.
-/

namespace TriTip

structure CNetAddr where
  ip : Vector UInt8 16
  deriving DecidableEq

structure CService extends CNetAddr where
  port : UInt16
  deriving DecidableEq

structure CAddress extends CService where
  nServices : UInt64
  nTime : UInt32
  deriving DecidableEq

namespace CNetAddr

def GetByte (a : CNetAddr) (n : Fin 16) : UInt8 := a.ip[15 - n.val]

/-- `memcmp(ip, pch, sizeof(pch)) == 0`. -/
def startsWith (a : CNetAddr) (pch : List UInt8) : Bool := a.ip.toList.take pch.length == pch

def pchIPv4 : List UInt8 := [0, 0, 0, 0, 0, 0, 0, 0, 0, 0, 0xff, 0xff]

def pchOnionCat : List UInt8 := [0xFD, 0x87, 0xD8, 0x7E, 0xEB, 0x43]

def IsIPv4 (a : CNetAddr) : Bool := a.startsWith pchIPv4

def IsTor (a : CNetAddr) : Bool := a.startsWith pchOnionCat

def IsRFC1918 (a : CNetAddr) : Bool :=
  a.IsIPv4 && (a.GetByte 3 == 10 ||
    (a.GetByte 3 == 192 && a.GetByte 2 == 168) ||
    (a.GetByte 3 == 172 && (16 ≤ a.GetByte 2 && a.GetByte 2 ≤ 31)))

def IsRFC3927 (a : CNetAddr) : Bool := a.IsIPv4 && (a.GetByte 3 == 169 && a.GetByte 2 == 254)

def IsRFC3849 (a : CNetAddr) : Bool :=
  a.GetByte 15 == 0x20 && a.GetByte 14 == 0x01 && a.GetByte 13 == 0x0D && a.GetByte 12 == 0xB8

def IsRFC4862 (a : CNetAddr) : Bool := a.startsWith [0xFE, 0x80, 0, 0, 0, 0, 0, 0]

def IsRFC4193 (a : CNetAddr) : Bool := (a.GetByte 15 &&& 0xFE) == 0xFC

def IsRFC4843 (a : CNetAddr) : Bool :=
  a.GetByte 15 == 0x20 && a.GetByte 14 == 0x01 && a.GetByte 13 == 0x00 &&
    (a.GetByte 12 &&& 0xF0) == 0x10

def IsLocal (a : CNetAddr) : Bool :=
  (a.IsIPv4 && (a.GetByte 3 == 127 || a.GetByte 3 == 0)) ||
    a.startsWith [0, 0, 0, 0, 0, 0, 0, 0, 0, 0, 0, 0, 0, 0, 0, 1]

def IsValid (a : CNetAddr) : Bool :=
  -- addresses shifted by three bytes, from versions before 0.2.9
  if a.startsWith (pchIPv4.drop 3) then false
  else if a.startsWith (List.replicate 16 0) then false
  else if a.IsRFC3849 then false
  else if a.IsIPv4 && (a.ip.toList.drop 12 == [0xff, 0xff, 0xff, 0xff] ||
      a.ip.toList.drop 12 == [0, 0, 0, 0]) then false
  else true

def IsRoutable (a : CNetAddr) : Bool :=
  a.IsValid && !(a.IsRFC1918 || a.IsRFC3927 || a.IsRFC4862 || (a.IsRFC4193 && !a.IsTor) ||
    a.IsRFC4843 || a.IsLocal)

/-- The bytes as they are printed for IPv4. -/
def ipv4Bytes (a : CNetAddr) : List UInt8 := [a.GetByte 3, a.GetByte 2, a.GetByte 1, a.GetByte 0]

/-- The pairs of bytes as they are printed for IPv6. -/
def bytePairs (a : CNetAddr) : List (UInt8 × UInt8) :=
  [(a.GetByte 15, a.GetByte 14), (a.GetByte 13, a.GetByte 12), (a.GetByte 11, a.GetByte 10),
    (a.GetByte 9, a.GetByte 8), (a.GetByte 7, a.GetByte 6), (a.GetByte 5, a.GetByte 4),
    (a.GetByte 3, a.GetByte 2), (a.GetByte 1, a.GetByte 0)]

/-- The IPv4 address `b3.b2.b1.b0`, mapped into the sixteen bytes. -/
def ofIPv4 (b3 b2 b1 b0 : UInt8) : CNetAddr :=
  ⟨#v[0, 0, 0, 0, 0, 0, 0, 0, 0, 0, 0xff, 0xff, b3, b2, b1, b0]⟩

example : (ofIPv4 8 8 8 8).IsRoutable = true := by decide
example : (ofIPv4 192 168 0 1).IsRoutable = false := by decide

end CNetAddr

/-- `CService::GetKey`: the sixteen address bytes and the port, high byte first. -/
def CService.GetKey (s : CService) : List UInt8 :=
  s.ip.toList ++ [(s.port / 0x100).toUInt8, (s.port &&& 0x0FF).toUInt8]

end TriTip
