import Mathlib

/-!
# Negotiating with a SOCKS5 proxy

`Socks5` of `netbase.cpp`. Whoever calls it does not close the socket when it fails, so that every
way out has to. One does not: the length of a domain name that cannot be read. The length itself is
a `char`, and it is negative from 0x80 on (`Socks5_iff`).
-/

open Std.Do

set_option mvcgen.warning false

namespace TriTip

namespace Socks5

/-- What the proxy does at each `send` and each `recv`: what the call returns, and for `recv` what
is in the buffer then. -/
structure Proxy where
  send : Nat → Int
  recv : Nat → Int × (Nat → UInt8)

inductive Buffer where
  | pchRet1
  | pchRet2
  | pchRet3
  deriving DecidableEq

/-- The socket, with what was sent over it and how much each `recv` has asked for. -/
structure Socket where
  isOpen : Bool
  closes : Nat
  sent : List (List UInt8)
  asked : List (Buffer × UInt64)

/-- The socket of a proxy that we have just connected to. -/
def connected : Socket where
  isOpen := true
  closes := 0
  sent := []
  asked := []

/-- The text of an error is logged, and `false` returned. -/
abbrev Negotiation := EStateM String Socket

def Socket.close (s : Socket) : Socket :=
  if s.isOpen then { s with isOpen := false, closes := s.closes + 1 } else s

def Socket.send (s : Socket) (bytes : List UInt8) : Socket := { s with sent := s.sent ++ [bytes] }

def Socket.ask (s : Socket) (buf : Buffer) (len : UInt64) : Socket :=
  { s with asked := s.asked ++ [(buf, len)] }

def closesocket : Negotiation Unit := modify Socket.close

def error (text : String) : Negotiation Unit := throw text

def fail (text : String) : Negotiation Unit := do
  closesocket
  error text

/-- The text for the reply field of a request that was refused. -/
def refusal (reply : UInt8) : String :=
  match reply with
  | 0x01 => "Proxy error: general failure"
  | 0x02 => "Proxy error: connection not allowed"
  | 0x03 => "Proxy error: network unreachable"
  | 0x04 => "Proxy error: host unreachable"
  | 0x05 => "Proxy error: connection refused"
  | 0x06 => "Proxy error: TTL expired"
  | 0x07 => "Proxy error: protocol error"
  | 0x08 => "Proxy error: address type not supported"
  | _ => "Proxy error: unknown"

/-- The request to connect, with the destination by name. -/
def strSocks5 (strDest : List UInt8) (port : Int32) : List UInt8 :=
  [5, 1, 0, 3, UInt8.ofNat (min strDest.length 255)] ++ strDest ++
    [((port >>> 8) &&& 0xFF).toInt8.toUInt8, (port &&& 0xFF).toInt8.toUInt8]

variable (proxy : Proxy)

def send (bytes : List UInt8) : Negotiation Int := do
  let s ← get
  set (s.send bytes)
  return proxy.send s.sent.length

def recv (buf : Buffer) (len : UInt64) : Negotiation (Int × (Nat → UInt8)) := do
  let s ← get
  set (s.ask buf len)
  return proxy.recv s.asked.length

/-- `pszSocks5Init` and the answer to it. -/
def init : Negotiation Unit := do
  let ret ← send proxy [5, 1, 0]
  if ret ≠ 3 then fail "Error sending to proxy"
  let (ret, pchRet1) ← recv proxy .pchRet1 2
  if ret ≠ 2 then fail "Error reading proxy response"
  if pchRet1 0 ≠ 0x05 ∨ pchRet1 1 ≠ 0x00 then fail "Proxy failed to initialize"

/-- The request and the answer to it, up to the type of the address that follows. -/
def request (strDest : List UInt8) (port : Int32) : Negotiation UInt8 := do
  let ret ← send proxy (strSocks5 strDest port)
  if ret ≠ (strSocks5 strDest port).length then fail "Error sending to proxy"
  let (ret, pchRet2) ← recv proxy .pchRet2 4
  if ret ≠ 4 then fail "Error reading proxy response"
  if pchRet2 0 ≠ 0x05 then fail "Proxy failed to accept request"
  if pchRet2 1 ≠ 0x00 then fail (refusal (pchRet2 1))
  if pchRet2 2 ≠ 0x00 then fail "Error: malformed proxy response"
  return pchRet2 3

/-- The address that the proxy is bound to, which nothing is done with. -/
def readAddress (type : UInt8) : Negotiation Unit := do
  let mut ret := false
  match type with
  | 0x01 => ret := (← recv proxy .pchRet3 4).1 ≠ 4
  | 0x04 => ret := (← recv proxy .pchRet3 16).1 ≠ 16
  | 0x03 =>
    let (n, pchRet3) ← recv proxy .pchRet3 1
    -- the one error before which the socket is not closed
    if n ≠ 1 then error "Error reading from proxy"
    let nRecv := (pchRet3 0).toInt8
    ret := (← recv proxy .pchRet3 nRecv.toInt64.toUInt64).1 ≠ nRecv.toInt
  | _ => fail "Error: malformed proxy response"
  if ret then fail "Error reading from proxy"

def readPort : Negotiation Unit := do
  let (ret, _) ← recv proxy .pchRet3 2
  if ret ≠ 2 then fail "Error reading from proxy"

end Socks5

open Socks5 in
def Socks5 (proxy : Proxy) (strDest : List UInt8) (port : Int32) : Negotiation Unit := do
  if strDest.length > 255 then fail "Hostname too long"
  init proxy
  let type ← request proxy strDest port
  readAddress proxy type
  readPort proxy

namespace Socks5

/-- Every `recv` into `pchRet3` asks for what fits into it. -/
def InBounds (s : Socket) : Prop := ∀ n, (Buffer.pchRet3, n) ∈ s.asked → n.toNat ≤ 256

structure InUse (s : Socket) : Prop where
  isOpen : s.isOpen
  closes : s.closes = 0

/-- The socket is in use, after some calls of `send` and of `recv`. -/
structure Ready (sends recvs : Nat) (s : Socket) : Prop extends InUse s where
  sent : s.sent.length = sends
  asked : s.asked.length = recvs
  inBounds : InBounds s

/-- The socket was closed, once. -/
structure Closed (s : Socket) : Prop where
  isOpen : s.isOpen = false
  closes : s.closes = 1
  inBounds : InBounds s

/-- The proxy can be used without authentication. -/
structure Initialized (proxy : Proxy) : Prop where
  send : proxy.send 0 = 3
  recv : (proxy.recv 0).1 = 2
  version : (proxy.recv 0).2 0 = 0x05
  method : (proxy.recv 0).2 1 = 0x00

/-- The request is granted, and the address that follows is of the type. -/
structure Granted (proxy : Proxy) (strDest : List UInt8) (type : UInt8) : Prop where
  send : proxy.send 1 = strDest.length + 7
  recv : (proxy.recv 1).1 = 4
  version : (proxy.recv 1).2 0 = 0x05
  reply : (proxy.recv 1).2 1 = 0x00
  reserved : (proxy.recv 1).2 2 = 0x00
  type : (proxy.recv 1).2 3 = type

/-- The address that follows is a domain name. -/
def DomainReply (proxy : Proxy) (strDest : List UInt8) : Prop :=
  strDest.length ≤ 255 ∧ Initialized proxy ∧ Granted proxy strDest 0x03

/-- The length of the domain name is read, and it is not negative. -/
def LengthRead (proxy : Proxy) : Prop := (proxy.recv 2).1 = 1 ∧ (proxy.recv 2).2 0 < 0x80

variable {proxy : Proxy} {strDest : List UInt8} {port : Int32}

theorem length_strSocks5 : (strSocks5 strDest port).length = strDest.length + 7 := by
  simp [strSocks5]

theorem ready_connected : Ready 0 0 connected where
  isOpen := rfl
  closes := rfl
  sent := rfl
  asked := rfl
  inBounds := by simp [InBounds, connected]

section Socket

variable {s : Socket} {sends recvs : Nat} {buf : Buffer} {bytes : List UInt8} {n : UInt64}

@[grind =]
theorem inBounds_ask :
    InBounds (s.ask buf n) ↔ InBounds s ∧ (buf = .pchRet3 → n.toNat ≤ 256) := by
  simp only [InBounds, Socket.ask, List.mem_append, List.mem_singleton, Prod.mk.injEq]
  constructor
  · intro h
    exact ⟨fun m hm => h m (.inl hm), fun hbuf => h n (.inr ⟨hbuf.symm, rfl⟩)⟩
  · rintro ⟨hs, hn⟩ m (hm | ⟨hbuf, rfl⟩)
    · exact hs m hm
    · exact hn hbuf.symm

@[grind ←]
theorem InUse.ask (h : InUse s) : InUse (s.ask buf n) :=
  ⟨h.isOpen, h.closes⟩

@[grind →]
theorem InUse.not_closed (h : InUse s) : ¬Closed s := by
  intro hclosed
  exact absurd h.isOpen (Bool.eq_false_iff.mp hclosed.isOpen)

theorem InUse.close_iff (h : InUse s) : Closed s.close ↔ InBounds s := by
  have hclose : s.close = { s with isOpen := false, closes := 1 } := by
    simp [Socket.close, h.isOpen, h.closes]
  rw [hclose]
  exact ⟨Closed.inBounds, fun hs => ⟨rfl, rfl, hs⟩⟩

theorem Ready.send (h : Ready sends recvs s) : Ready (sends + 1) recvs (s.send bytes) where
  isOpen := h.isOpen
  closes := h.closes
  sent := by simp [Socket.send, h.sent]
  asked := h.asked
  inBounds := h.inBounds

theorem Ready.ask (h : Ready sends recvs s) (hn : buf = .pchRet3 → n.toNat ≤ 256) :
    Ready sends (recvs + 1) (s.ask buf n) where
  toInUse := h.toInUse.ask
  sent := h.sent
  asked := by simp [Socket.ask, h.asked]
  inBounds := inBounds_ask.mpr ⟨h.inBounds, hn⟩

grind_pattern InUse.close_iff => s.close
grind_pattern Ready.send => Ready sends recvs s, s.send bytes
grind_pattern Ready.ask => Ready sends recvs s, s.ask buf n

end Socket

/-- A negative length is more than the buffer holds. -/
theorem nRecv_le_iff (c : UInt8) : c.toInt8.toInt64.toUInt64.toNat ≤ 256 ↔ c < 0x80 := by
  have hbits : ∀ x : BitVec 8, (x.signExtend 64).toNat ≤ 256 ↔ x < 0x80#8 := by
    decide
  exact hbits c.toBitVec

theorem init_spec :
    ⦃fun s => ⌜Ready 0 0 s⌝⦄ init proxy
      ⦃post⟨fun _ s => ⌜Ready 1 1 s ∧ Initialized proxy⌝,
        fun _ s => ⌜Closed s ∧ ¬Initialized proxy⌝⟩⦄ := by
  mvcgen [init, send, recv, fail, closesocket, error]
  all_goals grind [Ready, Initialized]

theorem request_spec :
    ⦃fun s => ⌜Ready 1 1 s⌝⦄ request proxy strDest port
      ⦃post⟨fun type s => ⌜Ready 2 2 s ∧ Granted proxy strDest type⌝,
        fun _ s => ⌜Closed s ∧ ∀ type, ¬Granted proxy strDest type⌝⟩⦄ := by
  mvcgen [request, send, recv, fail, closesocket, error]
  all_goals grind [Ready, Granted, length_strSocks5]

/-- The second `recv` for a domain name asks for what the first one has read. -/
theorem inBounds_name {s : Socket} (hs : Ready 2 2 s) (hn : (proxy.recv s.asked.length).1 = 1) :
    InBounds ((s.ask .pchRet3 1).ask .pchRet3
      ((proxy.recv s.asked.length).2 0).toInt8.toInt64.toUInt64) ↔ LengthRead proxy := by
  have hask : InBounds (s.ask .pchRet3 1) := (hs.ask fun _ => by decide).inBounds
  rw [hs.asked] at hn ⊢
  rw [inBounds_ask, nRecv_le_iff]
  simp [LengthRead, hask, hn]

theorem readAddress_spec (type : UInt8) :
    ⦃fun s => ⌜Ready 2 2 s⌝⦄ readAddress proxy type
      ⦃post⟨fun _ s => ⌜InUse s ∧ (InBounds s ↔ (type = 0x03 → LengthRead proxy))⌝,
        fun _ s => ⌜Closed s ↔ (type = 0x03 → LengthRead proxy)⌝⟩⦄ := by
  mvcgen [readAddress, send, recv, fail, closesocket, error]
  case vc5.h_3.isTrue s hs _ hn =>
    -- the length is not read, and the socket stays open
    rw [hs.asked] at hn
    exact iff_of_false hs.toInUse.ask.not_closed fun h => hn h.1
  case vc6.h_3.isFalse.isTrue s hs _ hn _ _ _ _ =>
    have hname := inBounds_name hs (Classical.not_not.mp hn)
    exact (hs.toInUse.ask.ask.close_iff).trans hname
  case vc7.h_3.isFalse.isFalse s hs _ hn _ _ _ =>
    exact ⟨hs.toInUse.ask.ask, inBounds_name hs (Classical.not_not.mp hn)⟩
  -- the other types of addresses have a length that fits
  all_goals grind [Ready]

theorem readPort_spec (P : Prop) :
    ⦃fun s => ⌜InUse s ∧ (InBounds s ↔ P)⌝⦄ readPort proxy
      ⦃post⟨fun _ s => ⌜InUse s ∧ (InBounds s ↔ P)⌝, fun _ s => ⌜Closed s ↔ P⌝⟩⦄ := by
  mvcgen [readPort, recv, fail, closesocket, error]
  all_goals grind

/-- A success leaves the socket open, a failure closes it once. -/
def Settled : EStateM.Result String Socket Unit → Prop
  | .ok _ s => InUse s ∧ InBounds s
  | .error _ s => Closed s

theorem Socks5_spec (proxy : Proxy) (strDest : List UInt8) (port : Int32) :
    ⦃fun s => ⌜Ready 0 0 s⌝⦄ Socks5 proxy strDest port
      ⦃post⟨fun a s => ⌜Settled (.ok a s) ↔ (DomainReply proxy strDest → LengthRead proxy)⌝,
        fun e s => ⌜Settled (.error e s) ↔ (DomainReply proxy strDest → LengthRead proxy)⌝⟩⦄ := by
  mvcgen [Socks5, fail, closesocket, error, init_spec, request_spec, readAddress_spec,
    readPort_spec]
  all_goals grind [Ready, Settled, DomainReply, Granted]

theorem Socks5_iff (proxy : Proxy) (strDest : List UInt8) (port : Int32) :
    Settled ((Socks5 proxy strDest port).run connected) ↔
      (DomainReply proxy strDest → LengthRead proxy) := by
  apply EStateM.of_wp_run_eq rfl
    (fun result => Settled result ↔ (DomainReply proxy strDest → LengthRead proxy))
  intro _
  exact Socks5_spec proxy strDest port connected ready_connected

/-- A proxy that grants a request for a name of one byte, and answers with a name whose length is
read like this. -/
def named (length : Int × (Nat → UInt8)) : Proxy where
  send n := if n = 0 then 3 else 8
  recv
    | 0 => (2, fun i => [5, 0].getD i 0)
    | 1 => (4, fun i => [5, 0, 0, 3].getD i 0)
    | 2 => length
    | _ => (-1, fun _ => 0)

/-- A connection that ends before the length is left open, and a length of 0x80 is negative. -/
theorem Socks5_named :
    ¬Settled ((Socks5 (named (0, fun _ => 0)) [97] 80).run connected) ∧
      ¬Settled ((Socks5 (named (1, fun _ => 0x80)) [97] 80).run connected) := by
  constructor
  · intro h
    exact Bool.noConfusion (Closed.isOpen h)
  · intro h
    have hlength := Closed.inBounds h (0x80 : UInt8).toInt8.toInt64.toUInt64 (by decide)
    exact absurd hlength (by decide)

end Socks5

end TriTip
