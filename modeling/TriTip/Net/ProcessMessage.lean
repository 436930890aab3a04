import TriTip.Net.Address
import TriTip.Net.ProcessMessages

/-!
# The message handler

`ProcessMessage` (`bitcoin_messages_handlers.cpp`) with the handlers of `version`, `verack` and
`getdata` and the order in which the commands are told apart; the handlers of the other commands
are a parameter that has no access to the fields of these. `NodeState.peer` is the peer that
`ProcessMessages` works with.
-/

namespace TriTip

structure CInv where
  type : Int32
  hash : Vector UInt8 32
  deriving DecidableEq

/-- `version.h` is not in the tree; the comment at its use has the number. -/
def MIN_PROTO_VERSION : Int32 := 209

inductive Pushed where
  | verack
  | getaddr
  | notfound (vNotFound : List CInv)
  deriving DecidableEq

/-- What the handlers do outside the fields of `NodeState`. -/
inductive Effect where
  | Misbehaving (howmuch : Int32)
  | PushVersion
  | PushMessage (msg : Pushed)
  | SetSendVersion (nVersion : Int32)
  | SeenLocal (addr : CAddress)
  | AddTimeData (nTime : Int64)
  | PushLocalAddress
  | addrmanGood
  | addrmanAddFrom (addr : CAddress)
  | RelayAlerts
  | cPeerBlockCounts (nStartingHeight : Int32)
  | AddressCurrentlyConnected
  deriving DecidableEq

/-- What became of a message. -/
inductive Fate where
  /-- by the test for dropped messages -/
  | dropped
  /-- out of turn -/
  | refused
  /-- an exception, which `ProcessMessages` catches -/
  | thrown
  /-- an early return -/
  | rejected
  | handled
  deriving DecidableEq

/-- The fields of `CNode` that the handlers here use, the rest of the program, and what they have
had it do. -/
structure NodeState (W : Type) where
  addr : CAddress
  fInbound : Bool
  fNetworkNode : Bool
  fOneShot : Bool
  nVersion : Int32
  nServices : UInt64
  strSubVer : List UInt8
  nStartingHeight : Int32
  fRelayTxes : Bool
  addrLocal : CAddress
  fClient : Bool
  fGetAddr : Bool
  fSuccessfullyConnected : Bool
  fDisconnect : Bool
  vRecvGetData : List CInv
  world : W
  effects : List Effect

/-- What the handler of another command leaves. -/
structure Other (W : Type) where
  fRelayTxes : Bool
  fGetAddr : Bool
  /-- by the handler or a ban -/
  fDisconnect : Bool
  world : W
  fate : Fate

/-- The rest of the program, and what `serialize.h`, `protocol.h` and `version.h` define. -/
structure Program (W : Type) where
  /-- An effect can end the connection: by a ban, or by a send that fails. -/
  perform : Effect → W → W × Bool
  /-- `-dropmessagestest` -/
  dropMessage : W → W × Bool
  nLocalHostNonce : W → UInt64
  addrmanSize : W → Int32
  sendBufferFull : W → Bool
  fNoListen : Bool
  address : Int32 → Codec CAddress
  string : Codec (List UInt8)
  vInv : Codec (List CInv)
  bool : Codec Bool
  NODE_NETWORK : UInt64
  PROTOCOL_VERSION : Int32
  CADDR_TIME_VERSION : Int32
  MAX_INV_SZ : Nat
  other : NodeState W → Call → (nVersion : Int32) → Other W

namespace NodeState

variable {W : Type}

/-- A new connection. -/
def new (addr : CAddress) (fInbound fNetworkNode fOneShot : Bool) (world : W) : NodeState W where
  addr := addr
  fInbound := fInbound
  fNetworkNode := fNetworkNode
  fOneShot := fOneShot
  nVersion := 0
  nServices := 0
  strSubVer := []
  nStartingHeight := -1
  fRelayTxes := false
  addrLocal := ⟨⟨⟨Vector.replicate 16 0⟩, 0⟩, 0, 0⟩
  fClient := false
  fGetAddr := false
  fSuccessfullyConnected := false
  fDisconnect := false
  vRecvGetData := []
  world := world
  effects := []

section

variable (E : Program W)

def perform (effect : Effect) (pfrom : NodeState W) : NodeState W :=
  let (world, closed) := E.perform effect pfrom.world
  { pfrom with
    world := world, fDisconnect := pfrom.fDisconnect || closed
    effects := pfrom.effects ++ [effect] }

/-- don't participate in transfering messages in bitcoin network for now -/
def ProcessGetData (pfrom : NodeState W) : NodeState W :=
  let vNotFound := []
  pfrom.perform E (.PushMessage (.notfound vNotFound))

def IsInitialBlockDownload : Bool := true

/-- Update the last seen time for this node's address. -/
def updateLastSeen (strCommand : List UInt8) (pfrom : NodeState W) : NodeState W :=
  if pfrom.fNetworkNode then
    if strCommand = chars "version" ∨ strCommand = chars "addr" ∨ strCommand = chars "inv" ∨
        strCommand = chars "getdata" ∨ strCommand = chars "ping" then
      pfrom.perform E .AddressCurrentlyConnected
    else pfrom
  else pfrom

/-! ## `version` -/

/-- The part that every `version` message has. -/
def readVersion (nStream : Int32) : Decoder (NodeState W) (Int64 × CAddress) := do
  let _ ← Decoder.readInto Codec.int32 NodeState.nVersion fun v s => { s with nVersion := v }
  let _ ← Decoder.readInto Codec.uint64 NodeState.nServices fun v s => { s with nServices := v }
  let nTime ← Decoder.readLocal Codec.int64
  let addrMe ← Decoder.readLocal (E.address nStream)
  pure (nTime, addrMe)

/-- The fields that may be missing at the end; `addrFrom` and `nNonce`. -/
def readVersionRest (nStream : Int32) : Decoder (NodeState W) (CAddress × UInt64) := do
  let fromMe ← Decoder.ifMore
    (do
      let addrFrom ← Decoder.readLocal (E.address nStream)
      let nNonce ← Decoder.readLocal Codec.uint64
      pure (addrFrom, nNonce))
    (pure (⟨⟨⟨Vector.replicate 16 0⟩, 0⟩, E.NODE_NETWORK, 100000000⟩, 1))
  let _ ← Decoder.ifMore
    (do
      let _ ← Decoder.readInto E.string NodeState.strSubVer fun v s => { s with strSubVer := v }
      pure ())
    (pure ())
  let _ ← Decoder.ifMore
    (do
      let _ ← Decoder.readInto Codec.int32 NodeState.nStartingHeight
        fun v s => { s with nStartingHeight := v }
      pure ())
    (pure ())
  -- set to true after we get the first filter* message
  let _ ← Decoder.ifMore
    (do
      let _ ← Decoder.readInto E.bool NodeState.fRelayTxes fun v s => { s with fRelayTxes := v }
      pure ())
    (Decoder.modify fun s => { s with fRelayTxes := true })
  pure fromMe

/-- Advertise our address. -/
def advertiseAddress (pfrom : NodeState W) : NodeState W :=
  if !E.fNoListen && !IsInitialBlockDownload then pfrom.perform E .PushLocalAddress else pfrom

/-- Get recent addresses. -/
def getRecentAddresses (pfrom : NodeState W) : NodeState W :=
  if pfrom.fOneShot ∨ E.CADDR_TIME_VERSION ≤ pfrom.nVersion ∨ E.addrmanSize pfrom.world < 1000 then
    { pfrom.perform E (.PushMessage .getaddr) with fGetAddr := true }
  else pfrom

/-- The addresses, for a peer that we have called and for one that has called us. -/
def exchangeAddresses (addrFrom : CAddress) (pfrom : NodeState W) : NodeState W :=
  if !pfrom.fInbound then
    ((pfrom.advertiseAddress E).getRecentAddresses E).perform E .addrmanGood
  else if pfrom.addr.toCNetAddr = addrFrom.toCNetAddr then
    pfrom.perform E (.addrmanAddFrom addrFrom)
  else pfrom

/-- What is done with a `version` message that has been read. -/
def acceptVersion (nTime : Int64) (addrMe addrFrom : CAddress) (nNonce : UInt64)
    (pfrom : NodeState W) : NodeState W × Fate :=
  let pfrom := if pfrom.fInbound && addrMe.IsRoutable
    then { pfrom with addrLocal := addrMe }.perform E (.SeenLocal addrMe) else pfrom
  -- Disconnect if we connected to ourself
  if nNonce = E.nLocalHostNonce pfrom.world ∧ 1 < nNonce then
    ({ pfrom with fDisconnect := true }, .rejected)
  else
    -- Be shy and don't send version until we hear
    let pfrom := if pfrom.fInbound then pfrom.perform E .PushVersion else pfrom
    let pfrom := { pfrom with fClient := pfrom.nServices &&& E.NODE_NETWORK == 0 }
    let pfrom := pfrom.perform E (.AddTimeData nTime)
    -- Change version
    let pfrom := pfrom.perform E (.PushMessage .verack)
    let pfrom := pfrom.perform E (.SetSendVersion (min pfrom.nVersion E.PROTOCOL_VERSION))
    let pfrom := pfrom.exchangeAddresses E addrFrom
    let pfrom := pfrom.perform E .RelayAlerts
    let pfrom := { pfrom with fSuccessfullyConnected := true }
    (pfrom.perform E (.cPeerBlockCounts pfrom.nStartingHeight), .handled)

def processVersion (vRecv : List UInt8) (nStream : Int32) (pfrom : NodeState W) :
    NodeState W × Fate :=
  -- Each connection can only send one version message
  if pfrom.nVersion ≠ 0 then (pfrom.perform E (.Misbehaving 1), .refused)
  else
    match readVersion E nStream pfrom vRecv with
    | (pfrom, none) => (pfrom, .thrown)
    | (pfrom, some ((nTime, addrMe), vRecv)) =>
      if pfrom.nVersion < MIN_PROTO_VERSION then
        -- earlier versions are no longer supported
        ({ pfrom with fDisconnect := true }, .rejected)
      else
        let pfrom := if pfrom.nVersion = 10300 then { pfrom with nVersion := 300 } else pfrom
        match readVersionRest E nStream pfrom vRecv with
        | (pfrom, none) => (pfrom, .thrown)
        | (pfrom, some ((addrFrom, nNonce), _)) =>
          pfrom.acceptVersion E nTime addrMe addrFrom nNonce

/-! ## `getdata` -/

def processGetDataMessage (vRecv : List UInt8) (pfrom : NodeState W) : NodeState W × Fate :=
  match E.vInv.read vRecv with
  | none => (pfrom, .thrown)
  | some (vInv, _) =>
    if E.MAX_INV_SZ < vInv.length then (pfrom.perform E (.Misbehaving 20), .rejected)
    else ({ pfrom with vRecvGetData := pfrom.vRecvGetData ++ vInv }.ProcessGetData E, .handled)

/-! ## The dispatch -/

/-- The handler of another command. -/
def processOther (call : Call) (nStream : Int32) (pfrom : NodeState W) : NodeState W × Fate :=
  let r := E.other pfrom call nStream
  ({ pfrom with
      fRelayTxes := r.fRelayTxes, fGetAddr := r.fGetAddr
      fDisconnect := pfrom.fDisconnect || r.fDisconnect, world := r.world }, r.fate)

/-- The handler of the command, and the version if it is set. -/
def dispatch (call : Call) (nStream : Int32) (pfrom : NodeState W) :
    (NodeState W × Fate) × Option Int32 :=
  if call.strCommand = chars "version" then (pfrom.processVersion E call.vRecv nStream, none)
  else if pfrom.nVersion = 0 then
    -- Must have a version message before anything else
    ((pfrom.perform E (.Misbehaving 1), .refused), none)
  else if call.strCommand = chars "verack" then
    ((pfrom, .handled), some (min pfrom.nVersion E.PROTOCOL_VERSION))
  else if call.strCommand = chars "getdata" then
    (pfrom.processGetDataMessage E call.vRecv, none)
  else (pfrom.processOther E call nStream, none)

def ProcessMessage (pfrom : NodeState W) (call : Call) (nStream : Int32) :
    (NodeState W × Fate) × Option Int32 :=
  let (world, drop) := E.dropMessage pfrom.world
  let pfrom := { pfrom with world := world }
  if drop then ((pfrom, .dropped), none)
  else
    let ((pfrom, fate), set) := pfrom.dispatch E call nStream
    if fate = .handled then ((pfrom.updateLastSeen E call.strCommand, fate), set)
    else ((pfrom, fate), set)

/-- The peer of `ProcessMessages`. -/
def peer : Peer (NodeState W) where
  fDisconnect := fDisconnect
  sendBufferFull := fun pfrom => E.sendBufferFull pfrom.world
  getDataWaiting := fun pfrom => !pfrom.vRecvGetData.isEmpty
  ProcessGetData := ProcessGetData E
  ProcessMessage := fun pfrom call nStream =>
    let ((pfrom, _), set) := ProcessMessage E pfrom call nStream
    (pfrom, set)

end

/-- The rest of the program at work: it may end the connection. -/
def outside (f : W → W × Bool) (pfrom : NodeState W) : NodeState W :=
  { pfrom with world := (f pfrom.world).1, fDisconnect := pfrom.fDisconnect || (f pfrom.world).2 }

end NodeState

end TriTip
