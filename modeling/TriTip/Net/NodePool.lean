import TriTip.Lib.Run
import TriTip.Net.Address

/-!
# The nodes and the threads that use them

`net.cpp`: the socket handler accepts, services, disconnects and deletes nodes, the message handler
goes over a copy of `vNodes`, and threads that open connections find a node or make one. Whoever
goes over a copy of `vNodes` has added a reference to each node in it, and the socket handler
deletes a disconnected node that has no references. What is done under `cs_vNodes` is one step;
between the steps of a thread the others run in any order.

A use of a node that is deleted is an error of the model (`NodeError.freed`). In `net.h`, which is
not there, a new node has no references, `AddRef` adds one and `Release` takes one off.
-/

namespace TriTip

/-- What is read of a node here. -/
structure NodePool.CNode where
  addr : CService
  addrName : String
  fInbound : Bool
  nRefCount : Int
  fNetworkNode : Bool
  fOneShot : Bool
  fDisconnect : Bool
  /-- nothing received and nothing to send -/
  drained : Bool
  grantOutbound : Bool

/-- The arguments of `OpenNetworkConnection`, apart from the grant. -/
structure NodePool.Call where
  addrConnect : CService
  strDest : Option String
  fOneShot : Bool

/-- A loop over a copy of `vNodes`, with what is left of it, or none. -/
inductive NodePool.Pass where
  | outside
  | over (vNodesCopy todo : List Nat)

/-- Where a thread is that opens connections. -/
inductive NodePool.Opening where
  | outside
  /-- before one of the calls of `FindNode` of `OpenNetworkConnection` -/
  | findIp (call : NodePool.Call)
  | findName (call : NodePool.Call)
  | findDest (call : NodePool.Call)
  /-- in `ConnectNode`, before the call of `FindNode` -/
  | findService (call : NodePool.Call)
  /-- `FindNode` has found a connection, without a reference to it -/
  | found (call : NodePool.Call) (pnode : Nat)
  | connectSocket (call : NodePool.Call)
  /-- `ConnectNode` has returned a node, which it has made if `fNew` -/
  | connected (call : NodePool.Call) (pnode : Nat) (fNew : Bool)
  /-- the grant is moved -/
  | granted (call : NodePool.Call) (pnode : Nat) (fNew : Bool)
  /-- `fNetworkNode` is set -/
  | marked (call : NodePool.Call) (pnode : Nat) (fNew : Bool)

/-- The nodes, and where each thread is. -/
structure NodePool (ι : Type) where
  node : Nat → Option NodePool.CNode
  /-- no node was made at this address or one above it -/
  next : Nat
  vNodes : List Nat
  vNodesDisconnected : List Nat
  socketHandler : NodePool.Pass
  messageHandler : NodePool.Pass
  opening : ι → NodePool.Opening
  /-- the grant that a thread has acquired and not moved to a node -/
  grant : ι → Bool
  semOutbound : Nat

inductive NodeError where
  /-- the thread is elsewhere, or waits -/
  | blocked
  | freed (pnode : Nat)
  deriving DecidableEq

/-- What a thread that opens connections does next. -/
inductive OpenAct where
  /-- `CSemaphoreGrant grant(*semOutbound)` -/
  | acquire
  /-- the grant goes out of scope -/
  | release
  | OpenNetworkConnection (call : NodePool.Call)
  /-- goes on; `fRefused` is what `IsLocal` or `IsBanned` says where one of them is asked -/
  | goOn (fRefused : Bool)
  /-- `ConnectSocket` or `ConnectSocketByName` has connected, or failed -/
  | ConnectSocket (hSocket : Option (CService × Bool))

/-- What may happen next. -/
inductive NodeAct (ι : Type) where
  /-- the socket handler disconnects and deletes; the locks of some nodes are held by others -/
  | disconnect (locked : Nat → Bool)
  | accept (addr : CService) (fBanned drained : Bool)
  | socketCopy
  | service (fDisconnect drained : Bool)
  | socketRelease
  | messageCopy
  | StartSync
  | process (fDisconnect drained : Bool)
  | messageRelease
  /-- something is pushed to every node in `vNodes` -/
  | relay (drained : Nat → Bool)
  | opening (t : ι) (act : OpenAct)

/-- The number of connections, and what `CNode` and `CService` make of addresses. -/
structure NodeRules where
  nMaxConnections : Int
  /-- `addrName` of a node with this address and name -/
  addrName : CService → String → String
  ToStringIPPort : CService → String

def MAX_OUTBOUND_CONNECTIONS : Nat := 8

namespace NodePool

variable {ι : Type}

def new (semOutbound : Nat) : NodePool ι :=
  ⟨fun _ => none, 0, [], [], .outside, .outside, fun _ => .outside, fun _ => false, semOutbound⟩

/-! ## Using a node -/

def deref (s : NodePool ι) (pnode : Nat) : Except NodeError CNode :=
  match s.node pnode with
  | some n => .ok n
  | none => .error (.freed pnode)

def setNode (s : NodePool ι) (pnode : Nat) (n : Option CNode) : NodePool ι :=
  { s with node := Function.update s.node pnode n }

def modify (f : CNode → CNode) (s : NodePool ι) (pnode : Nat) : Except NodeError (NodePool ι) := do
  let n ← s.deref pnode
  .ok (s.setNode pnode (some (f n)))

def addRef (n : CNode) : CNode := { n with nRefCount := n.nRefCount + 1 }

def release (n : CNode) : CNode := { n with nRefCount := n.nRefCount - 1 }

/-- What is received, sent or decided about a node. -/
def visit (fDisconnect drained : Bool) (n : CNode) : CNode :=
  { n with fDisconnect := n.fDisconnect || fDisconnect, drained }

def FindNode (s : NodePool ι) (p : CNode → Bool) : List Nat → Except NodeError (Option Nat)
  | [] => .ok none
  | pnode :: rest => do
    let n ← s.deref pnode
    if p n then .ok (some pnode) else s.FindNode p rest

/-- A new node, with the reference that is added at once. -/
def push (s : NodePool ι) (addr : CService) (addrName : String) (fInbound drained : Bool) :
    NodePool ι :=
  { s with
    node := Function.update s.node s.next
      (some ⟨addr, addrName, fInbound, 1, false, false, false, drained, false⟩)
    next := s.next + 1
    vNodes := s.vNodes ++ [s.next] }

/-! ## The socket handler -/

/-- Out of `vNodes`, without its grant and without the reference of its creation; held in the
disconnected pool until all references are released. -/
def moveToPool (s : NodePool ι) (pnode : Nat) (n : CNode) : NodePool ι :=
  { s.setNode pnode (some { n with
      grantOutbound := false
      fDisconnect := true
      nRefCount := if n.fNetworkNode || n.fInbound then n.nRefCount - 1 else n.nRefCount }) with
    vNodes := s.vNodes.filter (· ≠ pnode)
    vNodesDisconnected := s.vNodesDisconnected ++ [pnode]
    semOutbound := s.semOutbound + n.grantOutbound.toNat }

def disconnectNode (s : NodePool ι) (pnode : Nat) : Except NodeError (NodePool ι) := do
  let n ← s.deref pnode
  if n.fDisconnect || (n.nRefCount ≤ 0 && n.drained) then .ok (s.moveToPool pnode n) else .ok s

def delete (s : NodePool ι) (pnode : Nat) (n : CNode) : NodePool ι :=
  { s.setNode pnode none with
    vNodesDisconnected := s.vNodesDisconnected.filter (· ≠ pnode)
    semOutbound := s.semOutbound + n.grantOutbound.toNat }

/-- Wait until threads are done using it. -/
def deleteNode (locked : Nat → Bool) (s : NodePool ι) (pnode : Nat) :
    Except NodeError (NodePool ι) := do
  let n ← s.deref pnode
  if n.nRefCount ≤ 0 && !locked pnode then .ok (s.delete pnode n) else .ok s

def disconnect (s : NodePool ι) (locked : Nat → Bool) : Except NodeError (NodePool ι) := do
  let s ← s.vNodes.foldlM disconnectNode s
  s.vNodesDisconnected.foldlM (deleteNode locked) s

def accept (R : NodeRules) (s : NodePool ι) (addr : CService) (fBanned drained : Bool) :
    Except NodeError (NodePool ι) := do
  let nodes ← s.vNodes.mapM s.deref
  if nodes.countP (·.fInbound) ≥ R.nMaxConnections - MAX_OUTBOUND_CONNECTIONS then .ok s
  else if fBanned then .ok s
  else .ok (s.push addr (R.addrName addr "") true drained)

/-! ## Opening a connection -/

variable [DecidableEq ι]

def setOpening (s : NodePool ι) (t : ι) (o : Opening) : NodePool ι :=
  { s with opening := Function.update s.opening t o }

/-- `MoveTo` gives back the grant that the node has already. -/
def moveGrant (s : NodePool ι) (t : ι) (pnode : Nat) : Except NodeError (NodePool ι) :=
  if s.grant t then do
    let n ← s.deref pnode
    .ok { s.setNode pnode (some { n with grantOutbound := true }) with
      grant := Function.update s.grant t false
      semOutbound := s.semOutbound + n.grantOutbound.toNat }
  else .ok s

def openStep (R : NodeRules) (s : NodePool ι) (t : ι) : Opening → OpenAct →
    Except NodeError (NodePool ι)
  | .outside, .acquire =>
    if s.grant t || s.semOutbound = 0 then .error .blocked
    else .ok { s with
      grant := Function.update s.grant t true
      semOutbound := s.semOutbound - 1 }
  | .outside, .release =>
    .ok { s with
      grant := Function.update s.grant t false
      semOutbound := s.semOutbound + (s.grant t).toNat }
  | .outside, .OpenNetworkConnection call =>
    .ok (s.setOpening t (if call.strDest.isNone then .findIp call else .findDest call))
  | .findIp call, .goOn fRefused =>
    if fRefused then .ok (s.setOpening t .outside)
    else do
      let pnode ← s.FindNode (·.addr.toCNetAddr = call.addrConnect.toCNetAddr) s.vNodes
      .ok (s.setOpening t (if pnode.isSome then .outside else .findName call))
  | .findName call, .goOn fRefused =>
    if fRefused then .ok (s.setOpening t .outside)
    else do
      let pnode ← s.FindNode (·.addrName = R.ToStringIPPort call.addrConnect) s.vNodes
      .ok (s.setOpening t (if pnode.isSome then .outside else .findService call))
  | .findDest call, .goOn _ => do
    let pnode ← s.FindNode (some ·.addrName = call.strDest) s.vNodes
    .ok (s.setOpening t (if pnode.isSome then .outside else .connectSocket call))
  | .findService call, .goOn fRefused =>
    if fRefused then .ok (s.setOpening t .outside)
    else do
      -- Look for an existing connection
      match ← s.FindNode (·.addr = call.addrConnect) s.vNodes with
      | some pnode => .ok (s.setOpening t (.found call pnode))
      | none => .ok (s.setOpening t (.connectSocket call))
  | .found call pnode, .goOn _ => do
    let s ← s.modify addRef pnode
    .ok (s.setOpening t (.connected call pnode false))
  | .connectSocket call, .ConnectSocket hSocket =>
    match hSocket with
    | some (addr, drained) =>
      .ok ((s.push addr (R.addrName addr (call.strDest.getD "")) false drained).setOpening t
        (.connected call s.next true))
    | none => .ok (s.setOpening t .outside)
  | .connected call pnode fNew, .goOn _ => do
    let s ← s.moveGrant t pnode
    .ok (s.setOpening t (.granted call pnode fNew))
  | .granted call pnode fNew, .goOn _ => do
    let s ← s.modify (fun n => { n with fNetworkNode := true }) pnode
    .ok (s.setOpening t (.marked call pnode fNew))
  | .marked call pnode _, .goOn _ => do
    let s ← if call.fOneShot then s.modify (fun n => { n with fOneShot := true }) pnode else .ok s
    .ok (s.setOpening t .outside)
  | _, _ => .error .blocked

/-! ## Steps -/

def step (R : NodeRules) (s : NodePool ι) : NodeAct ι → Except NodeError (NodePool ι)
  | .disconnect locked =>
    match s.socketHandler with
    | .outside => s.disconnect locked
    | .over _ _ => .error .blocked
  | .accept addr fBanned drained =>
    match s.socketHandler with
    | .outside => s.accept R addr fBanned drained
    | .over _ _ => .error .blocked
  | .socketCopy =>
    match s.socketHandler with
    | .outside => do
      let s' ← s.vNodes.foldlM (modify addRef) s
      .ok { s' with socketHandler := .over s.vNodes s.vNodes }
    | .over _ _ => .error .blocked
  | .service fDisconnect drained =>
    match s.socketHandler with
    | .over vNodesCopy (pnode :: todo) => do
      let s ← s.modify (visit fDisconnect drained) pnode
      .ok { s with socketHandler := .over vNodesCopy todo }
    | _ => .error .blocked
  | .socketRelease =>
    match s.socketHandler with
    | .over vNodesCopy [] => do
      let s ← vNodesCopy.foldlM (modify release) s
      .ok { s with socketHandler := .outside }
    | _ => .error .blocked
  | .messageCopy =>
    match s.messageHandler with
    | .outside => do
      let s' ← s.vNodes.foldlM (modify addRef) s
      .ok { s' with messageHandler := .over s.vNodes s.vNodes }
    | .over _ _ => .error .blocked
  | .StartSync =>
    match s.messageHandler with
    | .over vNodesCopy _ => vNodesCopy.foldlM (modify id) s
    | .outside => .error .blocked
  | .process fDisconnect drained =>
    match s.messageHandler with
    | .over vNodesCopy (pnode :: todo) => do
      let s ← s.modify (fun n => if n.fDisconnect then n else visit fDisconnect drained n) pnode
      .ok { s with messageHandler := .over vNodesCopy todo }
    | _ => .error .blocked
  | .messageRelease =>
    match s.messageHandler with
    | .over vNodesCopy [] => do
      let s ← vNodesCopy.foldlM (modify release) s
      .ok { s with messageHandler := .outside }
    | _ => .error .blocked
  | .relay drained =>
    s.vNodes.foldlM (fun s pnode => s.modify (visit false (drained pnode)) pnode) s
  | .opening t act => openStep R s t (s.opening t) act

end NodePool

end TriTip
