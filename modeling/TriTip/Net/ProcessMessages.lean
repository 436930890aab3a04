import TriTip.Net.Receive

/-!
# Processing messages

`ProcessMessages` (`bitcoin_messages_handlers.cpp`), the loop over the receive queue that hands
each complete message to `ProcessMessage`. A stream of messages, received in any pieces between
any polls, is handed on message by message (`run_messages`).
-/

namespace TriTip

/-- The arguments of a call of `ProcessMessage`. -/
structure Call where
  strCommand : List UInt8
  vRecv : List UInt8
  deriving DecidableEq

/-- What `ProcessMessages` uses of a peer besides its receive queue. `ProcessMessage` gives the
peer as it is left, also by an exception (they are all caught), and the version if
`SetRecvVersion` was called; `nVersion` is that of the stream. -/
structure Peer (σ : Type) where
  fDisconnect : σ → Bool
  /-- `nSendSize >= SendBufferSize()` -/
  sendBufferFull : σ → Bool
  /-- `!vRecvGetData.empty()` -/
  getDataWaiting : σ → Bool
  ProcessGetData : σ → σ
  ProcessMessage : σ → Call → (nVersion : Int32) → σ × Option Int32

/-- The first four bytes of the hash. -/
def checksum (Hash : List UInt8 → Vector UInt8 32) (payload : List UInt8) : UInt32 :=
  UInt32.ofNat (LittleEndian.decode ((Hash payload).toList.take 4))

/-- `SetRecvVersion` also sets the version of the messages in the queue. -/
def CNetMessage.setVersion (set : Option Int32) (msg : CNetMessage) : CNetMessage :=
  { msg with nVersion := set.getD msg.nVersion }

/-- A call of `ProcessMessage` with the peer and the version of the stream that it finds. -/
structure Step (σ : Type) where
  before : σ
  call : Call
  nVersion : Int32

/-- Where the loop of `ProcessMessages` stops, with the calls it has made and the peer at every
test of its condition. -/
structure Polled (σ : Type) where
  fOk : Bool
  peer : σ
  /-- the version set last, which the messages still in the queue have got -/
  set : Option Int32
  left : List CNetMessage
  steps : List (Step σ)
  tests : List σ

/-- A call, and what came after it. -/
def Polled.after {σ : Type} (step : Step σ) (r : Polled σ) : Polled σ :=
  { r with steps := step :: r.steps, tests := step.before :: r.tests }

section Poll

variable {σ : Type} (P : Peer σ) (Hash : List UInt8 → Vector UInt8 32)
  (netMessageStart : Vector UInt8 4)

def ProcessMessages.loop : σ → Option Int32 → List CNetMessage → Polled σ
  | s, set, [] => ⟨true, s, set, [], [], [s]⟩
  | s, set, msg :: rest =>
    if P.fDisconnect s then ⟨true, s, set, msg :: rest, [], [s]⟩
    -- Don't bother if send buffer is too full to respond anyway
    else if P.sendBufferFull s then ⟨true, s, set, msg :: rest, [], [s]⟩
    -- end, if an incomplete message is found
    else if !msg.complete then ⟨true, s, set, msg :: rest, [], [s]⟩
    -- at this point, any failure means we can delete the current message
    else if msg.hdr.pchMessageStart ≠ netMessageStart then ⟨false, s, set, rest, [], [s]⟩
    else if !msg.hdr.IsValid netMessageStart then loop s set rest
    else if checksum Hash (msg.vRecv.take msg.hdr.nMessageSize.toNat) ≠ msg.hdr.nChecksum then
      loop s set rest
    else
      let step : Step σ :=
        { before := s, call := { strCommand := msg.hdr.GetCommand, vRecv := msg.vRecv }
          nVersion := set.getD msg.nVersion }
      let (s', set') := P.ProcessMessage s step.call step.nVersion
      (loop s' (set'.or set) rest).after step

/-- A node, as far as its receive queue goes. -/
structure CNode (σ : Type) where
  vRecvMsg : List CNetMessage
  nRecvVersion : Int32
  peer : σ

def ProcessMessages (node : CNode σ) : Polled σ × CNode σ :=
  let s := if P.getDataWaiting node.peer then P.ProcessGetData node.peer else node.peer
  let r := ProcessMessages.loop P Hash netMessageStart s none node.vRecvMsg
  -- In case the connection got shut down, its receive buffer was wiped
  let vRecvMsg := if P.fDisconnect r.peer then node.vRecvMsg else r.left
  (r, { vRecvMsg := vRecvMsg.map (CNetMessage.setVersion r.set)
        nRecvVersion := r.set.getD node.nRecvVersion
        peer := r.peer })

/-! ## Runs -/

/-- What happens to a node: bytes arrive, its messages are processed, or something else. -/
inductive Event (σ : Type) where
  | receive (pch : List UInt8)
  | poll
  | other (step : σ → σ)

/-- A run up to its first failing receive. -/
structure Ran (σ : Type) where
  ok : Bool
  node : CNode σ
  steps : List (Step σ)
  tests : List σ

/-- The calls of `ProcessMessage` in a run, in order. -/
def Ran.calls {σ : Type} (r : Ran σ) : List Call := r.steps.map Step.call

def run (node : CNode σ) : List (Event σ) → Ran σ
  | [] => ⟨true, node, [], []⟩
  | .receive pch :: events =>
    match ReceiveMsgBytes netMessageStart node.nRecvVersion node.vRecvMsg pch with
    | (false, vRecvMsg) => ⟨false, { node with vRecvMsg := vRecvMsg }, [], []⟩
    | (true, vRecvMsg) => run { node with vRecvMsg := vRecvMsg } events
  | .poll :: events =>
    let (polled, node) := ProcessMessages P Hash netMessageStart node
    let rest := run node events
    { rest with steps := polled.steps ++ rest.steps, tests := polled.tests ++ rest.tests }
  | .other step :: events => run { node with peer := step node.peer } events

/-- The bytes that arrive in a run. -/
def Event.bytes : Event σ → List UInt8
  | .receive pch => pch
  | .poll => []
  | .other _ => []

end Poll

/-! ## Invariants of runs -/

section Invariant

variable {σ : Type} {P : Peer σ} {Hash : List UInt8 → Vector UInt8 32}
  {netMessageStart : Vector UInt8 4}

variable (P Hash netMessageStart) in
/-- What the loop does with the messages of its queue: it skips one, hands one on or stops. -/
theorem ProcessMessages.loop_cases (s : σ) (set : Option Int32) (msg : CNetMessage)
    (rest : List CNetMessage) :
    (∃ fOk left, loop P Hash netMessageStart s set (msg :: rest) = ⟨fOk, s, set, left, [], [s]⟩) ∨
    loop P Hash netMessageStart s set (msg :: rest) = loop P Hash netMessageStart s set rest ∨
    ∃ step : Step σ, step.before = s ∧ P.fDisconnect s = false ∧
      loop P Hash netMessageStart s set (msg :: rest) =
        (loop P Hash netMessageStart (P.ProcessMessage s step.call step.nVersion).1
          ((P.ProcessMessage s step.call step.nVersion).2.or set) rest).after step := by
  generalize hloop : loop P Hash netMessageStart s set (msg :: rest) = r
  rw [loop] at hloop
  split at hloop
  next => exact .inl ⟨_, _, hloop.symm⟩
  next hconn =>
    split at hloop
    next => exact .inl ⟨_, _, hloop.symm⟩
    next =>
      split at hloop
      next => exact .inl ⟨_, _, hloop.symm⟩
      next =>
        split at hloop
        next => exact .inl ⟨_, _, hloop.symm⟩
        next =>
          split at hloop
          next => exact .inr (.inl hloop.symm)
          next =>
            split at hloop
            next => exact .inr (.inl hloop.symm)
            next => exact .inr (.inr ⟨_, rfl, by simpa using hconn, hloop.symm⟩)

/-- The loop tests the peer it starts with. -/
theorem ProcessMessages.mem_tests (s : σ) (set : Option Int32) (vRecvMsg : List CNetMessage) :
    s ∈ (loop P Hash netMessageStart s set vRecvMsg).tests := by
  induction vRecvMsg generalizing set with
  | nil => exact List.mem_cons_self
  | cons msg rest ih =>
    rcases loop_cases P Hash netMessageStart s set msg rest with
      ⟨_, _, h⟩ | h | ⟨step, hbefore, _, h⟩
    · rw [h]
      exact List.mem_cons_self
    · rw [h]
      exact ih set
    · rw [h, ← hbefore]
      exact List.mem_cons_self

/-- The peer that the loop leaves is the last it has tested. -/
theorem ProcessMessages.peer_mem_tests (s : σ) (set : Option Int32) (vRecvMsg : List CNetMessage) :
    (loop P Hash netMessageStart s set vRecvMsg).peer ∈
      (loop P Hash netMessageStart s set vRecvMsg).tests := by
  induction vRecvMsg generalizing s set with
  | nil => exact List.mem_cons_self
  | cons msg rest ih =>
    rcases loop_cases P Hash netMessageStart s set msg rest with
      ⟨_, _, h⟩ | h | ⟨step, _, _, h⟩
    · rw [h]
      exact List.mem_cons_self
    · rw [h]
      exact ih s set
    · rw [h]
      exact List.mem_cons_of_mem _ (ih _ _)

/-- What a step finds and what it leaves are tested. -/
def Step.Tested (P : Peer σ) (tests : List σ) (step : Step σ) : Prop :=
  step.before ∈ tests ∧ P.fDisconnect step.before = false ∧
    (P.ProcessMessage step.before step.call step.nVersion).1 ∈ tests

theorem Step.Tested.mono {step : Step σ} {tests tests' : List σ} (h : step.Tested P tests)
    (hsub : tests ⊆ tests') : step.Tested P tests' :=
  ⟨hsub h.1, h.2.1, hsub h.2.2⟩

theorem ProcessMessages.steps_tested (s : σ) (set : Option Int32) (vRecvMsg : List CNetMessage) :
    ∀ step ∈ (loop P Hash netMessageStart s set vRecvMsg).steps,
      step.Tested P (loop P Hash netMessageStart s set vRecvMsg).tests := by
  induction vRecvMsg generalizing s set with
  | nil =>
    intro step h
    cases h
  | cons msg rest ih =>
    rcases loop_cases P Hash netMessageStart s set msg rest with
      ⟨_, _, h⟩ | h | ⟨first, hbefore, hconn, h⟩
    · rw [h]
      intro step hstep
      cases hstep
    · rw [h]
      exact ih s set
    · rw [h]
      intro step hstep
      rcases List.mem_cons.1 hstep with rfl | hrest
      · refine ⟨List.mem_cons_self, hbefore ▸ hconn, List.mem_cons_of_mem _ ?_⟩
        rw [hbefore]
        exact mem_tests _ _ _
      · exact (ih _ _ step hrest).mono (List.subset_cons_self _ _)

/-- A step of the handlers keeps `I`, if it is one of those that `Adm` admits. -/
def KeepsOnMessage (P : Peer σ) (I : σ → Prop) (Adm : Step σ → Prop) : Prop :=
  ∀ step : Step σ, I step.before → P.fDisconnect step.before = false → Adm step →
    I (P.ProcessMessage step.before step.call step.nVersion).1

theorem ProcessMessages.loop_invariant {I : σ → Prop} {Adm : Step σ → Prop}
    (hmsg : KeepsOnMessage P I Adm) {s : σ} {set : Option Int32} {vRecvMsg : List CNetMessage}
    (hs : I s) (hadm : ∀ step ∈ (loop P Hash netMessageStart s set vRecvMsg).steps, Adm step) :
    ∀ t ∈ (loop P Hash netMessageStart s set vRecvMsg).tests, I t := by
  induction vRecvMsg generalizing s set with
  | nil =>
    intro t ht
    rw [List.mem_singleton.1 ht]
    exact hs
  | cons msg rest ih =>
    rcases loop_cases P Hash netMessageStart s set msg rest with
      ⟨_, _, h⟩ | h | ⟨step, rfl, hconn, h⟩
    · rw [h]
      intro t ht
      rw [List.mem_singleton.1 ht]
      exact hs
    · rw [h] at hadm ⊢
      exact ih hs hadm
    · rw [h] at hadm ⊢
      intro t ht
      rcases List.mem_cons.1 ht with rfl | hrest
      · exact hs
      · exact ih (hmsg step hs hconn (hadm step List.mem_cons_self))
          (fun step' hstep' => hadm step' (List.mem_cons_of_mem _ hstep')) t hrest

/-- **The invariant rule for runs.** What the handlers keep, and everything else that happens, holds
of the peer at every test and at the end. -/
theorem run_invariant {I : σ → Prop} {Adm : Step σ → Prop} (hmsg : KeepsOnMessage P I Adm)
    (hget : ∀ s, P.getDataWaiting s = true → I s → I (P.ProcessGetData s))
    (events : List (Event σ)) (node : CNode σ)
    (hother : ∀ step, Event.other step ∈ events → ∀ s, I s → I (step s)) (hnode : I node.peer)
    (hadm : ∀ step ∈ (run P Hash netMessageStart node events).steps, Adm step) :
    (∀ t ∈ (run P Hash netMessageStart node events).tests, I t) ∧
      I (run P Hash netMessageStart node events).node.peer := by
  induction events generalizing node with
  | nil =>
    refine ⟨fun t ht => ?_, hnode⟩
    cases ht
  | cons event events ih =>
    have hother' := fun step hstep => hother step (List.mem_cons_of_mem _ hstep)
    cases event with
    | receive pch =>
      rw [run] at hadm ⊢
      rcases hr : ReceiveMsgBytes netMessageStart node.nRecvVersion node.vRecvMsg pch with
        ⟨_ | _, vRecvMsg⟩
      · refine ⟨fun t ht => ?_, hnode⟩
        cases ht
      · rw [hr] at hadm
        exact ih _ hother' hnode hadm
    | poll =>
      rw [run] at hadm ⊢
      have hstart : I (if P.getDataWaiting node.peer then P.ProcessGetData node.peer
          else node.peer) := by
        split
        next hwaiting => exact hget _ hwaiting hnode
        next => exact hnode
      have htests := ProcessMessages.loop_invariant hmsg hstart
        (fun step hstep => hadm step (List.mem_append_left _ hstep))
      obtain ⟨hrest, hlast⟩ := ih _ hother' (htests _ (ProcessMessages.peer_mem_tests _ _ _))
        fun step hstep => hadm step (List.mem_append_right _ hstep)
      refine ⟨fun t ht => ?_, hlast⟩
      rcases List.mem_append.1 ht with hpoll | hlater
      · exact htests t hpoll
      · exact hrest t hlater
    | other step =>
      rw [run] at hadm ⊢
      exact ih _ hother' (hother step List.mem_cons_self _ hnode) hadm

theorem run_steps_tested (events : List (Event σ)) {node : CNode σ} :
    ∀ step ∈ (run P Hash netMessageStart node events).steps,
      step.Tested P (run P Hash netMessageStart node events).tests := by
  induction events generalizing node with
  | nil =>
    intro step h
    cases h
  | cons event events ih =>
    cases event with
    | receive pch =>
      rw [run]
      rcases ReceiveMsgBytes netMessageStart node.nRecvVersion node.vRecvMsg pch with ⟨_ | _, _⟩
      · intro step h
        cases h
      · exact ih
    | poll =>
      rw [run]
      intro step hstep
      rcases List.mem_append.1 hstep with hpoll | hlater
      · exact (ProcessMessages.steps_tested _ _ _ step hpoll).mono (List.subset_append_left _ _)
      · exact (ih step hlater).mono (List.subset_append_right _ _)
    | other _ =>
      rw [run]
      exact ih

end Invariant

/-! ## Messages -/

/-- A message that can be sent. -/
structure Message where
  command : List UInt8
  payload : List UInt8
  sendable : CMessageHeader.Sendable command
  payload_le : payload.length ≤ MAX_SIZE.toNat

namespace Message

variable (Hash : List UInt8 → Vector UInt8 32) (netMessageStart : Vector UInt8 4)

def hdr (m : Message) : CMessageHeader :=
  { CMessageHeader.ofCommand netMessageStart m.command (UInt32.ofNat m.payload.length) with
    nChecksum := checksum Hash m.payload }

def encode (m : Message) : List UInt8 := (m.hdr Hash netMessageStart).encode ++ m.payload

def call (m : Message) : Call := { strCommand := m.command, vRecv := m.payload }

/-- The message as it is in the receive queue when the payload has come up to `a`. -/
def received (m : Message) (nVersion : Int32) (a : List UInt8) : CNetMessage where
  in_data := true
  hdrbuf := []
  hdr := m.hdr Hash netMessageStart
  nHdrPos := 24
  vRecv := a ++ List.replicate (m.payload.length - a.length) 0
  nDataPos := a.length
  nVersion := nVersion

/-- A message in the receive queue when its header has come up to `p`. -/
def begun (nVersion : Int32) (p : List UInt8) : CNetMessage :=
  { CNetMessage.new netMessageStart nVersion with
    hdrbuf := writeAt (List.replicate 24 0) 0 p, nHdrPos := p.length }

variable {Hash netMessageStart}

variable (Hash netMessageStart) in
theorem nMessageSize_hdr (m : Message) :
    (m.hdr Hash netMessageStart).nMessageSize.toNat = m.payload.length := by
  have hle : m.payload.length ≤ 0x02000000 := m.payload_le
  have hlt : m.payload.length < 2 ^ 32 := by omega
  exact Nat.mod_eq_of_lt hlt

variable (Hash netMessageStart) in
theorem size_ok (m : Message) : ¬MAX_SIZE < (m.hdr Hash netMessageStart).nMessageSize := by
  rw [UInt32.lt_iff_toNat_lt, nMessageSize_hdr]
  exact Nat.not_lt.2 m.payload_le

/-- Less than a header. -/
theorem absorb_header_part {nVersion : Int32} {p : List UInt8} (hp : p.length < 24) :
    (CNetMessage.new netMessageStart nVersion).absorb p =
      (some p.length, begun netMessageStart nVersion p) := by
  have hcopy : min (24 - 0) p.length = p.length := by omega
  unfold CNetMessage.absorb CNetMessage.readHeader begun CNetMessage.new
  dsimp only
  rw [Bool.not_false, if_pos rfl, hcopy, List.take_length, if_pos (by omega), Nat.zero_add]

/-- The header, whatever comes behind it. -/
theorem absorb_header (m : Message) (nVersion : Int32) (rest : List UInt8) :
    (CNetMessage.new netMessageStart nVersion).absorb
        ((m.hdr Hash netMessageStart).encode ++ rest) =
      (some 24, m.received Hash netMessageStart nVersion []) := by
  have hlen := CMessageHeader.length_encode (m.hdr Hash netMessageStart)
  have hcopy : min (24 - 0) ((m.hdr Hash netMessageStart).encode ++ rest).length = 24 := by
    rw [List.length_append, hlen]
    omega
  have hwrite : writeAt (List.replicate 24 0) 0 (m.hdr Hash netMessageStart).encode =
      (m.hdr Hash netMessageStart).encode ++ [] := by
    unfold writeAt
    rw [List.take_zero, List.nil_append, hlen, List.drop_of_length_le (by simp)]
  unfold CNetMessage.absorb CNetMessage.readHeader CNetMessage.new
  dsimp only
  rw [Bool.not_false, if_pos rfl, hcopy, List.take_left' hlen, if_neg (by omega), hwrite,
    CMessageHeader.decode_encode]
  dsimp only
  rw [if_neg (m.size_ok Hash netMessageStart), nMessageSize_hdr]
  simp [received, resize]

/-- The payload, from its beginning. -/
theorem absorb_payload (m : Message) (nVersion : Int32) {a b : List UInt8}
    (h : m.payload = a ++ b) :
    (m.received Hash netMessageStart nVersion []).absorb a =
      (some a.length, m.received Hash netMessageStart nVersion a) := by
  have hlen : m.payload.length = a.length + b.length := by rw [h, List.length_append]
  have hcopy : min (m.payload.length - 0) a.length = a.length := by omega
  have hwrite : writeAt (List.replicate m.payload.length 0) 0 a =
      a ++ List.replicate (m.payload.length - a.length) 0 := by
    unfold writeAt
    rw [List.take_zero, List.nil_append, Nat.zero_add, List.drop_replicate]
  unfold CNetMessage.absorb CNetMessage.readData received
  dsimp only
  rw [Bool.not_true, if_neg (by decide), nMessageSize_hdr, List.length_nil, hcopy, List.take_length,
    List.nil_append, Nat.sub_zero, hwrite, Nat.zero_add]

/-- **A message up to somewhere in its payload.** -/
theorem ReceiveMsgBytes_payload (m : Message) (nVersion : Int32) {a b : List UInt8}
    (h : m.payload = a ++ b) :
    ReceiveMsgBytes netMessageStart nVersion [] ((m.hdr Hash netMessageStart).encode ++ a) =
      (true, [m.received Hash netMessageStart nVersion a]) := by
  have hne : (m.hdr Hash netMessageStart).encode ++ a ≠ [] := by
    intro h0
    have hlen := congrArg List.length h0
    rw [List.length_append, CMessageHeader.length_encode] at hlen
    simp at hlen
  have hhead : absorbBytes netMessageStart nVersion []
      ((m.hdr Hash netMessageStart).encode ++ a) =
      (some 24, [m.received Hash netMessageStart nVersion []]) := by
    unfold absorbBytes currentMessage
    dsimp only [List.getLast?_nil]
    rw [absorb_header]
    rfl
  unfold ReceiveMsgBytes
  rw [Chunks.feed_some absorbBytes_incremental receiving_nil hne hhead,
    List.drop_left' (CMessageHeader.length_encode _)]
  by_cases ha : a = []
  · rw [ha, Chunks.feed_nil]
  · have hwell : Receiving [m.received Hash netMessageStart nVersion []] :=
      (absorbBytes_incremental.progress receiving_nil hne hhead).2.2
    have hinc : (m.received Hash netMessageStart nVersion []).complete = false := by
      have hpos := List.length_pos_of_ne_nil ha
      have hlen : m.payload.length = a.length + b.length := by rw [h, List.length_append]
      have hsize := m.nMessageSize_hdr Hash netMessageStart
      have hne0 : 0 ≠ m.payload.length := by omega
      simp [CNetMessage.complete, received, hsize, hne0]
    have hdata : absorbBytes netMessageStart nVersion
        [m.received Hash netMessageStart nVersion []] a =
        (some a.length, [m.received Hash netMessageStart nVersion a]) := by
      have hcur := currentMessage_concat netMessageStart nVersion [] hinc
      rw [List.nil_append] at hcur
      unfold absorbBytes
      rw [hcur]
      dsimp only
      rw [absorb_payload m nVersion h]
      rfl
    rw [Chunks.feed_some absorbBytes_incremental hwell ha hdata, List.drop_length, Chunks.feed_nil]

/-- A message in the queue, complete. -/
def done (Hash : List UInt8 → Vector UInt8 32) (netMessageStart : Vector UInt8 4) (nVersion : Int32)
    (m : Message) : CNetMessage := m.received Hash netMessageStart nVersion m.payload

theorem complete_done (m : Message) (nVersion : Int32) :
    (m.done Hash netMessageStart nVersion).complete = true := by
  simp [CNetMessage.complete, done, received, nMessageSize_hdr]

theorem vRecv_done (m : Message) (nVersion : Int32) :
    (m.done Hash netMessageStart nVersion).vRecv = m.payload := by
  simp [done, received]

theorem ReceiveMsgBytes_encode (m : Message) (nVersion : Int32) :
    ReceiveMsgBytes netMessageStart nVersion [] (m.encode Hash netMessageStart) =
      (true, [m.done Hash netMessageStart nVersion]) :=
  ReceiveMsgBytes_payload m nVersion (List.append_nil _).symm

/-- **A message that has not come to its end is not complete.** -/
theorem ReceiveMsgBytes_part (m : Message) (nVersion : Int32) {p b : List UInt8} (hp : p ≠ [])
    (hb : b ≠ []) (h : m.encode Hash netMessageStart = p ++ b) :
    ∃ msg, ReceiveMsgBytes netMessageStart nVersion [] p = (true, [msg]) ∧
      msg.complete = false := by
  rcases List.append_eq_append_iff.1 h with ⟨a, hpa, hab⟩ | ⟨c, hhdr, hcb⟩
  · refine ⟨m.received Hash netMessageStart nVersion a, ?_, ?_⟩
    · rw [hpa]
      exact ReceiveMsgBytes_payload m nVersion hab
    · have hpos := List.length_pos_of_ne_nil hb
      have hlen : m.payload.length = a.length + b.length := by rw [hab, List.length_append]
      have hne : a.length ≠ m.payload.length := by omega
      simp [CNetMessage.complete, received, nMessageSize_hdr, hne]
  · by_cases hc : c = []
    · -- the header is all there, so that the payload is not empty
      subst hc
      rw [List.append_nil] at hhdr
      rw [List.nil_append] at hcb
      refine ⟨m.received Hash netMessageStart nVersion [], ?_, ?_⟩
      · rw [← hhdr, ← List.append_nil (m.hdr Hash netMessageStart).encode]
        exact ReceiveMsgBytes_payload m nVersion (List.nil_append _).symm
      · have hpos := List.length_pos_of_ne_nil hb
        have hlen : m.payload.length ≠ 0 := by
          rw [← hcb]
          omega
        simp [CNetMessage.complete, received, nMessageSize_hdr, Ne.symm hlen]
    · have hshort : p.length < 24 := by
        have hlen := congrArg List.length hhdr
        rw [CMessageHeader.length_encode, List.length_append] at hlen
        have hpos := List.length_pos_of_ne_nil hc
        omega
      have hhead : absorbBytes netMessageStart nVersion [] p =
          (some p.length, [begun netMessageStart nVersion p]) := by
        unfold absorbBytes currentMessage
        dsimp only [List.getLast?_nil]
        rw [absorb_header_part hshort]
        rfl
      refine ⟨begun netMessageStart nVersion p, ?_, ?_⟩
      · unfold ReceiveMsgBytes
        rw [Chunks.feed_some absorbBytes_incremental receiving_nil hp hhead, List.drop_length,
          Chunks.feed_nil]
      · rfl

end Message

/-! ## The queue behind complete messages, and its versions -/

section Queue

variable {netMessageStart : Vector UInt8 4} {nRecvVersion : Int32}

variable (netMessageStart nRecvVersion) in
/-- Complete messages at the front of the queue stay as they are. -/
theorem ReceiveMsgBytes_behind {before : List CNetMessage}
    (h : ∀ msg ∈ before, msg.complete = true) (vRecvMsg : List CNetMessage) (pch : List UInt8) :
    ReceiveMsgBytes netMessageStart nRecvVersion (before ++ vRecvMsg) pch =
      ((ReceiveMsgBytes netMessageStart nRecvVersion vRecvMsg pch).1,
        before ++ (ReceiveMsgBytes netMessageStart nRecvVersion vRecvMsg pch).2) := by
  refine Chunks.feed_map (before ++ ·) ?_ vRecvMsg pch
  intro vRecvMsg pch
  have hcur : currentMessage netMessageStart nRecvVersion (before ++ vRecvMsg) =
      (before ++ (currentMessage netMessageStart nRecvVersion vRecvMsg).1,
        (currentMessage netMessageStart nRecvVersion vRecvMsg).2) := by
    rcases List.eq_nil_or_concat vRecvMsg with rfl | ⟨front, msg, rfl⟩
    · rcases List.eq_nil_or_concat before with rfl | ⟨first, last, rfl⟩
      · rfl
      · have hlast : last.complete = true := h last (by simp)
        unfold currentMessage
        simp [hlast]
    · unfold currentMessage
      rw [List.concat_eq_append, ← List.append_assoc, List.getLast?_concat, List.getLast?_concat]
      dsimp only
      split
      next => rw [List.append_assoc]
      next => rw [List.dropLast_concat, List.dropLast_concat]
  unfold absorbBytes
  rw [hcur]
  dsimp only
  rw [List.append_assoc]

namespace CNetMessage

/-- A message but for the version of its stream. -/
def bytesOnly (msg : CNetMessage) : CNetMessage := { msg with nVersion := 0 }

@[simp] theorem complete_bytesOnly (msg : CNetMessage) :
    msg.bytesOnly.complete = msg.complete := rfl

theorem absorb_bytesOnly (msg : CNetMessage) (pch : List UInt8) :
    msg.bytesOnly.absorb pch = ((msg.absorb pch).1, (msg.absorb pch).2.bytesOnly) := by
  unfold absorb
  cases hd : msg.in_data with
  | false =>
    rw [if_pos (by simp [bytesOnly, hd]), if_pos (by rfl)]
    unfold readHeader bytesOnly
    dsimp only
    split
    next => rfl
    next =>
      split
      next => rfl
      next =>
        split
        next => rfl
        next => rfl
  | true =>
    rw [if_neg (by simp [bytesOnly, hd]), if_neg (by decide)]
    rfl

end CNetMessage

variable (nRecvVersion) in
/-- The bytes in the queue do not depend on the versions of the streams. -/
theorem ReceiveMsgBytes_bytesOnly (vRecvMsg : List CNetMessage) (pch : List UInt8) :
    ReceiveMsgBytes netMessageStart 0 (vRecvMsg.map CNetMessage.bytesOnly) pch =
      ((ReceiveMsgBytes netMessageStart nRecvVersion vRecvMsg pch).1,
        (ReceiveMsgBytes netMessageStart nRecvVersion vRecvMsg pch).2.map
          CNetMessage.bytesOnly) := by
  refine Chunks.feed_map (List.map CNetMessage.bytesOnly) ?_ vRecvMsg pch
  intro vRecvMsg pch
  have hcur : currentMessage netMessageStart 0 (vRecvMsg.map CNetMessage.bytesOnly) =
      ((currentMessage netMessageStart nRecvVersion vRecvMsg).1.map CNetMessage.bytesOnly,
        (currentMessage netMessageStart nRecvVersion vRecvMsg).2.bytesOnly) := by
    unfold currentMessage
    rw [List.getLast?_map]
    cases vRecvMsg.getLast? with
    | none => rfl
    | some msg =>
      dsimp only [Option.map_some]
      rw [CNetMessage.complete_bytesOnly]
      split
      next => rfl
      next => rw [List.map_dropLast]
  unfold absorbBytes
  rw [hcur]
  dsimp only
  rw [CNetMessage.absorb_bytesOnly, List.map_append]
  rfl

end Queue

/-! ## A stream of messages -/

section Stream

variable {Hash : List UInt8 → Vector UInt8 32} {netMessageStart : Vector UInt8 4}

/-- What is received of a stream: whole messages, and what is received of the rest. -/
theorem ReceiveMsgBytes_stream (ms : List Message) (b : List UInt8) :
    ReceiveMsgBytes netMessageStart 0 [] (ms.flatMap (Message.encode Hash netMessageStart) ++ b) =
      ((ReceiveMsgBytes netMessageStart 0 [] b).1,
        ms.map (Message.done Hash netMessageStart 0) ++
          (ReceiveMsgBytes netMessageStart 0 [] b).2) := by
  induction ms with
  | nil => rfl
  | cons m ms ih =>
    have hone : ∀ msg ∈ [m.done Hash netMessageStart 0], msg.complete = true := by
      intro msg hmsg
      rw [List.mem_singleton.1 hmsg]
      exact m.complete_done 0
    have hbehind := ReceiveMsgBytes_behind netMessageStart 0 hone []
      (ms.flatMap (Message.encode Hash netMessageStart) ++ b)
    rw [List.append_nil, ih] at hbehind
    rw [List.flatMap_cons, List.append_assoc,
      ReceiveMsgBytes_append receiving_nil (m.ReceiveMsgBytes_encode 0), hbehind]
    rfl

/-- A beginning of a stream: whole messages, and a part of the next. -/
theorem exists_split (ms : List Message) {u w : List UInt8}
    (h : ms.flatMap (Message.encode Hash netMessageStart) = u ++ w) :
    ∃ ms₁ ms₂ p, ms = ms₁ ++ ms₂ ∧
      u = ms₁.flatMap (Message.encode Hash netMessageStart) ++ p ∧
      ms₂.flatMap (Message.encode Hash netMessageStart) = p ++ w ∧
      (p ≠ [] → ∃ m ∈ ms₂, ∃ b, b ≠ [] ∧ m.encode Hash netMessageStart = p ++ b) := by
  induction ms generalizing u with
  | nil =>
    rw [List.flatMap_nil] at h
    obtain ⟨rfl, rfl⟩ := List.append_eq_nil_iff.1 h.symm
    exact ⟨[], [], [], rfl, rfl, rfl, fun hne => absurd rfl hne⟩
  | cons m ms ih =>
    rw [List.flatMap_cons] at h
    rcases List.append_eq_append_iff.1 h with ⟨u', hu, hrest⟩ | ⟨b, hm, hw⟩
    · obtain ⟨ms₁, ms₂, p, rfl, rfl, hp, hpart⟩ := ih hrest
      refine ⟨m :: ms₁, ms₂, p, rfl, ?_, hp, hpart⟩
      rw [hu, List.flatMap_cons, List.append_assoc]
    · by_cases hb : b = []
      · subst hb
        rw [List.append_nil] at hm
        rw [List.nil_append] at hw
        refine ⟨[m], ms, [], rfl, ?_, hw.symm, fun hne => absurd rfl hne⟩
        rw [List.flatMap_singleton, List.append_nil, hm]
      · refine ⟨[], m :: ms, u, rfl, rfl, ?_, fun _ => ⟨m, List.mem_cons_self, b, hb, hm⟩⟩
        rw [List.flatMap_cons, hm, hw, List.append_assoc]

variable {σ : Type} {P : Peer σ}

/-- A peer that is connected and has room in its send buffer. -/
def Peer.Quiet (P : Peer σ) (s : σ) : Prop :=
  P.fDisconnect s = false ∧ P.sendBufferFull s = false

/-- **The loop hands on the complete messages at the front of the queue** and stops before the
next. -/
theorem ProcessMessages.loop_messages (ms : List Message) {tail : List CNetMessage}
    (htail : ∀ msg ∈ tail, msg.complete = false) {s : σ} {set : Option Int32}
    {vRecvMsg : List CNetMessage}
    (hq : vRecvMsg.map CNetMessage.bytesOnly = ms.map (Message.done Hash netMessageStart 0) ++ tail)
    (hquiet : ∀ t ∈ (loop P Hash netMessageStart s set vRecvMsg).tests, P.Quiet t) :
    (loop P Hash netMessageStart s set vRecvMsg).fOk = true ∧
      (loop P Hash netMessageStart s set vRecvMsg).steps.map Step.call = ms.map Message.call ∧
      (loop P Hash netMessageStart s set vRecvMsg).left.map CNetMessage.bytesOnly = tail ∧
      P.fDisconnect (loop P Hash netMessageStart s set vRecvMsg).peer = false := by
  induction ms generalizing s set vRecvMsg with
  | nil =>
    obtain ⟨hconn, hfull⟩ := hquiet s (mem_tests s set vRecvMsg)
    cases vRecvMsg with
    | nil => exact ⟨rfl, rfl, hq, hconn⟩
    | cons msg rest =>
      have hinc : msg.complete = false := by
        refine htail msg.bytesOnly ?_
        rw [List.map_nil, List.nil_append] at hq
        rw [← hq]
        exact List.mem_cons_self
      unfold loop
      rw [if_neg (by simp [hconn]), if_neg (by simp [hfull]), if_pos (by simp [hinc])]
      exact ⟨rfl, rfl, hq, hconn⟩
  | cons m ms ih =>
    obtain ⟨hconn, hfull⟩ := hquiet s (mem_tests s set vRecvMsg)
    cases vRecvMsg with
    | nil => cases hq
    | cons msg rest =>
      obtain ⟨hmsg, hrest⟩ := List.cons.inj hq
      have hcomplete : msg.complete = true := by
        rw [← CNetMessage.complete_bytesOnly, hmsg]
        exact m.complete_done 0
      have hhdr : msg.hdr = m.hdr Hash netMessageStart := congrArg CNetMessage.hdr hmsg
      have hvRecv : msg.vRecv = m.payload := by
        have hsame : msg.bytesOnly.vRecv = m.payload := by rw [hmsg, m.vRecv_done]
        exact hsame
      have hvalid : (m.hdr Hash netMessageStart).IsValid netMessageStart = true :=
        CMessageHeader.IsValid_ofCommand netMessageStart m.sendable
          (UInt32.not_lt.1 (m.size_ok Hash netMessageStart)) _
      have hcommand : (m.hdr Hash netMessageStart).GetCommand = m.command :=
        CMessageHeader.GetCommand_ofCommand netMessageStart m.sendable
          (UInt32.ofNat m.payload.length)
      have hstart : (m.hdr Hash netMessageStart).pchMessageStart = netMessageStart := rfl
      have hsum : checksum Hash (m.payload.take (m.hdr Hash netMessageStart).nMessageSize.toNat) =
          (m.hdr Hash netMessageStart).nChecksum := by
        rw [m.nMessageSize_hdr, List.take_length]
        rfl
      have hloop : loop P Hash netMessageStart s set (msg :: rest) =
          (loop P Hash netMessageStart (P.ProcessMessage s m.call (set.getD msg.nVersion)).1
            ((P.ProcessMessage s m.call (set.getD msg.nVersion)).2.or set) rest).after
              ⟨s, m.call, set.getD msg.nVersion⟩ := by
        rw [loop, if_neg (by simp [hconn]), if_neg (by simp [hfull]), if_neg (by simp [hcomplete]),
          hhdr, hvRecv, if_neg (not_not.2 hstart), if_neg (by simp [hvalid]),
          if_neg (not_not.2 hsum), hcommand]
        rfl
      rw [hloop] at hquiet ⊢
      obtain ⟨hok, hcalls, hleft, hlast⟩ :=
        ih hrest fun t ht => hquiet t (List.mem_cons_of_mem s ht)
      exact ⟨hok, congrArg (m.call :: ·) hcalls, hleft, hlast⟩

/-- The queue has what was received of `unread`. -/
def Carries (netMessageStart : Vector UInt8 4) (unread : List UInt8) (node : CNode σ) : Prop :=
  ReceiveMsgBytes netMessageStart 0 [] unread = (true, node.vRecvMsg.map CNetMessage.bytesOnly)

theorem carries_receive {node : CNode σ} {unread pch : List UInt8}
    (h : Carries netMessageStart unread node)
    (hok : (ReceiveMsgBytes netMessageStart 0 [] (unread ++ pch)).1 = true) :
    ∃ vRecvMsg, ReceiveMsgBytes netMessageStart node.nRecvVersion node.vRecvMsg pch =
        (true, vRecvMsg) ∧
      Carries netMessageStart (unread ++ pch) { node with vRecvMsg := vRecvMsg } := by
  have happend := ReceiveMsgBytes_append receiving_nil h pch
  rw [ReceiveMsgBytes_bytesOnly node.nRecvVersion] at happend
  rw [happend] at hok
  refine ⟨_, Prod.ext hok rfl, ?_⟩
  unfold Carries
  rw [happend]
  exact Prod.ext hok rfl

/-- **A poll hands on the messages that have come to their end**, and keeps what has come of the
next. -/
theorem ProcessMessages_messages (ms : List Message) {p : List UInt8} {node : CNode σ}
    (hpart : p ≠ [] → ∃ m b, b ≠ [] ∧ Message.encode Hash netMessageStart m = p ++ b)
    (h : Carries netMessageStart (ms.flatMap (Message.encode Hash netMessageStart) ++ p) node)
    (hquiet : ∀ t ∈ (ProcessMessages P Hash netMessageStart node).1.tests, P.Quiet t) :
    (ProcessMessages P Hash netMessageStart node).1.steps.map Step.call = ms.map Message.call ∧
      Carries netMessageStart p (ProcessMessages P Hash netMessageStart node).2 := by
  unfold Carries at h
  rw [ReceiveMsgBytes_stream] at h
  obtain ⟨hok, hq⟩ := Prod.mk.inj h
  have htail : ∀ msg ∈ (ReceiveMsgBytes netMessageStart 0 [] p).2, msg.complete = false := by
    by_cases hp : p = []
    · subst hp
      intro msg hmsg
      cases hmsg
    · obtain ⟨m, b, hb, hm⟩ := hpart hp
      obtain ⟨msg, hmsg, hinc⟩ := m.ReceiveMsgBytes_part 0 hp hb hm
      rw [hmsg]
      intro msg' hmsg'
      rw [List.mem_singleton.1 hmsg']
      exact hinc
  obtain ⟨-, hcalls, hleft, hconn⟩ := ProcessMessages.loop_messages ms htail hq.symm hquiet
  refine ⟨hcalls, ?_⟩
  unfold Carries ProcessMessages
  dsimp only
  rw [if_neg (c := P.fDisconnect _ = true) (by simp [hconn]), List.map_map]
  refine Prod.ext hok ?_
  rw [← hleft]
  rfl

/-- A run that begins with bytes `unread` of a stream in its queue and receives the rest. -/
theorem run_of_carries (ms : List Message) (events : List (Event σ)) {node : CNode σ}
    {unread : List UInt8} (h : Carries netMessageStart unread node)
    (hbytes : ms.flatMap (Message.encode Hash netMessageStart) =
      unread ++ events.flatMap Event.bytes)
    (hquiet : ∀ t ∈ (run P Hash netMessageStart node (events ++ [Event.poll])).tests, P.Quiet t) :
    (run P Hash netMessageStart node (events ++ [Event.poll])).ok = true ∧
      (run P Hash netMessageStart node (events ++ [Event.poll])).calls = ms.map Message.call ∧
      (run P Hash netMessageStart node (events ++ [Event.poll])).node.vRecvMsg = [] := by
  induction events generalizing node unread ms with
  | nil =>
    rw [List.flatMap_nil, List.append_nil] at hbytes
    rw [← hbytes, ← List.append_nil (ms.flatMap _)] at h
    simp only [List.nil_append, run, List.append_nil] at hquiet ⊢
    obtain ⟨hcalls, hcarries⟩ := ProcessMessages_messages ms (fun hne => absurd rfl hne) h hquiet
    refine ⟨trivial, hcalls, ?_⟩
    have hempty := (Prod.mk.inj hcarries).2
    exact List.map_eq_nil_iff.1 hempty.symm
  | cons event events ih =>
    cases event with
    | receive pch =>
      rw [List.flatMap_cons, Event.bytes, ← List.append_assoc] at hbytes
      have hall : (ReceiveMsgBytes netMessageStart 0 []
          ((unread ++ pch) ++ events.flatMap Event.bytes)).1 = true := by
        rw [← hbytes, ← List.append_nil (ms.flatMap _), ReceiveMsgBytes_stream]
        rfl
      obtain ⟨vRecvMsg, hr, hcarries⟩ :=
        carries_receive h (ReceiveMsgBytes_append_ok receiving_nil hall)
      rw [List.cons_append, run, hr] at hquiet ⊢
      exact ih ms hcarries hbytes hquiet
    | poll =>
      rw [List.flatMap_cons, Event.bytes, List.nil_append] at hbytes
      obtain ⟨ms₁, ms₂, p, rfl, rfl, hp, hpart⟩ := exists_split ms hbytes
      rw [List.cons_append, run] at hquiet ⊢
      obtain ⟨hcalls, hcarries⟩ := ProcessMessages_messages ms₁
        (fun hne => (hpart hne).imp fun m hm => hm.2) h
        fun t ht => hquiet t (List.mem_append_left _ ht)
      obtain ⟨hok, hrest, hempty⟩ := ih ms₂ hcarries hp
        fun t ht => hquiet t (List.mem_append_right _ ht)
      refine ⟨hok, ?_, hempty⟩
      unfold Ran.calls at hrest ⊢
      dsimp only
      rw [List.map_append, List.map_append, hcalls, hrest]
    | other step =>
      rw [List.flatMap_cons, Event.bytes, List.nil_append] at hbytes
      rw [List.cons_append, run] at hquiet ⊢
      exact ih ms h hbytes hquiet

end Stream

/-- **Messages are delivered once each, in order, as they were sent**, however their bytes are cut
up and whatever happens between, as long as the peer stays connected and its send buffer has room;
and a valid header is, byte for byte, the header of its command. -/
theorem run_messages {σ : Type} (P : Peer σ) (Hash : List UInt8 → Vector UInt8 32)
    (netMessageStart : Vector UInt8 4) :
    (∀ (ms : List Message) (events : List (Event σ)) (node : CNode σ), node.vRecvMsg = [] →
      events.flatMap Event.bytes = ms.flatMap (Message.encode Hash netMessageStart) →
      (∀ t ∈ (run P Hash netMessageStart node (events ++ [.poll])).tests, P.Quiet t) →
      (run P Hash netMessageStart node (events ++ [.poll])).ok = true ∧
        (run P Hash netMessageStart node (events ++ [.poll])).calls = ms.map Message.call ∧
        (run P Hash netMessageStart node (events ++ [.poll])).node.vRecvMsg = []) ∧
    ∀ hdr : CMessageHeader, hdr.IsValid netMessageStart = true →
      CMessageHeader.encode { CMessageHeader.ofCommand netMessageStart hdr.GetCommand
        hdr.nMessageSize with nChecksum := hdr.nChecksum } = hdr.encode := by
  refine ⟨fun ms events node hnode hbytes hquiet => ?_, fun hdr hvalid => ?_⟩
  · have hcarries : Carries netMessageStart [] node := by
      unfold Carries
      rw [hnode]
      rfl
    exact run_of_carries ms events hcarries hbytes.symm hquiet
  · rw [CMessageHeader.ofCommand_GetCommand hvalid]

/-- A peer that is always connected and does nothing. -/
def Peer.idle : Peer Unit where
  fDisconnect := fun _ => false
  sendBufferFull := fun _ => false
  getDataWaiting := fun _ => false
  ProcessGetData := id
  ProcessMessage := fun s _ _ => (s, none)

/-- `verack`, which has no payload. -/
def Message.verack : Message where
  command := [0x76, 0x65, 0x72, 0x61, 0x63, 0x6B]
  payload := []
  sendable := ⟨by decide, by decide, by decide +kernel⟩
  payload_le := Nat.zero_le _

/-- A hash and a message start for concrete runs. -/
def sevens : List UInt8 → Vector UInt8 32 := fun _ => Vector.replicate 32 7

def mainStart : Vector UInt8 4 := #v[0xF9, 0xBE, 0xB4, 0xD9]

/-- A `verack` cut within its header, with a poll between the two pieces. -/
theorem run_messages_verack :
    (run Peer.idle sevens mainStart ⟨[], 0, ()⟩
      [.receive ((Message.verack.encode sevens mainStart).take 10), .poll,
       .receive ((Message.verack.encode sevens mainStart).drop 10), .poll]).calls =
      [⟨[0x76, 0x65, 0x72, 0x61, 0x63, 0x6B], []⟩] ∧
    CMessageHeader.encode { CMessageHeader.ofCommand mainStart
        (Message.verack.hdr sevens mainStart).GetCommand
        (Message.verack.hdr sevens mainStart).nMessageSize
      with nChecksum := (Message.verack.hdr sevens mainStart).nChecksum } =
      (Message.verack.hdr sevens mainStart).encode := by
  obtain ⟨hrun, hheader⟩ := run_messages Peer.idle sevens mainStart
  have hvalid : (Message.verack.hdr sevens mainStart).IsValid mainStart = true :=
    CMessageHeader.IsValid_ofCommand mainStart Message.verack.sendable
      (UInt32.not_lt.1 (Message.verack.size_ok sevens mainStart)) _
  refine ⟨?_, hheader _ hvalid⟩
  exact (hrun [.verack] [.receive _, .poll, .receive _] ⟨[], 0, ()⟩ rfl
    (by simp [Event.bytes]) fun _ _ => ⟨rfl, rfl⟩).2.1

end TriTip
