import TriTip.Net.ProcessMessage

/-!
# The handshake

A peer counts as introduced when its `nVersion` is not 0. The handler of `version` reads straight
into that field, so that a message that ends too soon introduces its sender: `handshakes_iff` says
that nothing else does.
-/

namespace TriTip

namespace NodeState

variable {W : Type}

/-! ## What a `version` message says -/

/-- The fields that every `version` message has; the version. -/
def versionHead (E : Program W) (nStream : Int32) : Parser Int32 := do
  let nVersion ← Codec.int32.read
  let _ ← Codec.uint64.read
  let _ ← Codec.int64.read
  let _ ← (E.address nStream).read
  pure nVersion

/-- The fields that may be missing. -/
def versionTail (E : Program W) (nStream : Int32) : Parser (CAddress × UInt64) := do
  let fromMe ← Parser.ifMore
    (do
      let addrFrom ← (E.address nStream).read
      let nNonce ← Codec.uint64.read
      pure (addrFrom, nNonce))
    (pure (⟨⟨⟨Vector.replicate 16 0⟩, 0⟩, E.NODE_NETWORK, 100000000⟩, 1))
  let _ ← Parser.ifMore (do let _ ← E.string.read; pure ()) (pure ())
  let _ ← Parser.ifMore (do let _ ← Codec.int32.read; pure ()) (pure ())
  let _ ← Parser.ifMore (do let _ ← E.bool.read; pure ()) (pure ())
  pure fromMe

/-- The message gives a version other than 0 and ends within a later field, if it does not give one
that is no longer supported. -/
def CutShort (E : Program W) (nStream : Int32) (vRecv : List UInt8) : Prop :=
  ∃ nVersion rest, Codec.int32.read vRecv = some (nVersion, rest) ∧ nVersion ≠ 0 ∧
    match versionHead E nStream vRecv with
    | none => True
    | some (_, vRecv) => ¬nVersion < MIN_PROTO_VERSION ∧ versionTail E nStream vRecv = none

variable {E : Program W} {nStream : Int32} {pfrom : NodeState W} {vRecv : List UInt8}

theorem versionHead_int32 {nVersion : Int32} {rest : List UInt8}
    (h : versionHead E nStream vRecv = some (nVersion, rest)) :
    ∃ rest', Codec.int32.read vRecv = some (nVersion, rest') := by
  obtain ⟨v, bs, hv, h⟩ := Parser.bind_eq_some.1 h
  obtain ⟨_, _, _, h⟩ := Parser.bind_eq_some.1 h
  obtain ⟨_, _, _, h⟩ := Parser.bind_eq_some.1 h
  obtain ⟨_, _, _, h⟩ := Parser.bind_eq_some.1 h
  obtain ⟨rfl, -⟩ := Prod.mk.inj (Option.some.inj h)
  exact ⟨bs, hv⟩

/-- What the handshake does not look at while a message is read. -/
def connection (pfrom : NodeState W) : Bool × Bool × List Effect :=
  (pfrom.fSuccessfullyConnected, pfrom.fDisconnect, pfrom.effects)

variable (E nStream) in
/-- Reading the services, the time and the address keeps whatever does not depend on the
services. -/
theorem keeps_readServices {τ : Type} (f : NodeState W → τ)
    (h : ∀ (s : NodeState W) nServices, f { s with nServices } = f s) :
    Decoder.Keeps f (do
      let _ ← Decoder.readInto Codec.uint64 NodeState.nServices fun v s => { s with nServices := v }
      let nTime ← Decoder.readLocal Codec.int64
      let addrMe ← Decoder.readLocal (E.address nStream)
      pure (nTime, addrMe)) := by
  refine Decoder.Keeps.bind (Decoder.keeps_readInto fun v s => h s v) fun _ => ?_
  refine Decoder.Keeps.bind (Decoder.keeps_readLocal _) fun _ => ?_
  exact Decoder.Keeps.bind (Decoder.keeps_readLocal _) fun _ => Decoder.keeps_pure _

variable (E nStream) in
/-- Reading the fields that every message has keeps whatever does not depend on them. -/
theorem keeps_readVersion {τ : Type} (f : NodeState W → τ)
    (h : ∀ (s : NodeState W) nVersion, f { s with nVersion } = f s)
    (h' : ∀ (s : NodeState W) nServices, f { s with nServices } = f s) :
    Decoder.Keeps f (readVersion E nStream) :=
  Decoder.Keeps.bind (Decoder.keeps_readInto fun v s => h s v)
    fun _ => keeps_readServices E nStream f h'

variable (E nStream) in
/-- Reading the later fields keeps whatever does not depend on them. -/
theorem keeps_readVersionRest {τ : Type} (f : NodeState W → τ)
    (h : ∀ (s : NodeState W) strSubVer nStartingHeight fRelayTxes,
      f { s with strSubVer, nStartingHeight, fRelayTxes } = f s) :
    Decoder.Keeps f (readVersionRest E nStream) := by
  refine Decoder.Keeps.bind (Decoder.Keeps.ifMore ?_ (Decoder.keeps_pure _)) fun _ => ?_
  · refine Decoder.Keeps.bind (Decoder.keeps_readLocal _) fun _ => ?_
    exact Decoder.Keeps.bind (Decoder.keeps_readLocal _) fun _ => Decoder.keeps_pure _
  refine Decoder.Keeps.bind (Decoder.Keeps.ifMore ?_ (Decoder.keeps_pure _)) fun _ => ?_
  · exact Decoder.Keeps.bind
      (Decoder.keeps_readInto fun v s => h s v s.nStartingHeight s.fRelayTxes)
      fun _ => Decoder.keeps_pure _
  refine Decoder.Keeps.bind (Decoder.Keeps.ifMore ?_ (Decoder.keeps_pure _)) fun _ => ?_
  · exact Decoder.Keeps.bind (Decoder.keeps_readInto fun v s => h s s.strSubVer v s.fRelayTxes)
      fun _ => Decoder.keeps_pure _
  refine Decoder.Keeps.bind (Decoder.Keeps.ifMore ?_ (Decoder.keeps_modify fun s => ?_))
    fun _ => Decoder.keeps_pure _
  · exact Decoder.Keeps.bind (Decoder.keeps_readInto fun v s => h s s.strSubVer s.nStartingHeight v)
      fun _ => Decoder.keeps_pure _
  · exact h s s.strSubVer s.nStartingHeight true

variable (E nStream) in
theorem follows_readVersionRest :
    Decoder.Follows (readVersionRest E nStream) (versionTail E nStream) := by
  refine Decoder.Follows.bind (Decoder.Follows.ifMore ?_ (Decoder.follows_pure _)) fun _ => ?_
  · refine Decoder.Follows.bind (Decoder.follows_readLocal _) fun _ => ?_
    exact Decoder.Follows.bind (Decoder.follows_readLocal _) fun _ => Decoder.follows_pure _
  refine Decoder.Follows.bind (Decoder.Follows.ifMore ?_ (Decoder.follows_pure _)) fun _ => ?_
  · exact Decoder.Follows.bind (Decoder.follows_readInto _ _ _) fun _ => Decoder.follows_pure _
  refine Decoder.Follows.bind (Decoder.Follows.ifMore ?_ (Decoder.follows_pure _)) fun _ => ?_
  · exact Decoder.Follows.bind (Decoder.follows_readInto _ _ _) fun _ => Decoder.follows_pure _
  refine Decoder.Follows.bind (Decoder.Follows.ifMore ?_ (Decoder.follows_modify _))
    fun _ => Decoder.follows_pure _
  exact Decoder.Follows.bind (Decoder.follows_readInto _ _ _) fun _ => Decoder.follows_pure _

variable (pfrom) in
/-- A message that has the fields that every one has. -/
theorem readVersion_of_head {nVersion : Int32} {rest : List UInt8}
    (h : versionHead E nStream vRecv = some (nVersion, rest)) :
    ∃ s x, readVersion E nStream pfrom vRecv = (s, some (x, rest)) ∧ s.nVersion = nVersion := by
  obtain ⟨v, bs, hv, h⟩ := Parser.bind_eq_some.1 h
  obtain ⟨w, bs₂, hw, h⟩ := Parser.bind_eq_some.1 h
  obtain ⟨nTime, bs₃, ht, h⟩ := Parser.bind_eq_some.1 h
  obtain ⟨addrMe, bs₄, ha, h⟩ := Parser.bind_eq_some.1 h
  obtain ⟨rfl, rfl⟩ := Prod.mk.inj (Option.some.inj h)
  refine ⟨{ pfrom with nVersion := v, nServices := w }, (nTime, addrMe), ?_, rfl⟩
  unfold readVersion
  rw [Decoder.bind_of_some (Decoder.Parses.succeeds (Decoder.parses_readInto _ _ _) hv),
    Decoder.bind_of_some (Decoder.Parses.succeeds (Decoder.parses_readInto _ _ _) hw),
    Decoder.bind_of_some (Decoder.Parses.succeeds (Decoder.parses_readLocal _) ht),
    Decoder.bind_of_some (Decoder.Parses.succeeds (Decoder.parses_readLocal _) ha)]
  rfl

variable (pfrom) in
/-- One that does not. -/
theorem readVersion_of_no_head (h : versionHead E nStream vRecv = none) :
    (readVersion E nStream pfrom vRecv).2 = none := by
  refine Decoder.Parses.bind_fails (Decoder.parses_readInto _ _ _) h fun _ _ h => ?_
  refine Decoder.Parses.bind_fails (Decoder.parses_readInto _ _ _) h fun _ _ h => ?_
  refine Decoder.Parses.bind_fails (Decoder.parses_readLocal _) h fun _ _ h => ?_
  refine Decoder.Parses.bind_fails (Decoder.parses_readLocal _) h fun _ _ h => ?_
  cases h

/-- **The version stays read**, whatever comes after it. -/
theorem nVersion_readVersion :
    (readVersion E nStream pfrom vRecv).1.nVersion =
      match Codec.int32.read vRecv with
      | some (nVersion, _) => nVersion
      | none => pfrom.nVersion := by
  unfold readVersion
  cases hv : Codec.int32.read vRecv with
  | none =>
    have hfail := Decoder.Parses.fails (Decoder.parses_readInto Codec.int32
      (NodeState.nVersion (W := W)) fun v s => { s with nVersion := v }) (s := pfrom) hv
    rw [Decoder.bind_of_none hfail]
    unfold Decoder.readInto
    rw [hv]
    rfl
  | some r =>
    obtain ⟨v, bs⟩ := r
    rw [Decoder.bind_of_some (Decoder.Parses.succeeds (Decoder.parses_readInto _ _ _) hv)]
    exact keeps_readServices E nStream NodeState.nVersion (fun _ _ => rfl) _ bs

/-! ## What the handlers do to the handshake -/

/-- Nothing is done to the handshake; more may have been done. -/
structure Kept (before after : NodeState W) : Prop where
  nVersion : after.nVersion = before.nVersion
  connected : after.fSuccessfullyConnected = before.fSuccessfullyConnected
  effects : before.effects ⊆ after.effects
  disconnected : before.fDisconnect = true → after.fDisconnect = true

theorem Kept.refl (s : NodeState W) : Kept s s := ⟨rfl, rfl, fun _ h => h, fun h => h⟩

theorem Kept.trans {s t u : NodeState W} (h : Kept s t) (h' : Kept t u) : Kept s u where
  nVersion := h'.nVersion.trans h.nVersion
  connected := h'.connected.trans h.connected
  effects := fun _ he => h'.effects (h.effects he)
  disconnected := fun hd => h'.disconnected (h.disconnected hd)

theorem kept_perform (effect : Effect) (s : NodeState W) : Kept s (s.perform E effect) where
  nVersion := rfl
  connected := rfl
  effects := List.subset_append_left _ _
  disconnected := fun h => by
    unfold perform
    dsimp only
    rw [h, Bool.true_or]

theorem mem_perform (effect : Effect) (s : NodeState W) :
    effect ∈ (s.perform E effect).effects := by
  unfold perform
  simp

theorem kept_updateLastSeen (strCommand : List UInt8) (s : NodeState W) :
    Kept s (s.updateLastSeen E strCommand) := by
  unfold updateLastSeen
  split
  · split
    · exact kept_perform _ s
    · exact .refl s
  · exact .refl s

theorem kept_processGetDataMessage (s : NodeState W) :
    Kept s (s.processGetDataMessage E vRecv).1 := by
  unfold processGetDataMessage
  split
  · exact .refl s
  · split
    · exact kept_perform _ s
    · refine Kept.trans ?_ (kept_perform _ _)
      exact ⟨rfl, rfl, fun _ h => h, fun h => h⟩

theorem kept_processOther (call : Call) (s : NodeState W) :
    Kept s (s.processOther E call nStream).1 where
  nVersion := rfl
  connected := rfl
  effects := fun _ h => h
  disconnected := fun h => by
    unfold processOther
    dsimp only
    rw [h, Bool.true_or]

theorem kept_advertiseAddress (s : NodeState W) : Kept s (s.advertiseAddress E) := by
  unfold advertiseAddress
  split
  · exact kept_perform _ s
  · exact .refl s

theorem kept_getRecentAddresses (s : NodeState W) : Kept s (s.getRecentAddresses E) := by
  unfold getRecentAddresses
  split
  · refine (kept_perform (E := E) (.PushMessage .getaddr) s).trans ?_
    exact ⟨rfl, rfl, fun _ h => h, fun h => h⟩
  · exact .refl s

theorem kept_exchangeAddresses (addrFrom : CAddress) (s : NodeState W) :
    Kept s (s.exchangeAddresses E addrFrom) := by
  unfold exchangeAddresses
  split
  · exact ((kept_advertiseAddress s).trans (kept_getRecentAddresses _)).trans (kept_perform _ _)
  · split
    · exact kept_perform _ s
    · exact .refl s

/-- **A `version` message that has been read** is handled to its end or ends the connection. -/
theorem acceptVersion_cases (nTime : Int64) (addrMe addrFrom : CAddress) (nNonce : UInt64)
    (s : NodeState W) :
    ((s.acceptVersion E nTime addrMe addrFrom nNonce).2 = .rejected ∧
      (s.acceptVersion E nTime addrMe addrFrom nNonce).1.fDisconnect = true) ∨
    ((s.acceptVersion E nTime addrMe addrFrom nNonce).2 = .handled ∧
      (s.acceptVersion E nTime addrMe addrFrom nNonce).1.nVersion = s.nVersion ∧
      (s.acceptVersion E nTime addrMe addrFrom nNonce).1.fSuccessfullyConnected = true ∧
      .PushMessage .verack ∈ (s.acceptVersion E nTime addrMe addrFrom nNonce).1.effects) := by
  unfold acceptVersion
  dsimp only
  set s₁ := if s.fInbound && addrMe.IsRoutable
    then { s with addrLocal := addrMe }.perform E (.SeenLocal addrMe) else s with hs₁
  have h₁ : s₁.nVersion = s.nVersion := by
    rw [hs₁]
    split
    · rfl
    · rfl
  split
  · exact .inl ⟨rfl, rfl⟩
  · right
    set s₂ := if s₁.fInbound then s₁.perform E .PushVersion else s₁ with hs₂
    have h₂ : s₂.nVersion = s₁.nVersion := by
      rw [hs₂]
      split
      · rfl
      · rfl
    set s₃ := perform E (.PushMessage .verack) (perform E (.AddTimeData nTime)
      { s₂ with fClient := s₂.nServices &&& E.NODE_NETWORK == 0 }) with hs₃
    have hkept := ((kept_perform (E := E) (.SetSendVersion (min s₃.nVersion E.PROTOCOL_VERSION))
      s₃).trans (kept_exchangeAddresses (E := E) addrFrom _)).trans
        (kept_perform (E := E) .RelayAlerts _)
    refine ⟨rfl, ?_, rfl, ?_⟩
    · exact (hkept.nVersion.trans h₂).trans h₁
    · exact List.mem_append_left _ (hkept.effects (mem_perform _ _))

/-- A `version` message to a peer that has been introduced is refused. -/
theorem processVersion_refused (h : pfrom.nVersion ≠ 0) :
    pfrom.processVersion E vRecv nStream = (pfrom.perform E (.Misbehaving 1), .refused) := by
  unfold processVersion
  rw [if_pos h]

/-- What becomes of a first `version` message that is not cut short. -/
inductive Introduced (before after : NodeState W) : Fate → Prop where
  | thrown (hv : after.nVersion = 0)
      (hc : after.fSuccessfullyConnected = before.fSuccessfullyConnected) :
      Introduced before after .thrown
  | rejected (hd : after.fDisconnect = true) : Introduced before after .rejected
  | handled (hv : after.nVersion ≠ 0) (hc : after.fSuccessfullyConnected = true)
      (he : .PushMessage .verack ∈ after.effects) : Introduced before after .handled

/-- The state after a part of the message has been read, with the exception thrown. -/
theorem processVersion_of_no_head (h0 : pfrom.nVersion = 0)
    (h : versionHead E nStream vRecv = none) :
    pfrom.processVersion E vRecv nStream = ((readVersion E nStream pfrom vRecv).1, .thrown) := by
  have hfail := readVersion_of_no_head pfrom h
  unfold processVersion
  rw [if_neg (not_not.2 h0)]
  rcases hr : readVersion E nStream pfrom vRecv with ⟨s, r⟩
  rw [hr] at hfail
  obtain rfl : r = none := hfail
  rfl

/-- The change of version 10300 to 300 makes no version 0. -/
theorem nVersion_renumbered {s : NodeState W} {nVersion : Int32} (hs : s.nVersion = nVersion)
    (h : nVersion ≠ 0) :
    (if nVersion = 10300 then { s with nVersion := 300 } else s).nVersion ≠ 0 := by
  have hthree : (300 : Int32) ≠ 0 := by decide
  split
  · exact hthree
  · rw [hs]
    exact h

variable (pfrom) in
/-- **A message that is cut short introduces its sender**, and leaves the connection as it is. -/
theorem processVersion_cutShort (h0 : pfrom.nVersion = 0) (h : CutShort E nStream vRecv) :
    ∃ after, pfrom.processVersion E vRecv nStream = (after, .thrown) ∧ after.nVersion ≠ 0 ∧
      after.connection = pfrom.connection := by
  obtain ⟨nVersion, rest, hv, hne, hcut⟩ := h
  have hkeep := keeps_readVersion E nStream connection (fun _ _ => rfl) (fun _ _ => rfl) pfrom vRecv
  cases hhead : versionHead E nStream vRecv with
  | none =>
    refine ⟨_, processVersion_of_no_head h0 hhead, ?_, hkeep⟩
    rw [nVersion_readVersion, hv]
    exact hne
  | some r =>
    obtain ⟨v, bs⟩ := r
    rw [hhead] at hcut
    obtain ⟨hlow, htail⟩ := hcut
    obtain ⟨rest', hv'⟩ := versionHead_int32 hhead
    rw [hv] at hv'
    obtain ⟨rfl, -⟩ := Prod.mk.inj (Option.some.inj hv')
    obtain ⟨s, x, hread, hs⟩ := readVersion_of_head pfrom hhead
    rw [hread] at hkeep
    unfold processVersion
    rw [if_neg (not_not.2 h0), hread]
    dsimp only
    rw [hs, if_neg hlow]
    set s' := if nVersion = 10300 then { s with nVersion := 300 } else s with hs'
    have hkeep' : s'.connection = s.connection := by
      rw [hs']
      split
      · rfl
      · rfl
    have hv' : s'.nVersion ≠ 0 := nVersion_renumbered hs hne
    have hfail := follows_readVersionRest E nStream s' bs
    rw [htail] at hfail
    have hrest := keeps_readVersionRest E nStream connection
      (fun _ _ _ _ => rfl) s' bs
    have hrest' := keeps_readVersionRest E nStream NodeState.nVersion
      (fun _ _ _ _ => rfl) s' bs
    rcases hr : readVersionRest E nStream s' bs with ⟨t, r⟩
    rw [hr] at hfail hrest hrest'
    obtain rfl : r = none := hfail
    refine ⟨t, rfl, ?_, hrest.trans (hkeep'.trans hkeep)⟩
    rw [show t.nVersion = s'.nVersion from hrest']
    exact hv'

variable (pfrom) in
/-- **A message that is not cut short** leaves its sender out, ends the connection or is handled to
its end. -/
theorem processVersion_introduced (h0 : pfrom.nVersion = 0) (h : ¬CutShort E nStream vRecv) :
    Introduced pfrom (pfrom.processVersion E vRecv nStream).1
      (pfrom.processVersion E vRecv nStream).2 := by
  have hkeep := keeps_readVersion E nStream connection (fun _ _ => rfl) (fun _ _ => rfl) pfrom vRecv
  cases hhead : versionHead E nStream vRecv with
  | none =>
    rw [processVersion_of_no_head h0 hhead]
    refine .thrown ?_ (congrArg Prod.fst hkeep)
    rw [nVersion_readVersion]
    split
    next v rest hv =>
      by_contra hne
      refine h ⟨v, rest, hv, hne, ?_⟩
      rw [hhead]
      trivial
    next => exact h0
  | some r =>
    obtain ⟨v, bs⟩ := r
    obtain ⟨rest', hv⟩ := versionHead_int32 hhead
    obtain ⟨s, x, hread, hs⟩ := readVersion_of_head pfrom hhead
    unfold processVersion
    rw [if_neg (not_not.2 h0), hread]
    dsimp only
    rw [hs]
    split
    next => exact .rejected rfl
    next hlow =>
      have hne : v ≠ 0 := by
        rintro rfl
        exact hlow (by decide)
      set s' := if v = 10300 then { s with nVersion := 300 } else s
      have hv' : s'.nVersion ≠ 0 := nVersion_renumbered hs hne
      have htail : versionTail E nStream bs ≠ none := by
        intro htail
        refine h ⟨v, rest', hv, hne, ?_⟩
        rw [hhead]
        exact ⟨hlow, htail⟩
      have hread' := follows_readVersionRest E nStream s' bs
      have hrest := keeps_readVersionRest E nStream NodeState.nVersion
        (fun _ _ _ _ => rfl) s' bs
      rcases hr : readVersionRest E nStream s' bs with ⟨t, _ | ⟨⟨addrFrom, nNonce⟩, bs'⟩⟩
      · rw [hr] at hread'
        exact absurd hread'.symm htail
      · rw [hr] at hrest
        have ht : t.nVersion ≠ 0 := fun h => hv' (hrest.symm.trans h)
        dsimp only
        rcases acceptVersion_cases (E := E) x.1 x.2 addrFrom nNonce t with
          ⟨hf, hd⟩ | ⟨hf, hver, hc, he⟩
        · rw [hf]
          exact .rejected hd
        · rw [hf]
          exact .handled (by rw [hver]; exact ht) hc he

/-! ## Steps -/

/-- What became of the message of a step. -/
def fate (E : Program W) (step : Step (NodeState W)) : Fate :=
  (ProcessMessage E step.before step.call step.nVersion).1.2

/-- The peer after a step. -/
def after (E : Program W) (step : Step (NodeState W)) : NodeState W :=
  (ProcessMessage E step.before step.call step.nVersion).1.1

/-- A `version` message that its peer is not known for yet, and that is not dropped. -/
structure FirstVersion (E : Program W) (step : Step (NodeState W)) : Prop where
  command : step.call.strCommand = chars "version"
  unknown : step.before.nVersion = 0
  kept : (E.dropMessage step.before.world).2 = false

variable {step : Step (NodeState W)}

/-- The peer when the message has passed the test for dropped messages. -/
def started (E : Program W) (step : Step (NodeState W)) : NodeState W :=
  { step.before with world := (E.dropMessage step.before.world).1 }

theorem kept_started (E : Program W) (step : Step (NodeState W)) :
    Kept step.before (started E step) :=
  ⟨rfl, rfl, fun _ he => he, fun hd => hd⟩

theorem ProcessMessage_dropped (h : (E.dropMessage step.before.world).2 = true) :
    (ProcessMessage E step.before step.call step.nVersion).1 = (started E step, .dropped) := by
  unfold ProcessMessage
  dsimp only
  rw [if_pos h]
  rfl

theorem fate_dropped (h : (E.dropMessage step.before.world).2 = true) :
    fate E step = .dropped := by
  unfold fate
  rw [ProcessMessage_dropped h]

theorem after_dropped (h : (E.dropMessage step.before.world).2 = true) :
    after E step = started E step := by
  unfold after
  rw [ProcessMessage_dropped h]

/-- A message that is not dropped goes to its handler, and may be why the address is marked. -/
theorem ProcessMessage_dispatched (h : (E.dropMessage step.before.world).2 = false) :
    fate E step = (dispatch E step.call step.nVersion (started E step)).1.2 ∧
      after E step =
        if (dispatch E step.call step.nVersion (started E step)).1.2 = .handled then
          (dispatch E step.call step.nVersion (started E step)).1.1.updateLastSeen E
            step.call.strCommand
        else (dispatch E step.call step.nVersion (started E step)).1.1 := by
  unfold fate after ProcessMessage
  dsimp only
  rw [if_neg (by rw [h]; decide)]
  rcases hd : dispatch E step.call step.nVersion (started E step) with ⟨⟨s, f⟩, set⟩
  unfold started at hd
  rw [hd]
  dsimp only
  split
  next => exact ⟨rfl, rfl⟩
  next => exact ⟨rfl, rfl⟩

theorem ProcessMessage_kept (h : (E.dropMessage step.before.world).2 = false) :
    fate E step = (dispatch E step.call step.nVersion (started E step)).1.2 ∧
      Kept (dispatch E step.call step.nVersion (started E step)).1.1 (after E step) ∧
      (fate E step ≠ .handled →
        after E step = (dispatch E step.call step.nVersion (started E step)).1.1) := by
  obtain ⟨hfate, hafter⟩ := ProcessMessage_dispatched h
  rw [hfate, hafter]
  split
  next hf => exact ⟨rfl, kept_updateLastSeen _ _, fun hne => absurd hf hne⟩
  next => exact ⟨rfl, .refl _, fun _ => rfl⟩

/-- Such a message goes to the handler of `version`. -/
theorem dispatch_version (h : FirstVersion E step) :
    (dispatch E step.call step.nVersion (started E step)).1 =
      (started E step).processVersion E step.call.vRecv step.nVersion := by
  unfold dispatch
  rw [if_pos h.command]

theorem kept_dispatch {call : Call} {s : NodeState W}
    (h : call.strCommand = chars "version" → s.nVersion ≠ 0) :
    Kept s (dispatch E call nStream s).1.1 := by
  unfold dispatch
  split
  next hcommand =>
    rw [processVersion_refused (h hcommand)]
    exact kept_perform _ s
  next =>
    split
    next => exact kept_perform _ s
    next =>
      split
      next => exact .refl s
      next =>
        split
        next => exact kept_processGetDataMessage s
        next => exact kept_processOther call s

/-- Every other message leaves the handshake alone. -/
theorem kept_of_not_firstVersion (h : ¬FirstVersion E step) : Kept step.before (after E step) := by
  refine (kept_started E step).trans ?_
  cases hdrop : (E.dropMessage step.before.world).2 with
  | true =>
    rw [after_dropped hdrop]
    exact .refl _
  | false =>
    have hversion : step.call.strCommand = chars "version" → (started E step).nVersion ≠ 0 :=
      fun hcommand h0 => h ⟨hcommand, h0, hdrop⟩
    exact (kept_dispatch hversion).trans (ProcessMessage_kept hdrop).2.1

/-- What `dispatch` refuses is refused, unless it is dropped before. -/
theorem fate_of_dispatch_refused
    (h : (dispatch E step.call step.nVersion (started E step)).1.2 = .refused) :
    fate E step = .dropped ∨ fate E step = .refused := by
  cases hdrop : (E.dropMessage step.before.world).2 with
  | true => exact .inl (fate_dropped hdrop)
  | false =>
    right
    rw [(ProcessMessage_kept hdrop).1]
    exact h

/-- Before the peer is known nothing but `version` is looked at. -/
theorem fate_of_not_version (hcommand : step.call.strCommand ≠ chars "version")
    (h0 : step.before.nVersion = 0) : fate E step = .dropped ∨ fate E step = .refused := by
  apply fate_of_dispatch_refused
  have hstarted : (started E step).nVersion = 0 := h0
  unfold dispatch
  rw [if_neg hcommand, if_pos hstarted]

/-- Once it is known every further `version` message is refused. -/
theorem fate_of_known (hcommand : step.call.strCommand = chars "version")
    (hv : step.before.nVersion ≠ 0) : fate E step = .dropped ∨ fate E step = .refused := by
  apply fate_of_dispatch_refused
  have hstarted : (started E step).nVersion ≠ 0 := hv
  unfold dispatch
  rw [if_pos hcommand, processVersion_refused hstarted]

/-- The peer was introduced by a message that was cut short. -/
structure CutShortStep (E : Program W) (step : Step (NodeState W)) : Prop
    extends FirstVersion E step where
  cut : CutShort E step.nVersion step.call.vRecv

theorem after_cutShort (h : CutShortStep E step) :
    fate E step = .thrown ∧ (after E step).nVersion ≠ 0 ∧
      (after E step).connection = step.before.connection := by
  obtain ⟨hfate, -, hafter⟩ := ProcessMessage_kept h.kept
  obtain ⟨s, hs, hv, hc⟩ := processVersion_cutShort (started E step) h.unknown h.cut
  rw [dispatch_version h.toFirstVersion, hs] at hfate hafter
  rw [hafter (by rw [hfate]; exact nofun)]
  exact ⟨hfate, hv, hc⟩

/-- **What a first `version` message does** when it is not cut short. -/
theorem after_firstVersion (h : FirstVersion E step)
    (hcut : ¬CutShort E step.nVersion step.call.vRecv) :
    Introduced step.before (after E step) (fate E step) := by
  obtain ⟨hfate, hkept, hafter⟩ := ProcessMessage_kept h.kept
  have hcases := processVersion_introduced (started E step) h.unknown hcut
  rw [dispatch_version h] at hfate hkept hafter
  rw [← hfate] at hcases
  generalize hf : fate E step = f at hcases hafter
  cases hcases with
  | thrown hv hc =>
    rw [hafter (by decide)]
    exact .thrown hv hc
  | rejected hd => exact .rejected (hkept.disconnected hd)
  | handled hv hc he =>
    exact .handled (by rw [hkept.nVersion]; exact hv) (by rw [hkept.connected]; exact hc)
      (hkept.effects he)

/-! ## Runs -/

/-- A connected peer that is known has been introduced: `fSuccessfullyConnected` is set and `verack`
was pushed. -/
def Handshaken (s : NodeState W) : Prop :=
  s.fDisconnect = false → s.nVersion ≠ 0 →
    s.fSuccessfullyConnected = true ∧ Effect.PushMessage .verack ∈ s.effects

/-- The converse, which no message breaks. -/
def Known (s : NodeState W) : Prop := s.fSuccessfullyConnected = true → s.nVersion ≠ 0

theorem Handshaken.kept {s t : NodeState W} (h : Handshaken s) (hk : Kept s t) : Handshaken t := by
  intro hd hv
  have hsd : s.fDisconnect = false := by
    by_contra hne
    rw [hk.disconnected (by simpa using hne)] at hd
    cases hd
  obtain ⟨hc, he⟩ := h hsd (by rw [← hk.nVersion]; exact hv)
  exact ⟨hk.connected.trans hc, hk.effects he⟩

theorem Known.kept {s t : NodeState W} (h : Known s) (hk : Kept s t) : Known t := by
  intro hc
  rw [hk.nVersion]
  exact h (hk.connected.symm.trans hc)

theorem kept_outside (f : W → W × Bool) (s : NodeState W) : Kept s (s.outside f) :=
  ⟨rfl, rfl, fun _ h => h, fun h => by unfold outside; dsimp only; rw [h, Bool.true_or]⟩

theorem after_eq (E : Program W) (step : Step (NodeState W)) :
    ((peer E).ProcessMessage step.before step.call step.nVersion).1 = after E step := rfl

/-- **One step**: a message that is not cut short keeps the handshake in order. -/
theorem handshaken_step :
    KeepsOnMessage (peer E) Handshaken fun step => ¬CutShortStep E step := by
  intro step h hconn hcut
  rw [after_eq]
  by_cases hfirst : FirstVersion E step
  · have hintro := after_firstVersion hfirst fun hc => hcut ⟨hfirst, hc⟩
    generalize fate E step = f at hintro
    cases hintro with
    | thrown hv hc => exact fun _ hne => absurd hv hne
    | rejected hd => exact fun hd' => absurd (hd.symm.trans hd') (by decide)
    | handled hv hc he => exact fun _ _ => ⟨hc, he⟩
  · exact h.kept (kept_of_not_firstVersion hfirst)

/-- What a disconnected peer is known for does not matter, as no message is handed on for it. -/
theorem known_step :
    KeepsOnMessage (peer E) (fun s => s.fDisconnect = false → Known s) fun _ => True := by
  intro step h hconn _
  rw [after_eq]
  have hknown := h hconn
  intro hd
  by_cases hfirst : FirstVersion E step
  · have hnot : step.before.fSuccessfullyConnected = false := by
      by_contra hne
      exact hknown (by simpa using hne) hfirst.unknown
    by_cases hcut : CutShort E step.nVersion step.call.vRecv
    · exact fun _ => (after_cutShort ⟨hfirst, hcut⟩).2.1
    · have hintro := after_firstVersion hfirst hcut
      generalize fate E step = f at hintro
      cases hintro with
      | thrown hv hc =>
        intro hc'
        rw [hc, hnot] at hc'
        cases hc'
      | rejected hd' => exact absurd (hd'.symm.trans hd) (by decide)
      | handled hv hc he => exact fun _ => hv
  · exact hknown.kept (kept_of_not_firstVersion hfirst)

/-- What happens to the connection of a peer: bytes arrive, messages are processed, or another part
of the program is at work. -/
inductive NodeEvent (W : Type) where
  | receive (pch : List UInt8)
  | poll
  | outside (f : W → W × Bool)

def NodeEvent.event : NodeEvent W → Event (NodeState W)
  | .receive pch => .receive pch
  | .poll => .poll
  | .outside f => .other (NodeState.outside f)

/-- What happens beside bytes and polls is the work of another part. -/
theorem exists_outside {events : List (NodeEvent W)} {step : NodeState W → NodeState W}
    (h : Event.other step ∈ events.map NodeEvent.event) : ∃ f, step = NodeState.outside f := by
  obtain ⟨event, -, he⟩ := List.mem_map.1 h
  cases event with
  | receive pch => cases he
  | poll => cases he
  | outside f =>
    cases he
    exact ⟨f, rfl⟩

section Runs

variable (E : Program W) (Hash : List UInt8 → Vector UInt8 32) (netMessageStart : Vector UInt8 4)

/-- A run from a new connection. -/
def runNode (nRecvVersion : Int32) (s : NodeState W) (events : List (NodeEvent W)) :
    Ran (NodeState W) :=
  run (peer E) Hash netMessageStart ⟨[], nRecvVersion, s⟩ (events.map NodeEvent.event)

/-- The handshake is in order in a run: in every state it is, nothing but `version` is looked at and
no `version` message refused before one has been handled, and one that throws or is rejected leaves
`nVersion` at 0 or ends the connection. -/
structure HandshakeInOrder (r : Ran (NodeState W)) : Prop where
  states : ∀ s, s ∈ r.tests ∨ s = r.node.peer → Handshaken s
  others : ∀ step ∈ r.steps, step.before.fSuccessfullyConnected = false →
    step.call.strCommand ≠ chars "version" → fate E step = .dropped ∨ fate E step = .refused
  first : ∀ step ∈ r.steps, step.before.fSuccessfullyConnected = false →
    step.call.strCommand = chars "version" → fate E step ≠ .refused
  failed : ∀ step ∈ r.steps, step.call.strCommand = chars "version" →
    fate E step = .thrown ∨ fate E step = .rejected →
    (after E step).nVersion = 0 ∨ (after E step).fDisconnect = true

end Runs

variable {Hash : List UInt8 → Vector UInt8 32} {netMessageStart : Vector UInt8 4}

variable (Hash netMessageStart) in
/-- The rule for runs from a new connection. -/
theorem runNode_invariant {I : NodeState W → Prop} {Adm : Step (NodeState W) → Prop}
    (hmsg : KeepsOnMessage (peer E) I Adm) (hkept : ∀ s t, Kept s t → I s → I t)
    (nRecvVersion : Int32) {s : NodeState W} (hs : I s) (events : List (NodeEvent W))
    (hadm : ∀ step ∈ (runNode E Hash netMessageStart nRecvVersion s events).steps, Adm step) :
    ∀ t, t ∈ (runNode E Hash netMessageStart nRecvVersion s events).tests ∨
      t = (runNode E Hash netMessageStart nRecvVersion s events).node.peer → I t := by
  have hother : ∀ step, Event.other step ∈ events.map NodeEvent.event → ∀ s, I s → I (step s) := by
    intro step hstep s hs
    obtain ⟨f, rfl⟩ := exists_outside hstep
    exact hkept _ _ (kept_outside f s) hs
  obtain ⟨htests, hlast⟩ := run_invariant hmsg
    (fun s _ hs => hkept _ _ (kept_perform _ s) hs) (events.map NodeEvent.event)
    ⟨[], nRecvVersion, s⟩ hother hs hadm
  rintro t (ht | rfl)
  · exact htests t ht
  · exact hlast

/-- A peer that is connected and known was so before, or has just been made known. -/
theorem handshakeInOrder (nRecvVersion : Int32) {s : NodeState W} (hs : Handshaken s)
    (events : List (NodeEvent W))
    (hcut : ∀ step ∈ (runNode E Hash netMessageStart nRecvVersion s events).steps,
      ¬CutShortStep E step) :
    HandshakeInOrder E (runNode E Hash netMessageStart nRecvVersion s events) := by
  have hstates := runNode_invariant Hash netMessageStart handshaken_step
    (fun _ _ hk h => Handshaken.kept h hk)
    nRecvVersion hs events hcut
  -- at a step the peer is connected, so that it is not known unless it has been introduced
  have hunknown : ∀ step ∈ (runNode E Hash netMessageStart nRecvVersion s events).steps,
      step.before.fSuccessfullyConnected = false → step.before.nVersion = 0 := by
    intro step hstep hnot
    obtain ⟨hbefore, hconn, -⟩ := run_steps_tested _ step hstep
    by_contra hv
    have hc := (hstates _ (.inl hbefore) hconn hv).1
    rw [hnot] at hc
    cases hc
  refine ⟨hstates, fun step hstep hnot hcommand => ?_, fun step hstep hnot hcommand => ?_,
    fun step hstep hcommand hfate => ?_⟩
  · exact fate_of_not_version hcommand (hunknown step hstep hnot)
  · have h0 := hunknown step hstep hnot
    cases hdrop : (E.dropMessage step.before.world).2 with
    | true =>
      rw [fate_dropped hdrop]
      exact nofun
    | false =>
      have hfirst : FirstVersion E step := ⟨hcommand, h0, hdrop⟩
      have hintro := after_firstVersion hfirst fun hc => hcut step hstep ⟨hfirst, hc⟩
      generalize fate E step = f at hintro
      cases hintro with
      | thrown => exact nofun
      | rejected => exact nofun
      | handled => exact nofun
  · by_cases hfirst : FirstVersion E step
    · have hintro := after_firstVersion hfirst fun hc => hcut step hstep ⟨hfirst, hc⟩
      generalize fate E step = f at hintro hfate
      cases hintro with
      | thrown hv _ => exact .inl hv
      | rejected hd => exact .inr hd
      | handled _ _ _ => rcases hfate with hf | hf <;> cases hf
    · left
      rw [(kept_of_not_firstVersion hfirst).nVersion]
      by_contra hv
      rcases fate_of_known (E := E) hcommand hv with hf | hf <;> rcases hfate with hf' | hf' <;>
        exact absurd (hf.symm.trans hf') (by decide)

end NodeState

/-- **The handshake is in order exactly in the runs in which no `version` message is cut short**:
none that comes first gives a version other than 0 and then ends within another of its fields. -/
theorem handshakes_iff {W : Type} (E : Program W) (Hash : List UInt8 → Vector UInt8 32)
    (netMessageStart : Vector UInt8 4) (nRecvVersion : Int32) (addr : CAddress)
    (fInbound fNetworkNode fOneShot : Bool) (world : W) (events : List (NodeState.NodeEvent W)) :
    NodeState.HandshakeInOrder E (NodeState.runNode E Hash netMessageStart nRecvVersion
        (.new addr fInbound fNetworkNode fOneShot world) events) ↔
      ∀ step ∈ (NodeState.runNode E Hash netMessageStart nRecvVersion
        (.new addr fInbound fNetworkNode fOneShot world) events).steps,
        ¬NodeState.CutShortStep E step := by
  constructor
  · intro h step hstep hcut
    obtain ⟨hbefore, hconn, hafter⟩ := run_steps_tested _ step hstep
    have hknown := NodeState.runNode_invariant Hash netMessageStart NodeState.known_step
      (fun s t hk hs hd => NodeState.Known.kept (hs (by
        by_contra hne
        rw [hk.disconnected (by simpa using hne)] at hd
        cases hd)) hk)
      nRecvVersion (s := .new addr fInbound fNetworkNode fOneShot world)
      (fun _ hc => by cases hc) events (fun _ _ => trivial) _ (.inl hbefore) hconn
    obtain ⟨-, hv, hc⟩ := NodeState.after_cutShort hcut
    have hnot : step.before.fSuccessfullyConnected = false := by
      by_contra hne
      exact hknown (by simpa using hne) hcut.unknown
    have hd : (NodeState.after E step).fDisconnect = false :=
      (congrArg (fun p => p.2.1) hc).trans hconn
    have hconnected := (h.states _ (.inl hafter) hd hv).1
    have hsame : (NodeState.after E step).fSuccessfullyConnected = false :=
      (congrArg Prod.fst hc).trans hnot
    exact absurd (hsame.symm.trans hconnected) (by decide)
  · exact NodeState.handshakeInOrder nRecvVersion (fun _ hv => absurd rfl hv) events

/-- A program that does nothing, with the codecs of `serialize.h` and `protocol.h` for a stream of
version 209: no time in an address, strings and inventories of less than 253 entries. -/
def Program.still : Program Unit where
  perform := fun _ s => (s, false)
  dropMessage := fun s => (s, false)
  nLocalHostNonce := fun _ => 0
  addrmanSize := fun _ => 0
  sendBufferFull := fun _ => false
  fNoListen := false
  address := fun _ =>
    { write := fun a => Codec.uint64.write a.nServices ++ (Codec.bytes 16).write a.ip ++
        [(a.port >>> 8).toUInt8, a.port.toUInt8]
      read := do
        let nServices ← Codec.uint64.read
        let ip ← (Codec.bytes 16).read
        let high ← Codec.uint8.read
        let low ← Codec.uint8.read
        pure ⟨⟨⟨ip⟩, high.toUInt16 <<< 8 ||| low.toUInt16⟩, nServices, 100000000⟩
      thrown := fun a _ => a }
  string :=
    { write := fun l => UInt8.ofNat l.length :: l
      read := do
        let nSize ← Codec.uint8.read
        Parser.many Codec.uint8.read nSize.toNat
      thrown := fun l _ => l }
  vInv :=
    { write := fun l => UInt8.ofNat l.length ::
        l.flatMap fun inv => Codec.int32.write inv.type ++ (Codec.bytes 32).write inv.hash
      read := do
        let nSize ← Codec.uint8.read
        Parser.many (do
          let type ← Codec.int32.read
          let hash ← (Codec.bytes 32).read
          pure ⟨type, hash⟩) nSize.toNat
      thrown := fun l _ => l }
  bool :=
    { write := fun b => [if b then 1 else 0]
      read := do
        let b ← Codec.uint8.read
        pure (b != 0)
      thrown := fun b _ => b }
  NODE_NETWORK := 1
  PROTOCOL_VERSION := 70001
  CADDR_TIME_VERSION := 31402
  MAX_INV_SZ := 50000
  other := fun s _ _ => ⟨s.fRelayTxes, s.fGetAddr, false, (), .handled⟩

theorem sendable_version : CMessageHeader.Sendable (chars "version") :=
  ⟨by decide, by decide, by decide +kernel⟩

/-- A `version` message with nothing but the version 70001. -/
def Message.barelyVersion : Message where
  command := chars "version"
  payload := [0x71, 0x11, 0x01, 0x00]
  sendable := sendable_version
  payload_le := by decide

/-- The message of four bytes makes its sender known. -/
theorem barelyVersion_introduces :
    ¬NodeState.HandshakeInOrder Program.still (NodeState.runNode Program.still sevens mainStart 209
      (.new ⟨⟨⟨Vector.replicate 16 0⟩, 0⟩, 0, 0⟩ true false false ())
      [.receive (Message.barelyVersion.encode sevens mainStart), .poll]) := by
  intro h
  have hlast := h.states _ (.inr rfl) (by decide +kernel) (by decide +kernel)
  exact absurd hlast.1 (by decide +kernel)

end TriTip
