import TriTip.Net.NodeReferences

/-!
# No loop uses a deleted node

Whatever the threads do, in whatever order, the references to the nodes are accounted for
(`Accounted.step`), so a node that is deleted is in no copy of `vNodes` and in no list. A deleted
node can still be used in two places, between steps of a thread that opens a connection:
`ConnectNode` adds its reference when `FindNode` has left `cs_vNodes`, and `OpenNetworkConnection`
marks a new node `fOneShot` after `fNetworkNode`, which lets go of it.
-/

namespace TriTip.NodePool

variable {ι : Type} {s s' : NodePool ι}

/-- The thread is about to use a node that it has no reference to, and that others may let go of. -/
def Opening.Races : Opening → Nat → Prop
  | .found _ pnode, p => p = pnode
  | .marked call pnode true, p => p = pnode ∧ call.fOneShot = true
  | _, _ => False

/-- A step ends well: what it leaves is accounted for, or its thread waits, or a deleted node is
used as `races` says. -/
def Fine (races : Nat → Prop) : Except NodeError (NodePool ι) → Prop
  | .ok s' => ∃ r', Accounted s' r'
  | .error .blocked => True
  | .error (.freed pnode) => races pnode

namespace Accounted

variable {r : Refs} {races : Nat → Prop}

theorem fine (h : Accounted s r) : Fine races (.ok s) := ⟨r, h⟩

theorem fine_FindNode (h : Accounted s r) (p : CNode → Bool)
    {f : Option Nat → Except NodeError (NodePool ι)}
    (hf : ∀ found, (∀ pnode, found = some pnode → pnode ∈ s.vNodes) → Fine races (f found)) :
    Fine races (s.FindNode p s.vNodes >>= f) := by
  obtain ⟨found, hfound, hmem⟩ := FindNode p (s := s) (l := s.vNodes) fun _ hp => h.live_vNodes hp
  rw [hfound]
  exact hf found hmem

/-- What a thread that has a node uses is there. -/
theorem live_opening (h : Accounted s r) {t : ι} {pnode : Nat}
    (huses : (s.opening t).reused = some pnode ∨ (s.opening t).made = some pnode) :
    (s.node pnode).isSome := by
  rcases huses with hreused | hmade
  · exact h.live_found (h.reused t pnode hreused)
  · exact h.live_made hmade

variable [DecidableEq ι]

/-- The next place of a thread that has no node. -/
theorem fine_setOpening (h : Accounted s r) (t : ι) {o : Opening} (hreused : o.reused = none)
    (hmade : o.made = none) : Fine races (.ok (s.setOpening t o)) :=
  (h.setOpening_of_made t o (fun _ hp => nomatch hreused.symm.trans hp)
    fun _ hp => nomatch hmade.symm.trans hp).fine

/-- `ConnectNode` adds a reference to what it has found, if it is still there. -/
theorem fine_found (h : Accounted s r) (t : ι) (call : Call) (pnode : Nat) :
    Fine (· = pnode) (do
      let s ← s.modify addRef pnode
      .ok (s.setOpening t (.connected call pnode false))) := by
  by_cases hlive : (s.node pnode).isSome
  · rw [modify_of_isSome addRef hlive]
    refine ((h.addFound hlive).setOpening_of_made t (.connected call pnode false) (fun p hp => ?_)
      fun p (hp : none = some p) => nomatch hp).fine
    obtain rfl := Option.some.inj hp
    exact (Function.update_self (β := fun _ => Nat) ..).trans_ne (Nat.succ_ne_zero _)
  · rw [Option.not_isSome_iff_eq_none] at hlive
    rw [modify, deref, hlive]
    rfl

/-- A node is made. -/
theorem fine_made (h : Accounted s r) (t : ι) (call : Call) (addr : CService) (addrName : String)
    (drained : Bool) :
    Fine races
      (.ok ((s.push addr addrName false drained).setOpening t (.connected call s.next true))) := by
  refine ((h.push addr addrName false drained).setOpening t (.connected call s.next true)
    (fun p (hp : none = some p) => nomatch hp) fun p hp => ?_).fine
  obtain rfl := Option.some.inj hp
  refine ⟨.inl (Function.update_self ..), fun t' _ hp' => ?_, fun n hn => ?_⟩
  · exact h.not_isSome_next (h.live_made hp')
  · change Function.update s.node s.next _ s.next = some n at hn
    rw [Function.update_self] at hn
    obtain rfl := Option.some.inj hn
    exact ⟨rfl, fun hnetwork => nomatch hnetwork⟩

theorem moveGrant (h : Accounted s r) (t : ι) {pnode : Nat} (hlive : (s.node pnode).isSome) :
    ∃ s', s.moveGrant t pnode = .ok s' ∧ Accounted s' r ∧ s'.opening = s.opening := by
  unfold NodePool.moveGrant
  split
  swap
  · exact ⟨s, rfl, h, rfl⟩
  obtain ⟨n, hn, hderef⟩ := deref_of_isSome hlive
  rw [hderef]
  have hvisited := h.visitNode hlive (f := fun n => { n with grantOutbound := true })
    fun _ => ⟨rfl, rfl, rfl⟩
  rw [hn] at hvisited
  exact ⟨_, rfl, hvisited.setGrant _ _, rfl⟩

/-- From now on the socket handler may give the first reference of the node back. -/
theorem mark (h : Accounted s r) (t : ι) {call : Call} {pnode : Nat} {fNew : Bool}
    (ho : s.opening t = .granted call pnode fNew) :
    Accounted (NodePool.setOpening { s with
        node := Function.update s.node pnode
          ((s.node pnode).map fun n => { n with fNetworkNode := true }) }
      t (.marked call pnode fNew)) r := by
  have hother : ∀ t', t' ≠ t → Function.update s.opening t (.marked call pnode fNew) t' =
      s.opening t' := fun t' ht => Function.update_of_ne ht ..
  refine h.of_isSome_eq (fun p => ?_) rfl rfl rfl (h.kept.congr (fun p => ?_) fun _ => rfl) h.todo
    rfl (fun _ hfound => hfound) (fun t' p hp => ?_) (fun t' p hp => ?_) fun t' p n hp hn => ?_
  · change (Function.update s.node pnode _ p).isSome = _
    by_cases hp : p = pnode
    · rw [hp, Function.update_self, Option.isSome_map]
    · rw [Function.update_of_ne hp]
  · change (Function.update s.node pnode _ p).map CNode.nRefCount = _
    by_cases hp : p = pnode
    · subst hp
      rw [Function.update_self, Option.map_map]
      rfl
    · rw [Function.update_of_ne hp]
  · change (Function.update s.opening t _ t').reused = some p at hp
    by_cases ht : t' = t
    · rw [ht, Function.update_self] at hp
      apply h.reused t p
      rw [ho]
      cases fNew with
      | false => exact hp
      | true => cases hp
    · rw [hother t' ht] at hp
      exact h.reused t' p hp
  · change (Function.update s.opening t _ t').made = some p at hp
    by_cases ht : t' = t
    · rw [ht, Function.update_self] at hp
      cases hp
    · rwa [hother t' ht] at hp
  · change (Function.update s.opening t _ t').made = some p at hp
    change Function.update s.node pnode _ p = some n at hn
    by_cases ht : t' = t
    · rw [ht, Function.update_self] at hp
      cases hp
    rw [hother t' ht] at hp
    by_cases hpnode : p = pnode
    swap
    · rw [Function.update_of_ne hpnode] at hn
      exact h.unmarked t' p n hp hn
    subst hpnode
    rw [Function.update_self] at hn
    obtain ⟨n', hn', rfl⟩ := Option.map_eq_some_iff.1 hn
    refine ⟨(h.unmarked t' p n' hp hn').1, fun _ => ?_⟩
    cases fNew with
    | false => exact h.reused t p (by rw [ho]; rfl)
    | true => exact absurd (h.single t' t p hp (by rw [ho]; rfl)) ht

theorem fine_marked (h : Accounted s r) (t : ι) {call : Call} {pnode : Nat} {fNew : Bool}
    (ho : s.opening t = .marked call pnode fNew) :
    Fine (s.opening t).Races (do
      let s ← if call.fOneShot then s.modify (fun n => { n with fOneShot := true }) pnode else .ok s
      .ok (s.setOpening t .outside)) := by
  by_cases honeShot : call.fOneShot = true
  swap
  · rw [if_neg honeShot]
    exact h.fine_setOpening t rfl rfl
  rw [if_pos honeShot]
  by_cases hlive : (s.node pnode).isSome
  · rw [modify_of_isSome _ hlive]
    have hvisited := h.visitNode hlive (f := fun n => { n with fOneShot := true })
      fun _ => ⟨rfl, rfl, rfl⟩
    exact hvisited.fine_setOpening t rfl rfl
  · have hraces : (s.opening t).Races pnode := by
      rw [ho]
      cases fNew with
      | false => exact absurd (h.live_opening (t := t) (.inl (by rw [ho]; rfl))) hlive
      | true => exact ⟨rfl, honeShot⟩
    rw [Option.not_isSome_iff_eq_none] at hlive
    rw [modify, deref, hlive]
    exact hraces

theorem openStep (h : Accounted s r) (R : NodeRules) (t : ι) (act : OpenAct) :
    Fine (s.opening t).Races (openStep R s t (s.opening t) act) := by
  generalize ho : s.opening t = o
  unfold NodePool.openStep
  split
  · split
    · trivial
    · exact (h.setGrant _ _).fine
  · exact (h.setGrant _ _).fine
  · split <;> exact h.fine_setOpening t rfl rfl
  · split
    · exact h.fine_setOpening t rfl rfl
    · refine h.fine_FindNode _ fun found _ => ?_
      split <;> exact h.fine_setOpening t rfl rfl
  · split
    · exact h.fine_setOpening t rfl rfl
    · refine h.fine_FindNode _ fun found _ => ?_
      split <;> exact h.fine_setOpening t rfl rfl
  · refine h.fine_FindNode _ fun found _ => ?_
    split <;> exact h.fine_setOpening t rfl rfl
  · split
    · exact h.fine_setOpening t rfl rfl
    · refine h.fine_FindNode _ fun found _ => ?_
      cases found with
      | none => exact h.fine_setOpening t rfl rfl
      | some pnode => exact h.fine_setOpening t rfl rfl
  · next call pnode _ =>
    exact h.fine_found t call pnode
  · next call hSocket =>
    cases hSocket with
    | none => exact h.fine_setOpening t rfl rfl
    | some socket => exact h.fine_made t call _ _ _
  · next call pnode fNew _ =>
    have huses : (s.opening t).reused = some pnode ∨ (s.opening t).made = some pnode :=
      ho ▸ Opening.uses_connected call pnode fNew
    obtain ⟨s', hstep, h', hopening⟩ := h.moveGrant t (h.live_opening huses)
    rw [hstep]
    refine (h'.setOpening_of_made t _ (fun p hp => h.reused t p ?_) fun p hp => ?_).fine
    · rwa [ho, ← Opening.reused_granted]
    · rwa [hopening, ho, ← Opening.made_granted]
  · next call pnode fNew _ =>
    have huses : (s.opening t).reused = some pnode ∨ (s.opening t).made = some pnode := by
      rw [ho, Opening.reused_granted, Opening.made_granted]
      exact Opening.uses_connected call pnode fNew
    rw [modify_of_isSome _ (h.live_opening huses)]
    exact (h.mark t ho).fine
  · exact ho ▸ h.fine_marked t ho
  · trivial

end Accounted

/-- The step may use a node that it has no reference to. -/
def Races (s : NodePool ι) : NodeAct ι → Nat → Prop
  | .opening t _, pnode => (s.opening t).Races pnode
  | _, _ => False

namespace Accounted

variable {r : Refs} [DecidableEq ι]

/-- **A step** keeps the references, and uses a deleted node only as `Races` says. -/
theorem step (h : Accounted s r) (R : NodeRules) (act : NodeAct ι) :
    Fine (s.Races act) (step R s act) := by
  cases act with
  | disconnect locked =>
    simp only [NodePool.step]
    split
    · obtain ⟨s', r', hstep, h', -⟩ := h.disconnect locked
      rw [hstep]
      exact h'.fine
    · trivial
  | accept addr fBanned drained =>
    simp only [NodePool.step]
    split
    · obtain ⟨s', r', hstep, h'⟩ := h.accept R addr fBanned drained
      rw [hstep]
      exact h'.fine
    · trivial
  | socketCopy =>
    simp only [NodePool.step]
    split
    · next hout =>
      rw [foldlM_modify (fun _ => addRef) s.vNodes s fun _ hp => h.live_vNodes hp]
      exact (h.socketCopy hout).fine
    · trivial
  | service fDisconnect drained =>
    simp only [NodePool.step]
    split
    · next vNodesCopy pnode todo hover =>
      have htodo : (Pass.over vNodesCopy (pnode :: todo)).WellFormed := hover ▸ h.todo.1
      have hlive : (s.node pnode).isSome := by
        apply h.live_socket
        rw [hover]
        exact htodo pnode List.mem_cons_self
      rw [modify_of_isSome _ hlive]
      have hvisited := h.visitNode hlive (f := visit fDisconnect drained) fun _ => ⟨rfl, rfl, rfl⟩
      exact (hvisited.setTodo (.over vNodesCopy todo) s.messageHandler (by rw [hover]; rfl) rfl
        ⟨fun p hp => htodo p (List.mem_cons_of_mem _ hp), h.todo.2⟩).fine
    · trivial
  | socketRelease =>
    simp only [NodePool.step]
    split
    · next vNodesCopy hover =>
      have hlive : ∀ pnode ∈ vNodesCopy, (s.node pnode).isSome := fun pnode hp =>
        h.live_socket (hover ▸ hp)
      rw [foldlM_modify (fun _ => release) vNodesCopy s hlive]
      exact (h.socketRelease hover).fine
    · trivial
  | messageCopy =>
    simp only [NodePool.step]
    split
    · next hout =>
      rw [foldlM_modify (fun _ => addRef) s.vNodes s fun _ hp => h.live_vNodes hp]
      exact (h.messageCopy hout).fine
    · trivial
  | StartSync =>
    simp only [NodePool.step]
    split
    · next vNodesCopy todo hover =>
      obtain ⟨s', hstep, h'⟩ := h.foldlM_visit (l := vNodesCopy) (f := fun _ => id)
        (fun pnode hp => h.live_message (hover ▸ hp)) fun _ _ => ⟨rfl, rfl, rfl⟩
      rw [hstep]
      exact h'.fine
    · trivial
  | process fDisconnect drained =>
    simp only [NodePool.step]
    split
    · next vNodesCopy pnode todo hover =>
      have htodo : (Pass.over vNodesCopy (pnode :: todo)).WellFormed := hover ▸ h.todo.2
      have hlive : (s.node pnode).isSome := by
        apply h.live_message
        rw [hover]
        exact htodo pnode List.mem_cons_self
      rw [modify_of_isSome _ hlive]
      have hvisited := h.visitNode hlive
        (f := fun n => if n.fDisconnect then n else visit fDisconnect drained n) fun n => by
          split <;> exact ⟨rfl, rfl, rfl⟩
      exact (hvisited.setTodo s.socketHandler (.over vNodesCopy todo) rfl (by rw [hover]; rfl)
        ⟨h.todo.1, fun p hp => htodo p (List.mem_cons_of_mem _ hp)⟩).fine
    · trivial
  | messageRelease =>
    simp only [NodePool.step]
    split
    · next vNodesCopy hover =>
      have hlive : ∀ pnode ∈ vNodesCopy, (s.node pnode).isSome := fun pnode hp =>
        h.live_message (hover ▸ hp)
      rw [foldlM_modify (fun _ => release) vNodesCopy s hlive]
      exact (h.messageRelease hover).fine
    · trivial
  | relay drained =>
    obtain ⟨s', hstep, h'⟩ := h.foldlM_visit (l := s.vNodes)
      (f := fun pnode => visit false (drained pnode)) (fun _ hp => h.live_vNodes hp)
      fun _ _ => ⟨rfl, rfl, rfl⟩
    simp only [NodePool.step]
    rw [hstep]
    exact h'.fine
  | opening t act => exact h.openStep R t act

end Accounted

theorem accounted_new (semOutbound : Nat) :
    Accounted (new (ι := ι) semOutbound) ⟨fun _ => false, fun _ => 0⟩ where
  nodup := List.nodup_nil
  listed pnode := by simp [new]
  below pnode h := by simp [new] at h
  kept := ⟨fun k c hc => by simp [new] at hc, fun k hk => by simp [new, refs, Pass.held] at hk⟩
  created pnode h := by simp [new] at h
  todo := ⟨trivial, trivial⟩
  reused t pnode h := by simp [new, Opening.reused] at h
  made t pnode h := by simp [new, Opening.made] at h
  single t t' pnode h := by simp [new, Opening.made] at h
  unmarked t pnode n h := by simp [new, Opening.made] at h

variable [DecidableEq ι]

theorem accounted_of_run {R : NodeRules} {semOutbound : Nat} {acts : List (NodeAct ι)}
    (hrun : Run.run (step R) (new semOutbound) acts = .ok s) : ∃ r, Accounted s r := by
  refine Run.run_induction (fun _ s => ∃ r, Accounted s r) ⟨_, accounted_new semOutbound⟩
    (fun _ s act s' _ hs hstep => ?_) hrun
  obtain ⟨r, h⟩ := hs
  have hfine := h.step R act
  rwa [hstep] at hfine

/-- **After any steps of the threads, in any order**, what is in `vNodes` or in the copy of a loop
is there, with a count of at least its references, and each node is in one list. A deleted node is
used only by a thread that opens a connection, where it has found it and not added its reference
yet, or where it has made it and marks it `fOneShot`. -/
theorem uses_of_run (R : NodeRules) (semOutbound : Nat) (acts : List (NodeAct ι))
    (s : NodePool ι) (hrun : Run.run (step R) (new semOutbound) acts = .ok s) :
    (∀ pnode, pnode ∈ s.vNodes ∨ pnode ∈ s.socketHandler.held ∨ pnode ∈ s.messageHandler.held →
      ∃ n, s.node pnode = some n ∧
        ((s.socketHandler.held.count pnode + s.messageHandler.held.count pnode : Nat) : Int) ≤
          n.nRefCount) ∧
    (s.vNodes ++ s.vNodesDisconnected).Nodup ∧
    (∀ pnode, (s.node pnode).isSome ↔ pnode ∈ s.vNodes ++ s.vNodesDisconnected) ∧
    ∀ act pnode, step R s act = .error (.freed pnode) → ∃ t next call,
      act = .opening t next ∧ (s.opening t = .found call pnode ∨
        s.opening t = .marked call pnode true ∧ call.fOneShot = true) := by
  obtain ⟨r, h⟩ := accounted_of_run hrun
  refine ⟨fun pnode hp => ?_, h.nodup, h.listed, fun act pnode hfreed => ?_⟩
  · have hlive : (s.node pnode).isSome := by
      rcases hp with hp | hp | hp
      · exact h.live_vNodes hp
      · exact h.live_socket hp
      · exact h.live_message hp
    obtain ⟨n, hn⟩ := Option.isSome_iff_exists.1 hlive
    refine ⟨n, hn, ?_⟩
    have hcount := h.kept.eq pnode n.nRefCount (by rw [hn]; rfl)
    rw [hcount]
    unfold refs
    omega
  · have hfine := h.step R act
    rw [hfreed] at hfine
    cases act with
    | opening t next =>
      change (s.opening t).Races pnode at hfine
      cases ho : s.opening t with
      | found call p =>
        rw [ho] at hfine
        obtain rfl : pnode = p := hfine
        exact ⟨t, next, call, rfl, .inl ho⟩
      | marked call p fNew =>
        rw [ho] at hfine
        cases fNew with
        | false => exact hfine.elim
        | true =>
          obtain ⟨rfl, honeShot⟩ : pnode = p ∧ call.fOneShot = true := hfine
          exact ⟨t, next, call, rfl, .inr ⟨ho, honeShot⟩⟩
      | _ =>
        rw [ho] at hfine
        exact hfine.elim
    | _ => exact hfine.elim

/-! ## Runs -/

def localRules : NodeRules := ⟨125, fun _ name => name, fun _ => ""⟩

def localService : CService := ⟨⟨Vector.replicate 16 0⟩, 8333⟩

/-- A node is disconnected while the message handler goes over it. -/
def disconnectedInUse : List (NodeAct Bool) :=
  [.accept localService false false, .messageCopy, .socketCopy, .service true true, .socketRelease,
    .disconnect fun _ => false]

def poolInUse : NodePool Bool :=
  match Run.run (step localRules) (new 8) disconnectedInUse with
  | .ok s => s
  | .error _ => new 8

theorem uses_of_run_disconnectedInUse :
    poolInUse.vNodes = [] ∧ poolInUse.vNodesDisconnected = [0] ∧ ∃ n, poolInUse.node 0 = some n ∧
      ((poolInUse.socketHandler.held.count 0 + poolInUse.messageHandler.held.count 0 : Nat) : Int) ≤
        n.nRefCount :=
  ⟨rfl, rfl, (uses_of_run localRules 8 disconnectedInUse poolInUse rfl).1 0
    (.inr (.inr List.mem_cons_self))⟩

/-- Whether the last step uses a deleted node. -/
def usesDeleted (acts : List (NodeAct Bool)) : Bool :=
  match Run.run (step localRules) (new 8) acts with
  | .error (.freed _) => true
  | _ => false

/-- A thread finds a node, which is deleted before it adds its reference. -/
example : usesDeleted
    [.opening true (.OpenNetworkConnection ⟨localService, none, false⟩),
      .opening true (.goOn false), .opening true (.goOn false), .accept localService false false,
      .opening true (.goOn false), .socketCopy, .service true true, .socketRelease,
      .disconnect fun _ => false, .opening true (.goOn false)] = true := by
  decide

/-- A thread makes a node, which is deleted before it is marked. -/
example : usesDeleted
    [.opening true (.OpenNetworkConnection ⟨localService, some "seed", true⟩),
      .opening true (.goOn false), .opening true (.ConnectSocket (some (localService, false))),
      .opening true (.goOn false), .opening true (.goOn false), .socketCopy, .service true true,
      .socketRelease, .disconnect fun _ => false, .opening true (.goOn false)] = true := by
  decide

end TriTip.NodePool
