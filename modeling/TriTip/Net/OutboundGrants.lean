import Mathlib.Algebra.BigOperators.Group.Finset.Basic
import TriTip.Net.NodeLifetime

/-!
# The grants of the outbound semaphore

A grant is at the semaphore, with a thread that opens connections, or with a node, and is never lost
or doubled: `MoveTo` gives back what the node had, and a node that is disconnected or deleted gives
back its own. Accepted connections leave room for the outbound ones.
-/

namespace TriTip.NodePool

variable {ι : Type} [Fintype ι] {s s' : NodePool ι} {r : Refs} {R : NodeRules}

/-- All grants there are. -/
def grants (s : NodePool ι) : Nat := s.semOutbound + ∑ t, (s.grant t).toNat + s.granted

def maxInbound (R : NodeRules) : Nat := (R.nMaxConnections - MAX_OUTBOUND_CONNECTIONS).toNat

/-- No grant is lost or made, and no connection is accepted that there is no room for. -/
structure Steady (R : NodeRules) (s s' : NodePool ι) : Prop where
  grants : s'.grants = s.grants
  inbound : s'.inbound ≤ max s.inbound (maxInbound R)

/-- Apart from failures. -/
def Steadily (R : NodeRules) (s : NodePool ι) : Except NodeError (NodePool ι) → Prop
  | .ok s' => Steady R s s'
  | .error _ => True

theorem Between.steady (h : Between s s') : Steady R s s' where
  grants := by
    have hgranted := h.granted
    unfold NodePool.grants
    rw [h.grant]
    omega
  inbound := h.inbound.trans (Nat.le_max_left _ _)

/-- What is the same of each node, and of the lists, the threads and the semaphore. -/
theorem steady_of_node (f : Nat → CNode → CNode)
    (hf : ∀ pnode n, (f pnode n).grantOutbound = n.grantOutbound ∧
      (f pnode n).fInbound = n.fInbound)
    (hnode : ∀ pnode, s'.node pnode = (s.node pnode).map (f pnode))
    (hvNodes : s'.vNodes = s.vNodes) (hpool : s'.vNodesDisconnected = s.vNodesDisconnected)
    (hgrant : s'.grant = s.grant) (hsem : s'.semOutbound = s.semOutbound) : Steady R s s' := by
  have hgranted : s'.granted = s.granted := by
    unfold granted
    rw [hvNodes, hpool]
    refine List.countP_congr fun pnode _ => ?_
    rw [hnode]
    cases s.node pnode with
    | none => exact Iff.rfl
    | some n => simp [(hf pnode n).1]
  have hinbound : s'.inbound = s.inbound := by
    unfold inbound
    rw [hvNodes]
    refine List.countP_congr fun pnode _ => ?_
    rw [hnode]
    cases s.node pnode with
    | none => exact Iff.rfl
    | some n => simp [(hf pnode n).2]
  refine ⟨?_, hinbound ▸ Nat.le_max_left _ _⟩
  unfold grants
  rw [hsem, hgrant, hgranted]

theorem Steady.refl (s : NodePool ι) : Steady R s s :=
  steady_of_node (fun _ n => n) (fun _ _ => ⟨rfl, rfl⟩) (fun pnode => by cases s.node pnode <;> rfl)
    rfl rfl rfl rfl

/-- Where a thread is says nothing about grants. -/
theorem Steady.setOpening [DecidableEq ι] (h : Steady R s s') (t : ι) (o : Opening) :
    Steady R s (s'.setOpening t o) := ⟨h.grants, h.inbound⟩

theorem iterate_keeps {α β : Type*} {f : α → α} {g : α → β} (hf : ∀ a, g (f a) = g a) (k : Nat)
    (a : α) : g (f^[k] a) = g a := by
  induction k generalizing a with
  | zero => rfl
  | succ k ih => rw [Function.iterate_succ_apply, ih, hf]

/-- A loop over nodes that changes neither their grants nor what they are. -/
theorem steady_iterate {f : Nat → CNode → CNode}
    (hf : ∀ pnode n, (f pnode n).grantOutbound = n.grantOutbound ∧
      (f pnode n).fInbound = n.fInbound) (l : List Nat)
    (hnode : ∀ pnode, s'.node pnode = (s.node pnode).map (f pnode)^[l.count pnode])
    (hvNodes : s'.vNodes = s.vNodes) (hpool : s'.vNodesDisconnected = s.vNodesDisconnected)
    (hgrant : s'.grant = s.grant) (hsem : s'.semOutbound = s.semOutbound) : Steady R s s' := by
  refine steady_of_node (fun pnode => (f pnode)^[l.count pnode]) (fun pnode n => ⟨?_, ?_⟩) hnode
    hvNodes hpool hgrant hsem
  · exact iterate_keeps (g := CNode.grantOutbound) (fun n => (hf pnode n).1) _ n
  · exact iterate_keeps (g := CNode.fInbound) (fun n => (hf pnode n).2) _ n

/-- A use of one node that changes neither its grant nor what it is. -/
theorem steadily_modify {f : CNode → CNode}
    (hf : ∀ n, (f n).grantOutbound = n.grantOutbound ∧ (f n).fInbound = n.fInbound)
    (pnode : Nat) (g : NodePool ι → NodePool ι)
    (hg : ∀ s, (g s).node = s.node ∧ (g s).vNodes = s.vNodes ∧
      (g s).vNodesDisconnected = s.vNodesDisconnected ∧ (g s).grant = s.grant ∧
      (g s).semOutbound = s.semOutbound) :
    Steadily R s (do
      let s ← modify f s pnode
      .ok (g s)) := by
  by_cases hlive : (s.node pnode).isSome
  swap
  · rw [Option.not_isSome_iff_eq_none] at hlive
    rw [modify, deref, hlive]
    trivial
  rw [modify_of_isSome f hlive]
  obtain ⟨hnode, hvNodes, hpool, hgrant, hsem⟩ := hg
    { s with node := Function.update s.node pnode ((s.node pnode).map f) }
  refine steady_iterate (f := fun _ => f) (fun _ => hf) [pnode] (fun p => ?_) hvNodes hpool hgrant
    hsem
  rw [hnode]
  by_cases hp : p = pnode
  · subst hp
    simp
  · simp [hp, Ne.symm hp]

/-- A new node has no grant. -/
theorem Accounted.steady_push (h : Accounted s r) (addr : CService) (addrName : String)
    (fInbound drained : Bool) (hroom : fInbound = true → s.inbound < maxInbound R) :
    Steady R s (s.push addr addrName fInbound drained) := by
  have hother : ∀ pnode, (s.node pnode).isSome →
      (s.push addr addrName fInbound drained).node pnode = s.node pnode := by
    intro pnode hlive
    refine Function.update_of_ne (fun hp => ?_) ..
    exact h.not_isSome_next (hp ▸ hlive)
  have hself : (s.push addr addrName fInbound drained).node s.next =
      some ⟨addr, addrName, fInbound, 1, false, false, false, drained, false⟩ :=
    Function.update_self ..
  constructor
  · have hgranted : (s.push addr addrName fInbound drained).granted = s.granted := by
      unfold granted
      change (s.vNodes ++ [s.next] ++ s.vNodesDisconnected).countP _ = _
      simp only [List.countP_append, List.countP_singleton, hself, Option.any_some,
        Bool.false_eq_true, if_false, Nat.add_zero]
      congr 1 <;> refine List.countP_congr fun pnode hp => ?_
      · rw [hother pnode (h.live_vNodes hp)]
      · rw [hother pnode ((h.listed pnode).2 (List.mem_append_right _ hp))]
    unfold grants
    rw [hgranted]
    rfl
  · have hinbound : (s.push addr addrName fInbound drained).inbound =
        s.inbound + fInbound.toNat := by
      unfold inbound
      change (s.vNodes ++ [s.next]).countP _ = _
      rw [List.countP_append, List.countP_singleton, hself, Option.any_some]
      congr 1
      · refine List.countP_congr fun pnode hp => ?_
        rw [hother pnode (h.live_vNodes hp)]
      · cases fInbound <;> rfl
    rw [hinbound]
    cases fInbound with
    | false => exact Nat.le_max_left _ _
    | true => exact (hroom rfl).trans_le (Nat.le_max_right _ _)

theorem Accounted.steadily_accept (h : Accounted s r) (addr : CService) (fBanned drained : Bool) :
    Steadily R s (s.accept R addr fBanned drained) := by
  obtain ⟨nodes, hnodes, hcounts⟩ := mapM_deref (s := s) (l := s.vNodes) fun _ hp =>
    h.live_vNodes hp
  have hcount : nodes.countP (·.fInbound) = s.inbound := hcounts _
  unfold NodePool.accept
  rw [hnodes]
  simp only [bind, Except.bind]
  split
  · exact Steady.refl s
  · next hroom =>
    split
    · exact Steady.refl s
    · refine h.steady_push _ _ true _ fun _ => ?_
      rw [hcount] at hroom
      unfold maxInbound
      omega

/-! ## Opening a connection -/

variable [DecidableEq ι]

theorem sum_update (grant : ι → Bool) (t : ι) (b : Bool) :
    (∑ t', (Function.update grant t b t').toNat) + (grant t).toNat =
      ∑ t', (grant t').toNat + b.toNat := by
  have herase : ∀ f : ι → Bool, ∑ t', (f t').toNat =
      (f t).toNat + ∑ t' ∈ Finset.univ.erase t, (f t').toNat := fun f =>
    (Finset.add_sum_erase _ (fun t' => (f t').toNat) (Finset.mem_univ t)).symm
  have hrest : ∑ t' ∈ Finset.univ.erase t, (Function.update grant t b t').toNat =
      ∑ t' ∈ Finset.univ.erase t, (grant t').toNat :=
    Finset.sum_congr rfl fun t' ht => by rw [Function.update_of_ne (Finset.ne_of_mem_erase ht)]
  rw [herase, herase grant, hrest, Function.update_self]
  omega

/-- `MoveTo` gives back what the node had. -/
theorem Accounted.steady_moveGrant (h : Accounted s r) (t : ι) {pnode : Nat}
    (hlive : (s.node pnode).isSome) : ∃ s', s.moveGrant t pnode = .ok s' ∧ Steady R s s' := by
  unfold NodePool.moveGrant
  split
  swap
  · exact ⟨s, rfl, .refl s⟩
  next hgrant =>
  obtain ⟨n, hn, hderef⟩ := deref_of_isSome hlive
  rw [hderef]
  refine ⟨_, rfl, ?_, ?_⟩
  · have hcount := countP_update h.nodup ((h.listed pnode).1 hlive)
      (f := fun p => (Function.update s.node pnode (some { n with grantOutbound := true }) p).any
        (·.grantOutbound))
      (g := fun p => (s.node p).any (·.grantOutbound))
      fun p hp => by rw [Function.update_of_ne hp]
    have hsum := sum_update s.grant t false
    rw [hgrant] at hsum
    simp only [Function.update_self, Option.any_some, hn, Bool.toNat_true] at hcount
    simp only [Bool.toNat_true, Bool.toNat_false] at hsum
    change s.semOutbound + n.grantOutbound.toNat +
      (∑ t', (Function.update s.grant t false t').toNat) +
      (s.vNodes ++ s.vNodesDisconnected).countP (fun p =>
        (Function.update s.node pnode (some { n with grantOutbound := true }) p).any
          (·.grantOutbound)) = s.semOutbound + ∑ t', (s.grant t').toNat + s.granted
    unfold granted
    omega
  · refine le_trans (le_of_eq (List.countP_congr fun p _ => ?_)) (Nat.le_max_left _ _)
    change (Function.update s.node pnode _ p).any _ = true ↔ _
    by_cases hp : p = pnode
    · subst hp
      rw [Function.update_self, hn]
      rfl
    · rw [Function.update_of_ne hp]

omit [DecidableEq ι] in
theorem steadily_FindNode (p : CNode → Bool) {f : Option Nat → NodePool ι}
    (hf : ∀ found, Steady R s (f found)) :
    Steadily R s (do
      let found ← s.FindNode p s.vNodes
      .ok (f found)) := by
  cases s.FindNode p s.vNodes with
  | error e => trivial
  | ok found => exact hf found

theorem Accounted.steadily_openStep (h : Accounted s r) (t : ι) (act : OpenAct) :
    Steadily R s (NodePool.openStep R s t (s.opening t) act) := by
  have hlive : ∀ call pnode fNew, s.opening t = .connected call pnode fNew →
      (s.node pnode).isSome := by
    intro call pnode fNew ho
    exact h.live_opening (t := t) (ho ▸ Opening.uses_connected call pnode fNew)
  generalize ho : s.opening t = o at hlive
  unfold NodePool.openStep
  split
  · split
    · trivial
    · next hacquire =>
      refine ⟨?_, Nat.le_max_left _ _⟩
      have hsum := sum_update s.grant t true
      rw [Bool.or_eq_true, not_or, decide_eq_true_eq, Bool.not_eq_true] at hacquire
      rw [hacquire.1] at hsum
      simp only [Bool.toNat_true, Bool.toNat_false] at hsum
      change s.semOutbound - 1 + (∑ t', (Function.update s.grant t true t').toNat) + s.granted =
        s.semOutbound + ∑ t', (s.grant t').toNat + s.granted
      omega
  · refine ⟨?_, Nat.le_max_left _ _⟩
    have hsum := sum_update s.grant t false
    simp only [Bool.toNat_false] at hsum
    change s.semOutbound + (s.grant t).toNat +
      (∑ t', (Function.update s.grant t false t').toNat) + s.granted =
      s.semOutbound + ∑ t', (s.grant t').toNat + s.granted
    omega
  · exact (Steady.refl s).setOpening t _
  · split
    · exact (Steady.refl s).setOpening t _
    · exact steadily_FindNode _ fun _ => (Steady.refl s).setOpening t _
  · split
    · exact (Steady.refl s).setOpening t _
    · exact steadily_FindNode _ fun _ => (Steady.refl s).setOpening t _
  · exact steadily_FindNode _ fun _ => (Steady.refl s).setOpening t _
  · split
    · exact (Steady.refl s).setOpening t _
    · next call _ _ =>
      cases hfound : s.FindNode (·.addr = call.addrConnect) s.vNodes with
      | error e => trivial
      | ok found => cases found <;> exact (Steady.refl s).setOpening t _
  · exact steadily_modify (f := addRef) (fun _ => ⟨rfl, rfl⟩) _ (·.setOpening t _) fun _ =>
      ⟨rfl, rfl, rfl, rfl, rfl⟩
  · next call hSocket =>
    cases hSocket with
    | none => exact (Steady.refl s).setOpening t _
    | some socket =>
      exact (h.steady_push _ _ false _ fun hfalse => nomatch hfalse).setOpening t _
  · next call pnode fNew _ =>
    obtain ⟨s', hstep, hsteady⟩ := h.steady_moveGrant (R := R) t (hlive call pnode fNew rfl)
    rw [hstep]
    exact hsteady.setOpening t _
  · exact steadily_modify (f := fun n => { n with fNetworkNode := true }) (fun _ => ⟨rfl, rfl⟩) _
      (·.setOpening t _) fun _ => ⟨rfl, rfl, rfl, rfl, rfl⟩
  · split
    · exact steadily_modify (f := fun n => { n with fOneShot := true }) (fun _ => ⟨rfl, rfl⟩) _
        (·.setOpening t _) fun _ => ⟨rfl, rfl, rfl, rfl, rfl⟩
    · exact (Steady.refl s).setOpening t _
  · trivial

theorem Accounted.steadily_step (h : Accounted s r) (act : NodeAct ι) :
    Steadily R s (NodePool.step R s act) := by
  cases act with
  | disconnect locked =>
    simp only [NodePool.step]
    split
    · obtain ⟨s', r', hstep, -, hbetween⟩ := h.disconnect locked
      rw [hstep]
      exact hbetween.steady
    · trivial
  | accept addr fBanned drained =>
    simp only [NodePool.step]
    split
    · exact h.steadily_accept addr fBanned drained
    · trivial
  | socketCopy =>
    simp only [NodePool.step]
    split
    · rw [foldlM_modify (fun _ => addRef) s.vNodes s fun _ hp => h.live_vNodes hp]
      exact steady_iterate (f := fun _ => addRef) (fun _ _ => ⟨rfl, rfl⟩) s.vNodes (fun _ => rfl)
        rfl rfl rfl rfl
    · trivial
  | service fDisconnect drained =>
    simp only [NodePool.step]
    split
    · next vNodesCopy pnode todo hover =>
      exact steadily_modify (f := visit fDisconnect drained) (fun _ => ⟨rfl, rfl⟩) pnode
        ({ · with socketHandler := .over vNodesCopy todo }) fun _ => ⟨rfl, rfl, rfl, rfl, rfl⟩
    · trivial
  | socketRelease =>
    simp only [NodePool.step]
    split
    · next vNodesCopy hover =>
      have hlive : ∀ pnode ∈ vNodesCopy, (s.node pnode).isSome := fun pnode hp =>
        h.live_socket (hover ▸ hp)
      rw [foldlM_modify (fun _ => release) vNodesCopy s hlive]
      exact steady_iterate (f := fun _ => release) (fun _ _ => ⟨rfl, rfl⟩) vNodesCopy
        (fun _ => rfl) rfl rfl rfl rfl
    · trivial
  | messageCopy =>
    simp only [NodePool.step]
    split
    · rw [foldlM_modify (fun _ => addRef) s.vNodes s fun _ hp => h.live_vNodes hp]
      exact steady_iterate (f := fun _ => addRef) (fun _ _ => ⟨rfl, rfl⟩) s.vNodes (fun _ => rfl)
        rfl rfl rfl rfl
    · trivial
  | StartSync =>
    simp only [NodePool.step]
    split
    · next vNodesCopy todo hover =>
      have hlive : ∀ pnode ∈ vNodesCopy, (s.node pnode).isSome := fun pnode hp =>
        h.live_message (hover ▸ hp)
      rw [foldlM_modify (fun _ => id) vNodesCopy s hlive]
      exact steady_iterate (f := fun _ => id) (fun _ _ => ⟨rfl, rfl⟩) vNodesCopy (fun _ => rfl)
        rfl rfl rfl rfl
    · trivial
  | process fDisconnect drained =>
    simp only [NodePool.step]
    split
    · next vNodesCopy pnode todo hover =>
      refine steadily_modify
        (f := fun n => if n.fDisconnect then n else visit fDisconnect drained n) (fun n => ?_) pnode
        ({ · with messageHandler := .over vNodesCopy todo }) fun _ => ⟨rfl, rfl, rfl, rfl, rfl⟩
      split <;> exact ⟨rfl, rfl⟩
    · trivial
  | messageRelease =>
    simp only [NodePool.step]
    split
    · next vNodesCopy hover =>
      have hlive : ∀ pnode ∈ vNodesCopy, (s.node pnode).isSome := fun pnode hp =>
        h.live_message (hover ▸ hp)
      rw [foldlM_modify (fun _ => release) vNodesCopy s hlive]
      exact steady_iterate (f := fun _ => release) (fun _ _ => ⟨rfl, rfl⟩) vNodesCopy
        (fun _ => rfl) rfl rfl rfl rfl
    · trivial
  | relay drained =>
    simp only [NodePool.step]
    rw [foldlM_modify (fun pnode => visit false (drained pnode)) s.vNodes s fun _ hp =>
      h.live_vNodes hp]
    exact steady_iterate (f := fun pnode => visit false (drained pnode)) (fun _ _ => ⟨rfl, rfl⟩)
      s.vNodes (fun _ => rfl) rfl rfl rfl rfl
  | opening t act => exact h.steadily_openStep t act

/-- **After any steps of the threads, in any order**, the grants that are left, those that threads
have acquired and those of nodes are together the grants there were, and no more nodes have
connected to us than leaves room for the outbound ones. -/
theorem grants_of_run (R : NodeRules) (semOutbound : Nat) (acts : List (NodeAct ι))
    (s : NodePool ι) (hrun : Run.run (step R) (new semOutbound) acts = .ok s) :
    s.semOutbound + ∑ t, (s.grant t).toNat + s.granted = semOutbound ∧
      s.inbound ≤ (R.nMaxConnections - MAX_OUTBOUND_CONNECTIONS).toNat := by
  refine Run.run_induction (fun _ s => s.grants = semOutbound ∧ s.inbound ≤ maxInbound R) ?_
    (fun ops s act s' hops hs hstep => ?_) hrun
  · simp [new, grants, granted, inbound]
  · obtain ⟨r, h⟩ := accounted_of_run hops
    have hsteady : Steadily R s (step R s act) := h.steadily_step act
    rw [hstep] at hsteady
    exact ⟨hsteady.grants.trans hs.1, hsteady.inbound.trans (max_le hs.2 (Nat.le_refl _))⟩

/-- A thread acquires a grant, connects, and moves it to the node. -/
def connecting : List (NodeAct Bool) :=
  [.opening true .acquire,
    .opening true (.OpenNetworkConnection ⟨localService, some "seed", false⟩),
    .opening true (.goOn false), .opening true (.ConnectSocket (some (localService, false))),
    .opening true (.goOn false)]

def poolConnected : NodePool Bool :=
  match Run.run (step localRules) (new 8) connecting with
  | .ok s => s
  | .error _ => new 8

theorem grants_of_run_connecting :
    poolConnected.semOutbound = 7 ∧ poolConnected.granted = 1 ∧
      poolConnected.semOutbound + ∑ t, (poolConnected.grant t).toNat + poolConnected.granted = 8 :=
  ⟨rfl, rfl, (grants_of_run localRules 8 connecting poolConnected rfl).1⟩

end TriTip.NodePool
