import TriTip.Lib.References
import TriTip.Net.NodePool

/-!
# The references to a node

The count of a node is the number of references to it: the one of its creation, until the socket
handler has given it back, one for each place in the copies of the two loops, and those that
`ConnectNode` has added to a node it found, which nobody gives back (`Accounted`). What each thread
does keeps it so.
-/

namespace TriTip.NodePool

open References

variable {ι : Type} {s s' : NodePool ι}

/-- The references that no loop holds: whether the one of its creation is there, and how many
`ConnectNode` has added to a node that it has found. -/
structure Refs where
  created : Nat → Bool
  found : Nat → Nat

/-- What the loop has added references to. -/
def Pass.held : Pass → List Nat
  | .outside => []
  | .over vNodesCopy _ => vNodesCopy

def Pass.WellFormed : Pass → Prop
  | .outside => True
  | .over vNodesCopy todo => ∀ pnode ∈ todo, pnode ∈ vNodesCopy

/-- The node that the thread has made, before it is marked. -/
def Opening.made : Opening → Option Nat
  | .connected _ pnode true => some pnode
  | .granted _ pnode true => some pnode
  | _ => none

/-- The node that the thread has found and added a reference to. -/
def Opening.reused : Opening → Option Nat
  | .connected _ pnode false => some pnode
  | .granted _ pnode false => some pnode
  | .marked _ pnode false => some pnode
  | _ => none

/-- From `ConnectNode` on, the thread keeps the node it has made or found until it is marked. -/
theorem Opening.uses_connected (call : Call) (pnode : Nat) (fNew : Bool) :
    (connected call pnode fNew).reused = some pnode ∨
      (connected call pnode fNew).made = some pnode := by
  cases fNew with
  | false => exact .inl rfl
  | true => exact .inr rfl

theorem Opening.reused_granted (call : Call) (pnode : Nat) (fNew : Bool) :
    (granted call pnode fNew).reused = (connected call pnode fNew).reused := by
  cases fNew <;> rfl

theorem Opening.made_granted (call : Call) (pnode : Nat) (fNew : Bool) :
    (granted call pnode fNew).made = (connected call pnode fNew).made := by
  cases fNew <;> rfl

def refs (s : NodePool ι) (r : Refs) (pnode : Nat) : Nat :=
  (r.created pnode).toNat + r.found pnode + s.socketHandler.held.count pnode +
    s.messageHandler.held.count pnode

/-- Each node is in one list, its count is the number of its references, and what a thread that
opens connections has made or found is kept by a reference. -/
structure Accounted (s : NodePool ι) (r : Refs) : Prop where
  nodup : (s.vNodes ++ s.vNodesDisconnected).Nodup
  listed : ∀ pnode, (s.node pnode).isSome ↔ pnode ∈ s.vNodes ++ s.vNodesDisconnected
  below : ∀ pnode, (s.node pnode).isSome → pnode < s.next
  kept : Kept (fun pnode => (s.node pnode).map CNode.nRefCount) (s.refs r)
  created : ∀ pnode ∈ s.vNodes, r.created pnode = true
  todo : s.socketHandler.WellFormed ∧ s.messageHandler.WellFormed
  reused : ∀ t pnode, (s.opening t).reused = some pnode → r.found pnode ≠ 0
  made : ∀ t pnode, (s.opening t).made = some pnode →
    r.created pnode = true ∨ r.found pnode ≠ 0
  single : ∀ t t' pnode, (s.opening t).made = some pnode → (s.opening t').made = some pnode →
    t = t'
  unmarked : ∀ t pnode n, (s.opening t).made = some pnode → s.node pnode = some n →
    n.fInbound = false ∧ (n.fNetworkNode = true → r.found pnode ≠ 0)

/-- The grants that nodes have. -/
def granted (s : NodePool ι) : Nat :=
  (s.vNodes ++ s.vNodesDisconnected).countP fun pnode => (s.node pnode).any (·.grantOutbound)

def inbound (s : NodePool ι) : Nat := s.vNodes.countP fun pnode => (s.node pnode).any (·.fInbound)

/-- What the socket handler does with the nodes leaves the threads where they are, and the grants of
the nodes that go can be acquired again. -/
structure Between (s s' : NodePool ι) : Prop where
  opening : s'.opening = s.opening
  socketHandler : s'.socketHandler = s.socketHandler
  messageHandler : s'.messageHandler = s.messageHandler
  grant : s'.grant = s.grant
  granted : s'.semOutbound + s'.granted = s.semOutbound + s.granted
  inbound : s'.inbound ≤ s.inbound

theorem Between.refl (s : NodePool ι) : Between s s := ⟨rfl, rfl, rfl, rfl, rfl, Nat.le_refl _⟩

theorem Between.trans {s s' s'' : NodePool ι} (h : Between s s') (h' : Between s' s'') :
    Between s s'' := ⟨h'.opening.trans h.opening, h'.socketHandler.trans h.socketHandler,
  h'.messageHandler.trans h.messageHandler, h'.grant.trans h.grant, h'.granted.trans h.granted,
  h'.inbound.trans h.inbound⟩

/-- Two counts that differ in one place. -/
theorem countP_update {l : List Nat} {pnode : Nat} (hl : l.Nodup) (hmem : pnode ∈ l)
    {f g : Nat → Bool} (hfg : ∀ p, p ≠ pnode → f p = g p) :
    l.countP f + (g pnode).toNat = l.countP g + (f pnode).toNat := by
  have hperm := List.perm_cons_erase hmem
  have hrest : (l.erase pnode).countP f = (l.erase pnode).countP g := by
    refine List.countP_congr fun p hp => ?_
    rw [hfg p (hl.mem_erase_iff.1 hp).1]
  rw [hperm.countP_eq f, hperm.countP_eq g, List.countP_cons, List.countP_cons, hrest]
  cases f pnode <;> cases g pnode <;> simp

namespace Accounted

variable {r : Refs}

theorem live (h : Accounted s r) {pnode : Nat} (hrefs : s.refs r pnode ≠ 0) :
    (s.node pnode).isSome := by
  have := h.kept.live pnode hrefs
  rwa [Option.isSome_map] at this

theorem live_vNodes (h : Accounted s r) {pnode : Nat} (hmem : pnode ∈ s.vNodes) :
    (s.node pnode).isSome := (h.listed pnode).2 (List.mem_append_left _ hmem)

theorem live_socket (h : Accounted s r) {pnode : Nat} (hmem : pnode ∈ s.socketHandler.held) :
    (s.node pnode).isSome := by
  have := List.count_pos_iff.2 hmem
  apply h.live
  unfold refs
  omega

theorem live_message (h : Accounted s r) {pnode : Nat} (hmem : pnode ∈ s.messageHandler.held) :
    (s.node pnode).isSome := by
  have := List.count_pos_iff.2 hmem
  apply h.live
  unfold refs
  omega

theorem live_found (h : Accounted s r) {pnode : Nat} (hfound : r.found pnode ≠ 0) :
    (s.node pnode).isSome := by
  apply h.live
  unfold refs
  omega

theorem live_made (h : Accounted s r) {t : ι} {pnode : Nat}
    (hmade : (s.opening t).made = some pnode) : (s.node pnode).isSome := by
  rcases h.made t pnode hmade with hcreated | hfound
  · apply h.live
    unfold refs
    rw [hcreated]
    simp
  · exact h.live_found hfound

/-- The lists of nodes stay as they are. -/
theorem of_isSome_eq (h : Accounted s r) {r' : Refs}
    (hsome : ∀ pnode, (s'.node pnode).isSome = (s.node pnode).isSome)
    (hnext : s'.next = s.next) (hvNodes : s'.vNodes = s.vNodes)
    (hpool : s'.vNodesDisconnected = s.vNodesDisconnected)
    (hkept : Kept (fun pnode => (s'.node pnode).map CNode.nRefCount) (s'.refs r'))
    (htodo : s'.socketHandler.WellFormed ∧ s'.messageHandler.WellFormed)
    (hcreated : r'.created = r.created) (hfound : ∀ pnode, r.found pnode ≠ 0 → r'.found pnode ≠ 0)
    (hreused : ∀ t pnode, (s'.opening t).reused = some pnode → r'.found pnode ≠ 0)
    (hmade : ∀ t pnode, (s'.opening t).made = some pnode → (s.opening t).made = some pnode)
    (hunmarked : ∀ t pnode n, (s'.opening t).made = some pnode → s'.node pnode = some n →
      n.fInbound = false ∧ (n.fNetworkNode = true → r'.found pnode ≠ 0)) :
    Accounted s' r' where
  nodup := by
    rw [hvNodes, hpool]
    exact h.nodup
  listed pnode := by
    rw [hsome, hvNodes, hpool]
    exact h.listed pnode
  below pnode hlive := by
    rw [hnext]
    exact h.below pnode (hsome pnode ▸ hlive)
  kept := hkept
  created := by
    rw [hvNodes, hcreated]
    exact h.created
  todo := htodo
  reused := hreused
  made t pnode hp := by
    rw [hcreated]
    exact (h.made t pnode (hmade t pnode hp)).imp_right (hfound pnode)
  single t t' pnode hp hp' := h.single t t' pnode (hmade t pnode hp) (hmade t' pnode hp')
  unmarked := hunmarked

/-- The references change, and nothing else that is read here of a node. -/
theorem recount (h : Accounted s r) {r' : Refs} (count : Nat → Int → Int)
    (hnode : ∀ pnode, s'.node pnode =
      (s.node pnode).map fun n => { n with nRefCount := count pnode n.nRefCount })
    (hnext : s'.next = s.next) (hvNodes : s'.vNodes = s.vNodes)
    (hpool : s'.vNodesDisconnected = s.vNodesDisconnected)
    (hkept : Kept (fun pnode => ((s.node pnode).map CNode.nRefCount).map (count pnode))
      (s'.refs r'))
    (htodo : s'.socketHandler.WellFormed ∧ s'.messageHandler.WellFormed)
    (hcreated : r'.created = r.created) (hfound : ∀ pnode, r.found pnode ≠ 0 → r'.found pnode ≠ 0)
    (hreused : ∀ t pnode, (s'.opening t).reused = some pnode → r'.found pnode ≠ 0)
    (hmade : ∀ t pnode, (s'.opening t).made = some pnode → (s.opening t).made = some pnode) :
    Accounted s' r' := by
  refine h.of_isSome_eq (fun pnode => ?_) hnext hvNodes hpool (hkept.congr (fun pnode => ?_)
    fun _ => rfl) htodo hcreated hfound hreused hmade fun t pnode n hp hn => ?_
  · rw [hnode, Option.isSome_map]
  · rw [hnode, Option.map_map, Option.map_map]
    rfl
  · rw [hnode] at hn
    obtain ⟨n', hn', rfl⟩ := Option.map_eq_some_iff.1 hn
    have hunmarked := h.unmarked t pnode n' (hmade t pnode hp) hn'
    exact ⟨hunmarked.1, fun hnetwork => hfound pnode (hunmarked.2 hnetwork)⟩

/-- What a visit changes is not read here. -/
theorem visited (h : Accounted s r) {f : Nat → CNode → CNode}
    (hf : ∀ pnode n, (f pnode n).nRefCount = n.nRefCount ∧ (f pnode n).fInbound = n.fInbound ∧
      (f pnode n).fNetworkNode = n.fNetworkNode)
    (hnode : ∀ pnode, s'.node pnode = (s.node pnode).map (f pnode))
    (hnext : s'.next = s.next) (hvNodes : s'.vNodes = s.vNodes)
    (hpool : s'.vNodesDisconnected = s.vNodesDisconnected)
    (hsocket : s'.socketHandler.held = s.socketHandler.held)
    (hmessage : s'.messageHandler.held = s.messageHandler.held)
    (htodo : s'.socketHandler.WellFormed ∧ s'.messageHandler.WellFormed)
    (hreused : ∀ t pnode, (s'.opening t).reused = some pnode → r.found pnode ≠ 0)
    (hmade : ∀ t pnode, (s'.opening t).made = some pnode → (s.opening t).made = some pnode) :
    Accounted s' r := by
  refine h.of_isSome_eq (fun pnode => ?_) hnext hvNodes hpool (h.kept.congr (fun pnode => ?_)
    fun pnode => ?_) htodo rfl (fun _ hfound => hfound) hreused hmade fun t pnode n hp hn => ?_
  · rw [hnode, Option.isSome_map]
  · rw [hnode, Option.map_map]
    exact congrArg (Option.map · (s.node pnode)) (funext fun n => (hf pnode n).1)
  · rw [refs, refs, hsocket, hmessage]
  · rw [hnode] at hn
    obtain ⟨n', hn', rfl⟩ := Option.map_eq_some_iff.1 hn
    rw [(hf pnode n').2.1, (hf pnode n').2.2]
    exact h.unmarked t pnode n' (hmade t pnode hp) hn'

end Accounted

/-! ## Going over nodes -/

theorem deref_of_isSome {pnode : Nat} (h : (s.node pnode).isSome) :
    ∃ n, s.node pnode = some n ∧ s.deref pnode = .ok n := by
  obtain ⟨n, hn⟩ := Option.isSome_iff_exists.1 h
  exact ⟨n, hn, by rw [deref, hn]⟩

theorem modify_of_isSome (f : CNode → CNode) {pnode : Nat} (h : (s.node pnode).isSome) :
    modify f s pnode =
      .ok { s with node := Function.update s.node pnode ((s.node pnode).map f) } := by
  obtain ⟨n, hn, hderef⟩ := deref_of_isSome h
  rw [modify, hderef, hn]
  rfl

/-- **A loop over nodes that are there** does to each what it does, as often as it is met. -/
theorem foldlM_modify (f : Nat → CNode → CNode) (l : List Nat) (s : NodePool ι)
    (h : ∀ pnode ∈ l, (s.node pnode).isSome) :
    l.foldlM (fun s pnode => modify (f pnode) s pnode) s =
      .ok { s with node := fun pnode => (s.node pnode).map (f pnode)^[l.count pnode] } := by
  induction l generalizing s with
  | nil => simp [pure, Except.pure]
  | cons p l ih =>
    have hrest : ∀ pnode ∈ l,
        (Function.update s.node p ((s.node p).map (f p)) pnode).isSome := by
      intro pnode hmem
      by_cases hp : pnode = p
      · rw [hp, Function.update_self, Option.isSome_map]
        exact h p List.mem_cons_self
      · rw [Function.update_of_ne hp]
        exact h pnode (List.mem_cons_of_mem _ hmem)
    rw [List.foldlM_cons, modify_of_isSome (f p) (h p List.mem_cons_self)]
    have := ih { s with node := Function.update s.node p ((s.node p).map (f p)) } hrest
    simp only [bind, Except.bind]
    rw [this]
    congr 2
    funext pnode
    by_cases hp : pnode = p
    · subst hp
      simp [Option.map_map, Function.iterate_succ]
    · simp [Function.update_of_ne hp, List.count_cons_of_ne (Ne.symm hp)]

theorem addRef_iterate (k : Nat) (n : CNode) :
    addRef^[k] n = { n with nRefCount := n.nRefCount + (k : Int) } := by
  induction k generalizing n with
  | zero => simp
  | succ k ih =>
    rw [Function.iterate_succ_apply, ih, addRef]
    simp only [CNode.mk.injEq, true_and, and_true]
    omega

theorem release_iterate (k : Nat) (n : CNode) :
    release^[k] n = { n with nRefCount := n.nRefCount - (k : Int) } := by
  induction k generalizing n with
  | zero => simp
  | succ k ih =>
    rw [Function.iterate_succ_apply, ih, release]
    simp only [CNode.mk.injEq, true_and, and_true]
    omega

theorem map_addRef_iterate (k : Nat) (n : Option CNode) :
    n.map addRef^[k] = n.map fun n => { n with nRefCount := n.nRefCount + (k : Int) } := by
  cases n with
  | none => rfl
  | some n => exact congrArg some (addRef_iterate k n)

theorem map_release_iterate (k : Nat) (n : Option CNode) :
    n.map release^[k] = n.map fun n => { n with nRefCount := n.nRefCount - (k : Int) } := by
  cases n with
  | none => rfl
  | some n => exact congrArg some (release_iterate k n)

namespace Accounted

variable {r : Refs}

/-- One turn of a loop over a copy. -/
theorem visitNode (h : Accounted s r) {pnode : Nat} (hlive : (s.node pnode).isSome)
    {f : CNode → CNode} (hf : ∀ n, (f n).nRefCount = n.nRefCount ∧ (f n).fInbound = n.fInbound ∧
      (f n).fNetworkNode = n.fNetworkNode) :
    Accounted { s with node := Function.update s.node pnode ((s.node pnode).map f) } r := by
  refine h.visited (f := fun p n => if p = pnode then f n else n) (fun p n => ?_) (fun p => ?_) rfl
    rfl rfl rfl rfl h.todo h.reused fun _ _ hp => hp
  · by_cases hp : p = pnode
    · simpa [hp] using hf n
    · simp [hp]
  · change Function.update s.node pnode _ p = _
    by_cases hp : p = pnode
    · subst hp
      simp
    · simp [hp]

/-- Going over nodes with a visit to each. -/
theorem foldlM_visit (h : Accounted s r) {l : List Nat}
    (hl : ∀ pnode ∈ l, (s.node pnode).isSome) {f : Nat → CNode → CNode}
    (hf : ∀ pnode n, (f pnode n).nRefCount = n.nRefCount ∧ (f pnode n).fInbound = n.fInbound ∧
      (f pnode n).fNetworkNode = n.fNetworkNode) :
    ∃ s', l.foldlM (fun s pnode => modify (f pnode) s pnode) s = .ok s' ∧ Accounted s' r := by
  refine ⟨_, foldlM_modify f l s hl, h.visited (f := fun pnode => (f pnode)^[l.count pnode])
    (fun pnode n => ?_) (fun _ => rfl) rfl rfl rfl rfl rfl h.todo h.reused fun _ _ hp => hp⟩
  generalize l.count pnode = k
  induction k generalizing n with
  | zero => exact ⟨rfl, rfl, rfl⟩
  | succ k ih =>
    rw [Function.iterate_succ_apply]
    obtain ⟨hcount, hinbound, hnetwork⟩ := ih (f pnode n)
    obtain ⟨hcount', hinbound', hnetwork'⟩ := hf pnode n
    exact ⟨hcount.trans hcount', hinbound.trans hinbound', hnetwork.trans hnetwork'⟩

theorem setTodo (h : Accounted s r) (socketHandler messageHandler : Pass)
    (hsocket : socketHandler.held = s.socketHandler.held)
    (hmessage : messageHandler.held = s.messageHandler.held)
    (htodo : socketHandler.WellFormed ∧ messageHandler.WellFormed) :
    Accounted { s with socketHandler, messageHandler } r := by
  refine h.visited (f := fun _ n => n) (fun _ _ => ⟨rfl, rfl, rfl⟩) (fun _ => ?_) rfl rfl rfl
    hsocket hmessage htodo h.reused fun _ _ hp => hp
  cases s.node _ <;> rfl

theorem setGrant (h : Accounted s r) (grant : ι → Bool) (semOutbound : Nat) :
    Accounted { s with grant, semOutbound } r :=
  ⟨h.nodup, h.listed, h.below, h.kept, h.created, h.todo, h.reused, h.made, h.single, h.unmarked⟩

/-- A loop adds a reference to each node. -/
theorem socketCopy (h : Accounted s r) (hout : s.socketHandler = .outside) :
    Accounted { s with
      node := fun pnode => (s.node pnode).map addRef^[s.vNodes.count pnode]
      socketHandler := .over s.vNodes s.vNodes } r := by
  refine h.recount (fun pnode c => c + (s.vNodes.count pnode : Int))
    (fun pnode => map_addRef_iterate _ _) rfl rfl rfl ?_ ⟨fun _ hp => hp, h.todo.2⟩ rfl
    (fun _ hfound => hfound) h.reused fun _ _ hp => hp
  refine (h.kept.add (l := s.vNodes) fun pnode hmem => ?_).congr (fun _ => rfl) fun pnode => ?_
  · rw [Option.isSome_map]
    exact h.live_vNodes hmem
  · simp only [refs, hout, Pass.held, List.count_nil]
    omega

theorem messageCopy (h : Accounted s r) (hout : s.messageHandler = .outside) :
    Accounted { s with
      node := fun pnode => (s.node pnode).map addRef^[s.vNodes.count pnode]
      messageHandler := .over s.vNodes s.vNodes } r := by
  refine h.recount (fun pnode c => c + (s.vNodes.count pnode : Int))
    (fun pnode => map_addRef_iterate _ _) rfl rfl rfl ?_ ⟨h.todo.1, fun _ hp => hp⟩ rfl
    (fun _ hfound => hfound) h.reused fun _ _ hp => hp
  refine (h.kept.add (l := s.vNodes) fun pnode hmem => ?_).congr (fun _ => rfl) fun pnode => ?_
  · rw [Option.isSome_map]
    exact h.live_vNodes hmem
  · simp only [refs, hout, Pass.held, List.count_nil]
    omega

/-- A loop gives its references back. -/
theorem socketRelease (h : Accounted s r) {vNodesCopy : List Nat}
    (hover : s.socketHandler = .over vNodesCopy []) :
    Accounted { s with
      node := fun pnode => (s.node pnode).map release^[vNodesCopy.count pnode]
      socketHandler := .outside } r := by
  refine h.recount (fun pnode c => c - (vNodesCopy.count pnode : Int))
    (fun pnode => map_release_iterate _ _) rfl rfl rfl ?_ ⟨trivial, h.todo.2⟩ rfl
    (fun _ hfound => hfound) h.reused fun _ _ hp => hp
  apply Kept.remove (l := vNodesCopy)
  refine h.kept.congr (fun _ => rfl) fun pnode => ?_
  simp only [refs, hover, Pass.held, List.count_nil]
  omega

theorem messageRelease (h : Accounted s r) {vNodesCopy : List Nat}
    (hover : s.messageHandler = .over vNodesCopy []) :
    Accounted { s with
      node := fun pnode => (s.node pnode).map release^[vNodesCopy.count pnode]
      messageHandler := .outside } r := by
  refine h.recount (fun pnode c => c - (vNodesCopy.count pnode : Int))
    (fun pnode => map_release_iterate _ _) rfl rfl rfl ?_ ⟨h.todo.1, trivial⟩ rfl
    (fun _ hfound => hfound) h.reused fun _ _ hp => hp
  apply Kept.remove (l := vNodesCopy)
  refine h.kept.congr (fun _ => rfl) fun pnode => ?_
  simp only [refs, hover, Pass.held, List.count_nil]
  omega

/-- `ConnectNode` adds a reference that is not given back. -/
theorem addFound (h : Accounted s r) {pnode : Nat} (hlive : (s.node pnode).isSome) :
    Accounted { s with node := Function.update s.node pnode ((s.node pnode).map addRef) }
      { r with found := Function.update r.found pnode (r.found pnode + 1) } := by
  have hmono : ∀ p, r.found p ≠ 0 →
      Function.update r.found pnode (r.found pnode + 1) p ≠ 0 := by
    intro p hp
    by_cases hpnode : p = pnode
    · rw [hpnode, Function.update_self]
      exact Nat.succ_ne_zero _
    · rwa [Function.update_of_ne hpnode]
  refine h.recount (fun p c => c + ([pnode].count p : Int)) (fun p => ?_) rfl rfl rfl ?_ h.todo rfl
    hmono (fun t p hp => hmono p (h.reused t p hp)) fun _ _ hp => hp
  · change Function.update s.node pnode ((s.node pnode).map addRef) p = _
    by_cases hp : p = pnode
    · subst hp
      rw [Function.update_self, List.count_singleton_self]
      rfl
    · rw [Function.update_of_ne hp, List.count_singleton, if_neg (by simpa using Ne.symm hp)]
      simp
  · refine (h.kept.add (l := [pnode]) fun p hp => ?_).congr (fun _ => rfl) fun p => ?_
    · rw [List.mem_singleton.1 hp, Option.isSome_map]
      exact hlive
    · by_cases hp : p = pnode
      · subst hp
        simp only [refs, Function.update_self, List.count_singleton_self]
        omega
      · simp only [refs, Function.update_of_ne hp, List.count_singleton,
          beq_iff_eq, if_neg (Ne.symm hp), Nat.add_zero]

/-- A thread goes on. -/
theorem setOpening [DecidableEq ι] (h : Accounted s r) (t : ι) (o : Opening)
    (hreused : ∀ pnode, o.reused = some pnode → r.found pnode ≠ 0)
    (hmade : ∀ pnode, o.made = some pnode →
      (r.created pnode = true ∨ r.found pnode ≠ 0) ∧
      (∀ t', t' ≠ t → (s.opening t').made ≠ some pnode) ∧
      ∀ n, s.node pnode = some n →
        n.fInbound = false ∧ (n.fNetworkNode = true → r.found pnode ≠ 0)) :
    Accounted (s.setOpening t o) r where
  nodup := h.nodup
  listed := h.listed
  below := h.below
  kept := h.kept
  created := h.created
  todo := h.todo
  reused t' pnode hp := by
    change (Function.update s.opening t o t').reused = some pnode at hp
    by_cases ht : t' = t
    · rw [ht, Function.update_self] at hp
      exact hreused pnode hp
    · rw [Function.update_of_ne ht] at hp
      exact h.reused t' pnode hp
  made t' pnode hp := by
    change (Function.update s.opening t o t').made = some pnode at hp
    by_cases ht : t' = t
    · rw [ht, Function.update_self] at hp
      exact (hmade pnode hp).1
    · rw [Function.update_of_ne ht] at hp
      exact h.made t' pnode hp
  single t' t'' pnode hp hp' := by
    change (Function.update s.opening t o t').made = some pnode at hp
    change (Function.update s.opening t o t'').made = some pnode at hp'
    by_cases ht : t' = t
    · by_cases ht' : t'' = t
      · rw [ht, ht']
      · rw [ht, Function.update_self] at hp
        rw [Function.update_of_ne ht'] at hp'
        exact absurd hp' ((hmade pnode hp).2.1 t'' ht')
    · rw [Function.update_of_ne ht] at hp
      by_cases ht' : t'' = t
      · rw [ht', Function.update_self] at hp'
        exact absurd hp ((hmade pnode hp').2.1 t' ht)
      · rw [Function.update_of_ne ht'] at hp'
        exact h.single t' t'' pnode hp hp'
  unmarked t' pnode n hp hn := by
    change (Function.update s.opening t o t').made = some pnode at hp
    by_cases ht : t' = t
    · rw [ht, Function.update_self] at hp
      exact (hmade pnode hp).2.2 n hn
    · rw [Function.update_of_ne ht] at hp
      exact h.unmarked t' pnode n hp hn

/-- A thread goes on and makes nothing. -/
theorem setOpening_of_made [DecidableEq ι] (h : Accounted s r) (t : ι) (o : Opening)
    (hreused : ∀ pnode, o.reused = some pnode → r.found pnode ≠ 0)
    (hmade : ∀ pnode, o.made = some pnode → (s.opening t).made = some pnode) :
    Accounted (s.setOpening t o) r :=
  h.setOpening t o hreused fun pnode hp => ⟨h.made t pnode (hmade pnode hp),
    fun t' ht' hp' => ht' (h.single t' t pnode hp' (hmade pnode hp)),
    fun n hn => h.unmarked t pnode n (hmade pnode hp) hn⟩

theorem not_isSome_next (h : Accounted s r) : ¬(s.node s.next).isSome :=
  fun hlive => Nat.lt_irrefl _ (h.below s.next hlive)

/-- A new node has its first reference. -/
theorem push (h : Accounted s r) (addr : CService) (addrName : String) (fInbound drained : Bool) :
    Accounted (s.push addr addrName fInbound drained)
      { r with created := Function.update r.created s.next true } := by
  have hzero : s.refs r s.next = 0 := by
    by_contra hrefs
    exact h.not_isSome_next (h.live hrefs)
  have hlive : ∀ t pnode, (s.opening t).made = some pnode → pnode ≠ s.next := by
    intro t pnode hp hpnode
    exact h.not_isSome_next (hpnode ▸ h.live_made hp)
  have hcreated : ∀ pnode, r.created pnode = true →
      Function.update r.created s.next true pnode = true := by
    intro pnode hp
    by_cases hpnode : pnode = s.next
    · rw [hpnode, Function.update_self]
    · rwa [Function.update_of_ne hpnode]
  have hnotMem : s.next ∉ s.vNodes ++ s.vNodesDisconnected :=
    fun hmem => h.not_isSome_next ((h.listed s.next).2 hmem)
  have hperm : (s.vNodes ++ [s.next] ++ s.vNodesDisconnected).Perm
      (s.next :: (s.vNodes ++ s.vNodesDisconnected)) := by
    rw [List.append_assoc, List.singleton_append]
    exact List.perm_middle
  refine ⟨?_, fun pnode => ?_, fun pnode hp => ?_, ?_, fun pnode hp => ?_, h.todo, h.reused,
    fun t pnode hp => (h.made t pnode hp).imp_left (hcreated pnode), h.single,
    fun t pnode n hp hn => ?_⟩
  · exact hperm.nodup_iff.2 (List.nodup_cons.2 ⟨hnotMem, h.nodup⟩)
  · change (Function.update s.node s.next _ pnode).isSome ↔
      pnode ∈ s.vNodes ++ [s.next] ++ s.vNodesDisconnected
    rw [hperm.mem_iff, List.mem_cons]
    by_cases hp : pnode = s.next
    · simp [hp]
    · rw [Function.update_of_ne hp, h.listed]
      simp [hp]
  · change (Function.update s.node s.next _ pnode).isSome at hp
    change pnode < s.next + 1
    by_cases hpnode : pnode = s.next
    · omega
    · rw [Function.update_of_ne hpnode] at hp
      exact Nat.lt_succ_of_lt (h.below pnode hp)
  · refine (h.kept.update s.next (c := 1) (n := 1) rfl).congr (fun pnode => ?_) fun pnode => ?_
    · change (Function.update s.node s.next _ pnode).map CNode.nRefCount = _
      by_cases hp : pnode = s.next
      · subst hp
        rw [Function.update_self, Function.update_self]
        rfl
      · rw [Function.update_of_ne hp, Function.update_of_ne hp]
    · change (Function.update r.created s.next true pnode).toNat + r.found pnode +
        s.socketHandler.held.count pnode + s.messageHandler.held.count pnode = _
      by_cases hp : pnode = s.next
      · subst hp
        unfold refs at hzero
        rw [Function.update_self, Function.update_self, Bool.toNat_true]
        omega
      · rw [Function.update_of_ne hp, Function.update_of_ne hp]
        rfl
  · rcases List.mem_append.1 hp with hp | hp
    · exact hcreated pnode (h.created pnode hp)
    · obtain rfl := List.mem_singleton.1 hp
      exact Function.update_self ..
  · change Function.update s.node s.next _ pnode = some n at hn
    rw [Function.update_of_ne (hlive t pnode hp)] at hn
    exact h.unmarked t pnode n hp hn

theorem moved_perm {vNodes : List Nat} (pool : List Nat) {pnode : Nat} (hmem : pnode ∈ vNodes)
    (hnodup : vNodes.Nodup) :
    (vNodes.filter (· ≠ pnode) ++ (pool ++ [pnode])).Perm (vNodes ++ pool) := by
  have herase : vNodes.filter (· ≠ pnode) = vNodes.erase pnode := by
    rw [hnodup.erase_eq_filter]
    congr 1
    funext p
    by_cases hp : p = pnode <;> simp [hp]
  have hback : (vNodes.erase pnode ++ [pnode]).Perm vNodes :=
    (List.perm_append_singleton _ _).trans (List.perm_cons_erase hmem).symm
  have hcomm : (pool ++ [pnode]).Perm ([pnode] ++ pool) := List.perm_append_comm
  rw [herase]
  refine (hcomm.append_left _).trans ?_
  rw [← List.append_assoc]
  exact hback.append_right pool

theorem moveToPool (h : Accounted s r) {pnode : Nat} (hmem : pnode ∈ s.vNodes) {n : CNode}
    (hn : s.node pnode = some n) :
    Accounted (s.moveToPool pnode n)
      { r with created := Function.update r.created pnode !(n.fNetworkNode || n.fInbound) } := by
  have hcreated := h.created pnode hmem
  have hperm := moved_perm s.vNodesDisconnected hmem h.nodup.of_append_left
  refine ⟨hperm.nodup_iff.2 h.nodup, fun p => ?_, fun p hp => ?_, ?_, fun p hp => ?_, h.todo,
    h.reused, fun t p hp => ?_, h.single, fun t p n' hp hn' => ?_⟩
  · change (Function.update s.node pnode _ p).isSome ↔
      p ∈ s.vNodes.filter (· ≠ pnode) ++ (s.vNodesDisconnected ++ [pnode])
    rw [hperm.mem_iff, ← h.listed]
    by_cases hp : p = pnode
    · simp [hp, hn]
    · rw [Function.update_of_ne hp]
  · change (Function.update s.node pnode _ p).isSome at hp
    by_cases hpnode : p = pnode
    · rw [hpnode]
      exact h.below pnode (h.live_vNodes hmem)
    · rw [Function.update_of_ne hpnode] at hp
      exact h.below p hp
  · have hrefs := h.kept.eq pnode n.nRefCount (by rw [hn]; rfl)
    have hpos : s.refs r pnode ≠ 0 := by
      unfold refs
      rw [hcreated, Bool.toNat_true]
      omega
    have hcount : (if n.fNetworkNode || n.fInbound then n.nRefCount - 1 else n.nRefCount) =
        (s.refs r pnode - (n.fNetworkNode || n.fInbound).toNat : Nat) := by
      cases n.fNetworkNode || n.fInbound with
      | false => simpa using hrefs
      | true =>
        simp only [if_true, Bool.toNat_true]
        omega
    refine (h.kept.update pnode hcount).congr (fun p => ?_) fun p => ?_
    · change (Function.update s.node pnode _ p).map CNode.nRefCount = _
      by_cases hp : p = pnode
      · subst hp
        rw [Function.update_self, Function.update_self]
        rfl
      · rw [Function.update_of_ne hp, Function.update_of_ne hp]
    · change (Function.update r.created pnode (!(n.fNetworkNode || n.fInbound)) p).toNat +
        r.found p + s.socketHandler.held.count p + s.messageHandler.held.count p = _
      by_cases hp : p = pnode
      · subst hp
        rw [Function.update_self, Function.update_self, refs, hcreated]
        cases n.fNetworkNode || n.fInbound with
        | false =>
          simp only [Bool.not_false, Bool.toNat_true, Bool.toNat_false]
          omega
        | true =>
          simp only [Bool.not_true, Bool.toNat_true, Bool.toNat_false]
          omega
      · rw [Function.update_of_ne hp, Function.update_of_ne hp]
        rfl
  · obtain ⟨hp, hne⟩ := List.mem_filter.1 hp
    change Function.update r.created pnode _ p = true
    rw [Function.update_of_ne (by simpa using hne)]
    exact h.created p hp
  · change Function.update r.created pnode _ p = true ∨ r.found p ≠ 0
    by_cases hpnode : p = pnode
    · subst hpnode
      obtain ⟨hinbound, hnetwork⟩ := h.unmarked t p n hp hn
      rw [Function.update_self, hinbound, Bool.or_false]
      cases hset : n.fNetworkNode with
      | false => exact .inl rfl
      | true => exact .inr (hnetwork hset)
    · rw [Function.update_of_ne hpnode]
      exact h.made t p hp
  · change Function.update s.node pnode _ p = some n' at hn'
    by_cases hpnode : p = pnode
    · subst hpnode
      rw [Function.update_self] at hn'
      obtain rfl := Option.some.inj hn'
      exact h.unmarked t p n hp hn
    · rw [Function.update_of_ne hpnode] at hn'
      exact h.unmarked t p n' hp hn'

theorem between_moveToPool (h : Accounted s r) {pnode : Nat} (hmem : pnode ∈ s.vNodes) {n : CNode}
    (hn : s.node pnode = some n) : Between s (s.moveToPool pnode n) := by
  have hperm := moved_perm s.vNodesDisconnected hmem h.nodup.of_append_left
  refine ⟨rfl, rfl, rfl, rfl, ?_, ?_⟩
  · have hcount := countP_update h.nodup (List.mem_append_left _ hmem)
      (f := fun p => ((s.moveToPool pnode n).node p).any (·.grantOutbound))
      (g := fun p => (s.node p).any (·.grantOutbound)) fun p hp => by
        change (Function.update s.node pnode _ p).any _ = _
        rw [Function.update_of_ne hp]
    have hnone : ((s.moveToPool pnode n).node pnode).any (·.grantOutbound) = false := by
      change (Function.update s.node pnode _ pnode).any _ = _
      rw [Function.update_self]
      rfl
    have hsome : (s.node pnode).any (·.grantOutbound) = n.grantOutbound := by
      rw [hn]
      rfl
    rw [hnone, hsome, ← hperm.countP_eq] at hcount
    change s.semOutbound + n.grantOutbound.toNat + (s.moveToPool pnode n).granted = _
    change (s.moveToPool pnode n).granted + _ = s.granted + 0 at hcount
    omega
  · refine le_trans (le_of_eq (List.countP_congr fun p hp => ?_))
      List.filter_sublist.countP_le
    have hne : p ≠ pnode := by simpa using (List.mem_filter.1 hp).2
    change (Function.update s.node pnode _ p).any _ = true ↔ _
    rw [Function.update_of_ne hne]

/-- **A node is disconnected** if nobody uses it or its thread wants it so. -/
theorem disconnectNode (h : Accounted s r) {pnode : Nat} (hmem : pnode ∈ s.vNodes) :
    ∃ s' r', s.disconnectNode pnode = .ok s' ∧ Accounted s' r' ∧ Between s s' ∧
      ∀ p ∈ s.vNodes, p ≠ pnode → p ∈ s'.vNodes := by
  obtain ⟨n, hn, hderef⟩ := deref_of_isSome (h.live_vNodes hmem)
  unfold NodePool.disconnectNode
  rw [hderef]
  by_cases hunused : (n.fDisconnect || (decide (n.nRefCount ≤ 0) && n.drained)) = true
  · exact ⟨_, _, if_pos hunused, h.moveToPool hmem hn, h.between_moveToPool hmem hn,
      fun p hp hne => List.mem_filter.2 ⟨hp, by simpa using hne⟩⟩
  · exact ⟨s, r, if_neg hunused, h, .refl s, fun p hp _ => hp⟩

theorem not_mem_vNodes (h : Accounted s r) {pnode : Nat} (hmem : pnode ∈ s.vNodesDisconnected) :
    pnode ∉ s.vNodes := fun hp => (List.nodup_append.1 h.nodup).2.2 pnode hp pnode hmem rfl

theorem delete (h : Accounted s r) {pnode : Nat} (hmem : pnode ∈ s.vNodesDisconnected) {n : CNode}
    (hn : s.node pnode = some n) (hunused : n.nRefCount ≤ 0) : Accounted (s.delete pnode n) r := by
  have hcount : (s.node pnode).map CNode.nRefCount = some n.nRefCount := by
    rw [hn]
    rfl
  have hzero : s.refs r pnode = 0 := by
    have := h.kept.eq pnode n.nRefCount hcount
    omega
  have hne : ∀ t p, (s.opening t).made = some p → p ≠ pnode := by
    intro t p hp hpnode
    unfold refs at hzero
    rcases h.made t p hp with hcreated | hfound
    · rw [← hpnode, hcreated, Bool.toNat_true] at hzero
      omega
    · rw [← hpnode] at hzero
      omega
  refine ⟨h.nodup.sublist (List.filter_sublist.append_left _), fun p => ?_, fun p hp => ?_,
    (h.kept.delete hcount hunused).congr (fun p => ?_) fun _ => rfl,
    h.created, h.todo, h.reused, h.made, h.single, fun t p n' hp hn' => ?_⟩
  · change (Function.update s.node pnode none p).isSome ↔
      p ∈ s.vNodes ++ s.vNodesDisconnected.filter (· ≠ pnode)
    by_cases hp : p = pnode
    · subst hp
      simp [h.not_mem_vNodes hmem]
    · rw [Function.update_of_ne hp, h.listed]
      simp [hp]
  · change (Function.update s.node pnode none p).isSome at hp
    by_cases hpnode : p = pnode
    · rw [hpnode, Function.update_self] at hp
      cases hp
    · rw [Function.update_of_ne hpnode] at hp
      exact h.below p hp
  · change (Function.update s.node pnode none p).map CNode.nRefCount = _
    by_cases hp : p = pnode
    · subst hp
      rw [Function.update_self, Function.update_self]
      rfl
    · rw [Function.update_of_ne hp, Function.update_of_ne hp]
  · change Function.update s.node pnode none p = some n' at hn'
    rw [Function.update_of_ne (hne t p hp)] at hn'
    exact h.unmarked t p n' hp hn'

theorem between_delete (h : Accounted s r) {pnode : Nat} (hmem : pnode ∈ s.vNodesDisconnected)
    {n : CNode} (hn : s.node pnode = some n) : Between s (s.delete pnode n) := by
  have hother : ∀ p, p ≠ pnode → (s.delete pnode n).node p = s.node p :=
    fun p hp => Function.update_of_ne hp ..
  refine ⟨rfl, rfl, rfl, rfl, ?_, le_of_eq (List.countP_congr fun p hp => ?_)⟩
  · have hpool : s.vNodesDisconnected.filter (· ≠ pnode) = s.vNodesDisconnected.erase pnode := by
      rw [h.nodup.of_append_right.erase_eq_filter]
      congr 1
      funext p
      by_cases hp : p = pnode <;> simp [hp]
    have hperm : (s.vNodes ++ s.vNodesDisconnected).Perm
        (pnode :: (s.vNodes ++ s.vNodesDisconnected.filter (· ≠ pnode))) := by
      rw [hpool]
      exact ((List.perm_cons_erase hmem).append_left _).trans List.perm_middle
    have hrest : (s.delete pnode n).granted =
        (s.vNodes ++ s.vNodesDisconnected.filter (· ≠ pnode)).countP
          fun p => (s.node p).any (·.grantOutbound) := by
      refine List.countP_congr fun p hp => ?_
      rw [hother p]
      rintro rfl
      exact (List.nodup_cons.1 (hperm.nodup_iff.1 h.nodup)).1 hp
    change s.semOutbound + n.grantOutbound.toNat + (s.delete pnode n).granted = _
    rw [hrest, granted, hperm.countP_eq, List.countP_cons, hn, Option.any_some]
    cases n.grantOutbound with
    | false =>
      simp only [Bool.toNat_false, Bool.false_eq_true, if_false]
      omega
    | true =>
      simp only [Bool.toNat_true, if_true]
      omega
  · rw [hother p fun hpnode => h.not_mem_vNodes hmem (hpnode ▸ hp)]

/-- **A node is deleted** if nobody refers to it. -/
theorem deleteNode (h : Accounted s r) (locked : Nat → Bool) {pnode : Nat}
    (hmem : pnode ∈ s.vNodesDisconnected) :
    ∃ s', s.deleteNode locked pnode = .ok s' ∧ Accounted s' r ∧ Between s s' ∧
      ∀ p ∈ s.vNodesDisconnected, p ≠ pnode → p ∈ s'.vNodesDisconnected := by
  obtain ⟨n, hn, hderef⟩ := deref_of_isSome
    ((h.listed pnode).2 (List.mem_append_right _ hmem))
  unfold NodePool.deleteNode
  rw [hderef]
  by_cases hunused : (decide (n.nRefCount ≤ 0) && !locked pnode) = true
  · have hle : n.nRefCount ≤ 0 := of_decide_eq_true (Bool.and_eq_true_iff.1 hunused).1
    exact ⟨_, if_pos hunused, h.delete hmem hn hle, h.between_delete hmem hn,
      fun p hp hne => List.mem_filter.2 ⟨hp, by simpa using hne⟩⟩
  · exact ⟨s, if_neg hunused, h, .refl s, fun p hp _ => hp⟩

theorem disconnectNodes {l : List Nat} (hl : l.Nodup) (h : Accounted s r)
    (hmem : ∀ pnode ∈ l, pnode ∈ s.vNodes) :
    ∃ s' r', l.foldlM NodePool.disconnectNode s = .ok s' ∧ Accounted s' r' ∧ Between s s' := by
  induction l generalizing s r with
  | nil => exact ⟨s, r, rfl, h, .refl s⟩
  | cons pnode l ih =>
    obtain ⟨hout, hl⟩ := List.nodup_cons.1 hl
    obtain ⟨s', r', hstep, h', hbetween, hstay⟩ := h.disconnectNode (hmem pnode List.mem_cons_self)
    obtain ⟨s'', r'', hrest, h'', hbetween'⟩ := ih hl h' fun p hp =>
      hstay p (hmem p (List.mem_cons_of_mem _ hp)) fun hpnode => hout (hpnode ▸ hp)
    refine ⟨s'', r'', ?_, h'', hbetween.trans hbetween'⟩
    rw [List.foldlM_cons, hstep]
    exact hrest

theorem deleteNodes (locked : Nat → Bool) {l : List Nat} (hl : l.Nodup) (h : Accounted s r)
    (hmem : ∀ pnode ∈ l, pnode ∈ s.vNodesDisconnected) :
    ∃ s', l.foldlM (NodePool.deleteNode locked) s = .ok s' ∧ Accounted s' r ∧ Between s s' := by
  induction l generalizing s with
  | nil => exact ⟨s, rfl, h, .refl s⟩
  | cons pnode l ih =>
    obtain ⟨hout, hl⟩ := List.nodup_cons.1 hl
    obtain ⟨s', hstep, h', hbetween, hstay⟩ :=
      h.deleteNode locked (hmem pnode List.mem_cons_self)
    obtain ⟨s'', hrest, h'', hbetween'⟩ := ih hl h' fun p hp =>
      hstay p (hmem p (List.mem_cons_of_mem _ hp)) fun hpnode => hout (hpnode ▸ hp)
    refine ⟨s'', ?_, h'', hbetween.trans hbetween'⟩
    rw [List.foldlM_cons, hstep]
    exact hrest

theorem disconnect (h : Accounted s r) (locked : Nat → Bool) :
    ∃ s' r', s.disconnect locked = .ok s' ∧ Accounted s' r' ∧ Between s s' := by
  obtain ⟨s', r', hstep, h', hbetween⟩ :=
    h.disconnectNodes h.nodup.of_append_left fun _ hp => hp
  obtain ⟨s'', hrest, h'', hbetween'⟩ :=
    h'.deleteNodes locked h'.nodup.of_append_right fun _ hp => hp
  refine ⟨s'', r', ?_, h'', hbetween.trans hbetween'⟩
  unfold NodePool.disconnect
  rw [hstep]
  exact hrest

theorem mapM_deref {l : List Nat} (hl : ∀ pnode ∈ l, (s.node pnode).isSome) :
    ∃ nodes, l.mapM s.deref = .ok nodes ∧
      ∀ p : CNode → Bool, nodes.countP p = l.countP fun pnode => (s.node pnode).any p := by
  induction l with
  | nil => exact ⟨[], rfl, fun _ => rfl⟩
  | cons pnode l ih =>
    obtain ⟨n, hn, hderef⟩ := deref_of_isSome (hl pnode List.mem_cons_self)
    obtain ⟨nodes, hnodes, hcount⟩ := ih fun p hp => hl p (List.mem_cons_of_mem _ hp)
    refine ⟨n :: nodes, by rw [List.mapM_cons, hderef, hnodes]; rfl, fun p => ?_⟩
    rw [List.countP_cons, List.countP_cons, hcount, hn, Option.any_some]

theorem accept (h : Accounted s r) (R : NodeRules) (addr : CService) (fBanned drained : Bool) :
    ∃ s' r', s.accept R addr fBanned drained = .ok s' ∧ Accounted s' r' := by
  obtain ⟨nodes, hnodes, -⟩ := mapM_deref (s := s) (l := s.vNodes) fun _ hp => h.live_vNodes hp
  unfold NodePool.accept
  rw [hnodes]
  simp only [bind, Except.bind]
  split
  · exact ⟨s, r, rfl, h⟩
  · split
    · exact ⟨s, r, rfl, h⟩
    · exact ⟨_, _, rfl, h.push _ _ _ _⟩

theorem FindNode (p : CNode → Bool) {l : List Nat} (hl : ∀ pnode ∈ l, (s.node pnode).isSome) :
    ∃ found, s.FindNode p l = .ok found ∧ ∀ pnode, found = some pnode → pnode ∈ l := by
  induction l with
  | nil => exact ⟨none, rfl, fun _ h => nomatch h⟩
  | cons pnode l ih =>
    obtain ⟨n, -, hderef⟩ := deref_of_isSome (hl pnode List.mem_cons_self)
    obtain ⟨found, hfound, hmem⟩ := ih fun p hp => hl p (List.mem_cons_of_mem _ hp)
    unfold NodePool.FindNode
    rw [hderef]
    simp only [bind, Except.bind]
    split
    · exact ⟨some pnode, rfl, fun p hp => Option.some.inj hp ▸ List.mem_cons_self⟩
    · exact ⟨found, hfound, fun p hp => List.mem_cons_of_mem _ (hmem p hp)⟩

end Accounted

end TriTip.NodePool
