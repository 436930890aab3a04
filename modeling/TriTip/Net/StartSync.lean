import TriTip.Lib.Significand

/-!
# The node to sync from

`NodeSyncScore` and `StartSync` of `net.cpp`. The loop picks the first of the nodes with the
greatest score (`foldl_syncStep`), but the score is the time of the last receive with its sign
changed: the node that was silent for longest is picked (`StartSync_iff`).
-/

namespace TriTip

/-- What is read of a node here. -/
structure SyncNodes.CNode where
  fClient : Bool
  fOneShot : Bool
  fDisconnect : Bool
  fSuccessfullyConnected : Bool
  nStartingHeight : Int32
  nVersion : Int32
  nLastRecv : Int64
  fStartSync : Bool

/-- The nodes by their addresses, and the globals. -/
structure SyncNodes where
  node : Nat → SyncNodes.CNode
  pnodeSync : Option Nat
  nBestHeight : Int32
  NOBLKS_VERSION_START : Int32
  NOBLKS_VERSION_END : Int32

namespace SyncNodes

/-- An integer as a `double`: 53 bits, rounded to nearest. -/
def toDouble (n : Int) : Int := n.sign * Significand.nearest 53 n.natAbs

/-- For now, use a very simple selection metric: the node from which we received most recently. -/
def NodeSyncScore (pnode : CNode) : Int := toDouble (-pnode.nLastRecv.toInt)

variable (s : SyncNodes)

/-- The preconditions for allowing a sync. -/
def eligible (pnode : Nat) : Bool :=
  let n := s.node pnode
  !n.fClient && !n.fOneShot && !n.fDisconnect && n.fSuccessfullyConnected &&
    n.nStartingHeight.toInt > s.nBestHeight.toInt - 144 &&
    (n.nVersion < s.NOBLKS_VERSION_START || n.nVersion ≥ s.NOBLKS_VERSION_END)

/-- One turn of the loop, with `pnodeNewSync` and `dBestScore`. -/
def syncStep (best : Option Nat × Int) (pnode : Nat) : Option Nat × Int :=
  if s.eligible pnode then
    -- if ok, compare node's score with the best so far
    let dScore := NodeSyncScore (s.node pnode)
    if best.1 = none ∨ dScore > best.2 then (some pnode, dScore) else best
  else best

/-- A node becomes the one to sync from. -/
def select (pnode : Nat) : SyncNodes :=
  { s with
    node := Function.update s.node pnode { s.node pnode with fStartSync := true }
    pnodeSync := some pnode }

def StartSync (vNodes : List Nat) : SyncNodes :=
  match (vNodes.foldl s.syncStep (none, 0)).1 with
  -- if a new sync candidate was found, start sync!
  | some pnodeNewSync => s.select pnodeNewSync
  | none => s

/-! ## The loop -/

def candidates (vNodes : List Nat) : List Nat := vNodes.filter s.eligible

/-- From any turn on, the loop is a search for the first candidate with the greatest score. -/
theorem foldl_syncStep (vNodes : List Nat) (best : Option Nat × Int)
    (hbest : ∀ pnode, best.1 = some pnode → best.2 = NodeSyncScore (s.node pnode)) :
    (vNodes.foldl s.syncStep best).1 =
      (s.candidates vNodes).foldl (List.argAux fun b c =>
        NodeSyncScore (s.node c) < NodeSyncScore (s.node b)) best.1 := by
  induction vNodes generalizing best with
  | nil => rfl
  | cons pnode rest ih =>
    by_cases heligible : s.eligible pnode = true
    swap
    · have hstep : s.syncStep best pnode = best := if_neg heligible
      have hrest : s.candidates (pnode :: rest) = s.candidates rest :=
        List.filter_cons_of_neg heligible
      rw [List.foldl_cons, hstep, hrest]
      exact ih best hbest
    have hrest : s.candidates (pnode :: rest) = pnode :: s.candidates rest :=
      List.filter_cons_of_pos heligible
    have hstep : s.syncStep best pnode =
        if best.1 = none ∨ NodeSyncScore (s.node pnode) > best.2 then
          (some pnode, NodeSyncScore (s.node pnode)) else best := if_pos heligible
    have hpicked : (s.syncStep best pnode).1 = List.argAux (fun b c =>
        NodeSyncScore (s.node c) < NodeSyncScore (s.node b)) best.1 pnode := by
      rw [hstep]
      cases hnone : best.1 with
      | none => simp [List.argAux]
      | some kept =>
        simp only [List.argAux, reduceCtorEq, false_or, hbest kept hnone, gt_iff_lt]
        split
        · rfl
        · exact hnone
    rw [List.foldl_cons, hrest, List.foldl_cons, ← hpicked]
    apply ih
    intro p hp
    rw [hstep] at hp ⊢
    split at hp
    · next h =>
      rw [if_pos h]
      cases hp
      rfl
    · next h =>
      rw [if_neg h]
      exact hbest p hp

theorem StartSync_eq (vNodes : List Nat) :
    s.StartSync vNodes =
      (((s.candidates vNodes).argmax fun pnode => NodeSyncScore (s.node pnode)).map s.select).getD
        s := by
  have hloop : (vNodes.foldl s.syncStep (none, 0)).1 =
      (s.candidates vNodes).argmax fun pnode => NodeSyncScore (s.node pnode) :=
    s.foldl_syncStep vNodes (none, 0) nofun
  unfold StartSync
  rw [hloop]
  cases (s.candidates vNodes).argmax fun pnode => NodeSyncScore (s.node pnode) <;> rfl

/-! ## The score -/

theorem toDouble_natCast (n : Nat) : toDouble n = Significand.nearest 53 n := by
  unfold toDouble
  rw [Int.natAbs_natCast]
  rcases eq_or_ne n 0 with rfl | hn
  · rfl
  · rw [Int.sign_natCast_of_ne_zero hn, Int.one_mul]

theorem toDouble_neg (n : Int) : toDouble (-n) = -toDouble n := by
  unfold toDouble
  rw [Int.sign_neg, Int.natAbs_neg, Int.neg_mul]

theorem toDouble_mono {m n : Int} (h : m ≤ n) : toDouble m ≤ toDouble n := by
  have hnat {a b : Nat} (hab : a ≤ b) : toDouble a ≤ toDouble b := by
    rw [toDouble_natCast, toDouble_natCast]
    exact_mod_cast Significand.nearest_mono (by decide) hab
  have hzero : toDouble 0 = 0 := rfl
  obtain ⟨a, rfl | rfl⟩ := m.eq_nat_or_neg
  · obtain ⟨b, rfl⟩ := Int.eq_ofNat_of_zero_le ((Int.natCast_nonneg a).trans h)
    exact hnat (Int.ofNat_le.1 h)
  · obtain ⟨b, rfl | rfl⟩ := n.eq_nat_or_neg
    · -- the sign is kept
      have ha := hnat (Nat.zero_le a)
      have hb := hnat (Nat.zero_le b)
      rw [toDouble_neg]
      simp only [Nat.cast_zero, hzero] at ha hb
      omega
    · rw [toDouble_neg, toDouble_neg]
      exact Int.neg_le_neg (hnat (by omega))

/-- The score falls with the time of the last receive. -/
theorem NodeSyncScore_anti {p q : CNode} (h : p.nLastRecv ≤ q.nLastRecv) :
    NodeSyncScore q ≤ NodeSyncScore p := by
  have hle : p.nLastRecv.toInt ≤ q.nLastRecv.toInt := Int64.le_iff_toInt_le.1 h
  exact toDouble_mono (by omega)

/-! ## What is picked -/

/-- A freshest node is picked, if there is one that may be, and only it is touched. -/
def PicksFreshest (vNodes : List Nat) (s' : SyncNodes) : Prop :=
  s.candidates vNodes = [] ∧ s' = s ∨
  ∃ pnode ∈ s.candidates vNodes,
    (∀ q ∈ s.candidates vNodes, (s.node q).nLastRecv ≤ (s.node pnode).nLastRecv) ∧
    s' = s.select pnode

theorem select_inj {p q : Nat} (h : s.select p = s.select q) : p = q :=
  Option.some.inj (congrArg SyncNodes.pnodeSync h)

/-- One that is a freshest scores least, as the one that is picked scores most. -/
theorem scores_eq_of_freshest {vNodes : List Nat} {pnode : Nat}
    (hpicked : pnode ∈ (s.candidates vNodes).argmax fun pnode => NodeSyncScore (s.node pnode))
    (hfreshest : ∀ q ∈ s.candidates vNodes, (s.node q).nLastRecv ≤ (s.node pnode).nLastRecv)
    {q : Nat} (hq : q ∈ s.candidates vNodes) :
    NodeSyncScore (s.node q) = NodeSyncScore (s.node pnode) := by
  apply le_antisymm
  · exact List.le_of_mem_argmax (f := fun pnode => NodeSyncScore (s.node pnode)) hq hpicked
  · exact NodeSyncScore_anti (hfreshest q hq)

/-- Among equal scores the first candidate is picked. -/
theorem eq_head_of_scores_eq {candidates : List Nat} {first pnode : Nat} {score : Nat → Int}
    (hfirst : first ∈ candidates.head?) (hpicked : pnode ∈ candidates.argmax score)
    (hequal : score first = score pnode) : pnode = first := by
  obtain ⟨rest, rfl⟩ := List.head?_eq_some_iff.1 hfirst
  have hindex := List.index_of_argmax hpicked List.mem_cons_self hequal.ge
  rw [List.idxOf_cons_self, Nat.le_zero, List.idxOf_cons, cond_eq_ite] at hindex
  by_contra hne
  rw [if_neg (by simpa using Ne.symm hne)] at hindex
  cases hindex

/-- **When a freshest node is picked**: exactly if the first candidate is one, and the others score
the same. -/
theorem StartSync_iff (vNodes : List Nat) :
    s.PicksFreshest vNodes (s.StartSync vNodes) ↔
      ∀ first ∈ (s.candidates vNodes).head?, ∀ q ∈ s.candidates vNodes,
        (s.node q).nLastRecv ≤ (s.node first).nLastRecv ∧
        NodeSyncScore (s.node q) = NodeSyncScore (s.node first) := by
  rw [StartSync_eq]
  cases hpicked : (s.candidates vNodes).argmax fun pnode => NodeSyncScore (s.node pnode) with
  | none =>
    have hnil : s.candidates vNodes = [] := List.argmax_eq_none.1 hpicked
    constructor
    · intro _ first hfirst
      rw [hnil] at hfirst
      cases hfirst
    · intro _
      exact .inl ⟨hnil, rfl⟩
  | some pnode =>
    have hmem : pnode ∈ s.candidates vNodes := List.argmax_mem hpicked
    constructor
    · intro hpicks first hfirst q hq
      rcases hpicks with ⟨hnil, -⟩ | ⟨pnode', -, hfreshest, hselect⟩
      · rw [hnil] at hmem
        cases hmem
      · obtain rfl := s.select_inj hselect
        have hscores := fun q => s.scores_eq_of_freshest (q := q) hpicked hfreshest
        obtain rfl := eq_head_of_scores_eq hfirst hpicked
          (hscores first (List.mem_of_mem_head? hfirst))
        exact ⟨hfreshest q hq, hscores q hq⟩
    · intro hfirst
      have hne := List.ne_nil_of_mem hmem
      have hhead : (s.candidates vNodes).head hne ∈ (s.candidates vNodes).head? :=
        List.head_mem_head? hne
      have hall := hfirst _ hhead
      have heq := eq_head_of_scores_eq hhead hpicked (hall pnode hmem).2.symm
      refine .inr ⟨pnode, hmem, fun q hq => ?_, rfl⟩
      rw [heq]
      exact (hall q hq).1

/-- A node that may be synced from. -/
def CNode.connected (nLastRecv : Int64) : CNode where
  fClient := false
  fOneShot := false
  fDisconnect := false
  fSuccessfullyConnected := true
  nStartingHeight := 230000
  nVersion := 70001
  nLastRecv := nLastRecv
  fStartSync := false

/-- The nodes 0 and 1, last heard of at 1000 and at 2000. -/
def twoNodes : SyncNodes where
  node := fun pnode => .connected (if pnode = 0 then 1000 else 2000)
  pnodeSync := none
  nBestHeight := 230000
  NOBLKS_VERSION_START := 32000
  NOBLKS_VERSION_END := 32400

/-- The one that was silent for longer is picked. -/
theorem StartSync_twoNodes : ¬twoNodes.PicksFreshest [0, 1] (twoNodes.StartSync [0, 1]) := by
  have hcandidates : twoNodes.candidates [0, 1] = [0, 1] := by decide
  have hsync : (twoNodes.StartSync [0, 1]).pnodeSync = some 0 := by decide
  rintro (⟨hnil, -⟩ | ⟨pnode, -, hfreshest, hselect⟩)
  · rw [hcandidates] at hnil
    cases hnil
  · have hpnode : some pnode = some 0 := by
      rw [← hsync, hselect]
      rfl
    obtain rfl := Option.some.inj hpnode
    exact absurd (hfreshest 1 (by simp [hcandidates])) (by decide)

end SyncNodes

end TriTip
