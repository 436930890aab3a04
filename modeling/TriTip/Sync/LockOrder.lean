import TriTip.Lib.Run

/-!
# Lock orders

`push_lock` and `pop_lock` of `sync.cpp`. A run is a list of acquisitions and releases of any number
of threads, each of them atomic; an acquisition that only tries is pushed, and its pairs are not
recorded. What is reported was acquired in both orders (`Sound`), and a pair of locks that is
acquired in both orders, by blocking, is reported when the second order shows up, unless something
was reported before (`reported_of_inversion`).
-/

namespace TriTip

structure CLockLocation where
  mutexName : String
  sourceFile : String
  sourceLine : Int32
  deriving DecidableEq

variable {T L : Type} [DecidableEq T] [DecidableEq L]

abbrev LockStack (L : Type) := List (L × CLockLocation)

/-- The arguments of a call of `potential_deadlock_detected`. -/
structure DeadlockReport (L : Type) where
  mismatch : L × L
  s1 : LockStack L
  s2 : LockStack L

/-- `lockorders`, and the calls so far. -/
structure LockOrders (L : Type) where
  lockorders : L × L → Option (LockStack L)
  reports : List (DeadlockReport L)

structure LockState (T L : Type) extends LockOrders L where
  lockstack : T → LockStack L

namespace LockOrders

/-- The loop of `push_lock` over the lock stack. -/
def scan (c : L) (lockstack : LockStack L) : LockStack L → LockOrders L → LockOrders L
  | [], o => o
  | i :: rest, o =>
    if i.1 = c then o
    else if (o.lockorders (i.1, c)).isSome then scan c lockstack rest o
    else
      let o := { o with lockorders := Function.update o.lockorders (i.1, c) (some lockstack) }
      match o.lockorders (c, i.1) with
      | some s1 => { o with reports := o.reports ++ [⟨(i.1, c), s1, lockstack⟩] }
      | none => scan c lockstack rest o

end LockOrders

namespace LockState

def start : LockState T L where
  lockorders := fun _ => none
  reports := []
  lockstack := fun _ => []

def push_lock (s : LockState T L) (t : T) (c : L) (locklocation : CLockLocation) (fTry : Bool) :
    LockState T L :=
  let lockstack := s.lockstack t ++ [(c, locklocation)]
  let o := if fTry then s.toLockOrders else s.toLockOrders.scan c lockstack lockstack
  { o with lockstack := Function.update s.lockstack t lockstack }

def pop_lock (s : LockState T L) (t : T) : LockState T L :=
  { s with lockstack := Function.update s.lockstack t (s.lockstack t).dropLast }

end LockState

/-- What a thread does. -/
inductive LockEvent (T L : Type)
  | enter (t : T) (cs : L) (locklocation : CLockLocation) (fTry : Bool)
  | leave (t : T)

/-- A thread that holds nothing leaves nothing. -/
inductive LockFault
  | emptyStack
  deriving DecidableEq

namespace LockState

/-- `EnterCritical` and `LeaveCritical`. -/
def step (s : LockState T L) : LockEvent T L → Except LockFault (LockState T L)
  | .enter t cs locklocation fTry => .ok (s.push_lock t cs locklocation fTry)
  | .leave t => if s.lockstack t = [] then .error .emptyStack else .ok (s.pop_lock t)

/-- The locks that a thread holds. -/
def held (s : LockState T L) (t : T) : List L := (s.lockstack t).map Prod.fst

end LockState

namespace LockOrders

variable {c : L} {o : LockOrders L}

def Recorded (o : LockOrders L) (a b : L) : Prop := (o.lockorders (a, b)).isSome = true

/-- Two locks are in both orders only if there was a report. -/
def Noticed (o : LockOrders L) : Prop := ∀ a b, o.Recorded a b → o.Recorded b a → o.reports ≠ []

/-- What the loop over `l` does. -/
structure Scanned (c : L) (l : LockStack L) (o o' : LockOrders L) : Prop where
  recorded : ∀ {a b}, o'.Recorded a b → o.Recorded a b ∨ b = c ∧ a ≠ c ∧ a ∈ l.map Prod.fst
  keeps : ∀ {a b}, o.Recorded a b → o'.Recorded a b
  reports : ∀ r ∈ o'.reports, r ∈ o.reports ∨ r.mismatch.2 = c ∧ r.mismatch.1 ≠ c ∧
    r.mismatch.1 ∈ l.map Prod.fst ∧ o.Recorded c r.mismatch.1
  keepsReports : o.reports ≠ [] → o'.reports ≠ []
  complete : ∀ a ∈ (l.takeWhile fun i => i.1 ≠ c).map Prod.fst, o'.Recorded a c ∨ o'.reports ≠ []
  noticed : o.Noticed → o'.Noticed

theorem recorded_update {a b : L} (p : L × L) (stack : LockStack L) :
    ({ o with lockorders := Function.update o.lockorders p (some stack) } : LockOrders L).Recorded
      a b ↔ (a, b) = p ∨ o.Recorded a b := by
  unfold Recorded
  dsimp only
  rw [Function.update_apply]
  split
  · next h => simp [h]
  · next h => simp [h]

/-- A recursive lock: the rest is not looked at. -/
theorem scanned_recursive {i : L × CLockLocation} (hi : i.1 = c) (rest : LockStack L)
    (o : LockOrders L) : Scanned c (i :: rest) o o := by
  refine ⟨.inl, id, fun r hr => .inl hr, id, fun a ha => ?_, id⟩
  rw [List.takeWhile_cons_of_neg (by simpa using hi)] at ha
  exact absurd ha List.not_mem_nil

section

variable {i : L × CLockLocation} {rest : LockStack L} {o' : LockOrders L}

theorem mem_takeWhile_cons (hi : i.1 ≠ c) {a : L}
    (ha : a ∈ ((i :: rest).takeWhile fun i => i.1 ≠ c).map Prod.fst) :
    a = i.1 ∨ a ∈ (rest.takeWhile fun i => i.1 ≠ c).map Prod.fst := by
  rw [List.takeWhile_cons_of_pos (by simpa using hi), List.map_cons] at ha
  exact List.mem_cons.1 ha

/-- A pair that is recorded. -/
theorem Scanned.skip (hi : i.1 ≠ c) (hrec : o.Recorded i.1 c) (h : Scanned c rest o o') :
    Scanned c (i :: rest) o o' := by
  refine ⟨fun hab => ?_, h.keeps, fun r hr => ?_, h.keepsReports, fun a ha => ?_, h.noticed⟩
  · exact (h.recorded hab).imp_right fun ⟨hb, hne, ha⟩ => ⟨hb, hne, List.mem_cons_of_mem _ ha⟩
  · exact (h.reports r hr).imp_right fun ⟨hc, hne, ha, hrec⟩ =>
      ⟨hc, hne, List.mem_cons_of_mem _ ha, hrec⟩
  · rcases mem_takeWhile_cons hi ha with rfl | ha
    · exact .inl (h.keeps hrec)
    · exact h.complete a ha

/-- `o₁` is `o` with the pair of `i` and `c` recorded. -/
structure Records (c : L) (i : L × CLockLocation) (o o₁ : LockOrders L) : Prop where
  recorded : ∀ {a b}, o₁.Recorded a b ↔ (a, b) = (i.1, c) ∨ o.Recorded a b
  reports : o₁.reports = o.reports

omit [DecidableEq L] in
theorem Records.back {o₁ : LockOrders L} (h : Records c i o o₁) (hi : i.1 ≠ c) {a : L}
    (ha : o₁.Recorded c a) : o.Recorded c a := by
  rcases h.recorded.1 ha with heq | ha
  · exact absurd (congrArg Prod.fst heq).symm hi
  · exact ha

omit [DecidableEq L] in
theorem Records.new {o₁ : LockOrders L} (h : Records c i o o₁) (hi : i.1 ≠ c) {a b : L}
    (hab : o₁.Recorded a b) : o.Recorded a b ∨ b = c ∧ a ≠ c ∧ a ∈ (i :: rest).map Prod.fst := by
  rcases h.recorded.1 hab with heq | hab
  · obtain ⟨rfl, rfl⟩ := Prod.mk.inj heq
    exact .inr ⟨rfl, hi, List.mem_cons_self⟩
  · exact .inl hab

/-- The other order is recorded: a report, and no more pairs. -/
theorem Records.scanned_report {o₁ : LockOrders L} (h : Records c i o o₁) (hi : i.1 ≠ c)
    (hother : o₁.Recorded c i.1) (s1 s2 : LockStack L) :
    Scanned c (i :: rest) o { o₁ with reports := o₁.reports ++ [⟨(i.1, c), s1, s2⟩] } := by
  have hne : o₁.reports ++ [⟨(i.1, c), s1, s2⟩] ≠ [] :=
    List.append_ne_nil_of_right_ne_nil _ (by simp)
  refine ⟨h.new hi, fun hab => h.recorded.2 (.inr hab), fun r hr => ?_, fun _ => hne,
    fun a _ => .inr hne, fun _ a b _ _ => hne⟩
  rcases List.mem_append.1 hr with hr | hr
  · exact .inl (h.reports ▸ hr)
  · rw [List.mem_singleton.1 hr]
    exact .inr ⟨rfl, hi, List.mem_cons_self, h.back hi hother⟩

/-- The other order is not: on to the next. -/
theorem Records.scanned_next {o₁ : LockOrders L} (h : Records c i o o₁) (hi : i.1 ≠ c)
    (hnot : ¬o₁.Recorded c i.1) (hrest : Scanned c rest o₁ o') : Scanned c (i :: rest) o o' := by
  refine ⟨fun hab => ?_, fun hab => hrest.keeps (h.recorded.2 (.inr hab)), fun r hr => ?_,
    fun hne => hrest.keepsReports (h.reports ▸ hne), fun a ha => ?_,
    fun hnoticed => hrest.noticed fun a b hab hba => ?_⟩
  · rcases hrest.recorded hab with hab | ⟨hb, hne, ha⟩
    · exact h.new hi hab
    · exact .inr ⟨hb, hne, List.mem_cons_of_mem _ ha⟩
  · rcases hrest.reports r hr with hr | ⟨hc, hne, ha, hrec⟩
    · exact .inl (h.reports ▸ hr)
    · exact .inr ⟨hc, hne, List.mem_cons_of_mem _ ha, h.back hi hrec⟩
  · rcases mem_takeWhile_cons hi ha with rfl | ha
    · exact .inl (hrest.keeps (h.recorded.2 (.inl rfl)))
    · exact hrest.complete a ha
  · rw [h.reports]
    rcases h.recorded.1 hab with heq | hab'
    · obtain ⟨rfl, rfl⟩ := Prod.mk.inj heq
      exact absurd hba hnot
    · rcases h.recorded.1 hba with heq | hba'
      · obtain ⟨rfl, rfl⟩ := Prod.mk.inj heq
        exact absurd hab hnot
      · exact hnoticed a b hab' hba'

end

theorem scan_spec (c : L) (stack l : LockStack L) (o : LockOrders L) :
    Scanned c l o (o.scan c stack l) := by
  induction l generalizing o with
  | nil =>
    exact ⟨.inl, id, fun r hr => .inl hr, id, fun a ha => absurd ha List.not_mem_nil, id⟩
  | cons i rest ih =>
    unfold scan
    by_cases hi : i.1 = c
    · rw [if_pos hi]
      exact scanned_recursive hi rest o
    rw [if_neg hi]
    by_cases hrec : (o.lockorders (i.1, c)).isSome = true
    · rw [if_pos hrec]
      exact (ih o).skip hi hrec
    rw [if_neg hrec]
    have hrecords : Records c i o
        { o with lockorders := Function.update o.lockorders (i.1, c) (some stack) } :=
      ⟨recorded_update (i.1, c) stack, rfl⟩
    dsimp only
    split
    · next s1 hs1 =>
      exact hrecords.scanned_report hi (Option.isSome_iff_exists.2 ⟨s1, hs1⟩) s1 stack
    · next hnone =>
      refine hrecords.scanned_next hi ?_ (ih _)
      unfold Recorded
      dsimp only
      rw [hnone]
      exact Bool.false_ne_true

end LockOrders

namespace LockState

/-! ## Runs of many threads -/

/-- A thread that holds `a` acquires `b`, blocking. -/
def Acquires (a b : L) (s : LockState T L) (e : LockEvent T L) : Prop :=
  ∃ t locklocation, e = .enter t b locklocation false ∧ a ∈ s.held t

/-- The same, when it does not hold `b` already. -/
def AcquiresNew (a b : L) (s : LockState T L) (e : LockEvent T L) : Prop :=
  ∃ t locklocation, e = .enter t b locklocation false ∧ a ∈ s.held t ∧ b ∉ s.held t

/-- What the recorded pairs and the reports are of a run. -/
structure History (events : List (LockEvent T L)) (s : LockState T L) : Prop where
  recorded : ∀ {a b}, s.Recorded a b → a ≠ b ∧ Run.Took step .start events (Acquires a b)
  reports : ∀ r ∈ s.reports, r.mismatch.1 ≠ r.mismatch.2 ∧
    Run.Took step .start events (Acquires r.mismatch.1 r.mismatch.2) ∧
    Run.Took step .start events (Acquires r.mismatch.2 r.mismatch.1)
  complete : ∀ {a b}, Run.Took step .start events (AcquiresNew a b) →
    s.Recorded a b ∨ s.reports ≠ []
  noticed : s.Noticed

theorem start_history : History [] (start : LockState T L) where
  recorded := fun h => by cases h
  reports := fun r hr => absurd hr List.not_mem_nil
  complete := fun h => absurd h Run.not_took_nil
  noticed := fun a b h => by cases h

/-- A step that records nothing. -/
theorem History.same {events : List (LockEvent T L)} {s s' : LockState T L} {e : LockEvent T L}
    (h : History events s) (hrun : Run.run step .start events = .ok s)
    (hsame : s'.toLockOrders = s.toLockOrders) (hnew : ∀ a b, ¬AcquiresNew a b s e) :
    History (events ++ [e]) s' := by
  have hlater : ∀ {P : LockState T L → LockEvent T L → Prop},
      Run.Took step .start events P → Run.Took step .start (events ++ [e]) P :=
    fun hP => (Run.took_append_singleton hrun).2 (.inl hP)
  constructor
  · intro a b hab
    rw [hsame] at hab
    exact (h.recorded hab).imp_right hlater
  · intro r hr
    rw [hsame] at hr
    obtain ⟨hne, hab, hba⟩ := h.reports r hr
    exact ⟨hne, hlater hab, hlater hba⟩
  · intro a b hab
    rw [hsame]
    exact h.complete (((Run.took_append_singleton hrun).1 hab).resolve_right (hnew a b))
  · rw [hsame]
    exact h.noticed

/-- A blocking acquisition. -/
theorem History.acquire {events : List (LockEvent T L)} {s : LockState T L}
    (h : History events s) (hrun : Run.run step .start events = .ok s) (t : T) (c : L)
    (locklocation : CLockLocation) :
    History (events ++ [.enter t c locklocation false]) (s.push_lock t c locklocation false) := by
  set stack := s.lockstack t ++ [(c, locklocation)] with hstack
  have hscan := LockOrders.scan_spec c stack stack s.toLockOrders
  have hlater : ∀ {P : LockState T L → LockEvent T L → Prop}, Run.Took step .start events P →
      Run.Took step .start (events ++ [.enter t c locklocation false]) P :=
    fun hP => (Run.took_append_singleton hrun).2 (.inl hP)
  have hnow : ∀ {a}, a ≠ c → a ∈ stack.map Prod.fst →
      Run.Took step .start (events ++ [.enter t c locklocation false]) (Acquires a c) := by
    intro a hne ha
    rw [hstack, List.map_append, List.map_singleton, List.mem_append, List.mem_singleton] at ha
    exact (Run.took_append_singleton hrun).2
      (.inr ⟨t, locklocation, rfl, ha.resolve_right hne⟩)
  constructor
  · intro a b hab
    rcases hscan.recorded hab with hab | ⟨rfl, hne, ha⟩
    · exact (h.recorded hab).imp_right hlater
    · exact ⟨hne, hnow hne ha⟩
  · intro r hr
    rcases hscan.reports r hr with hr | ⟨hc, hne, ha, hrec⟩
    · obtain ⟨hne, hab, hba⟩ := h.reports r hr
      exact ⟨hne, hlater hab, hlater hba⟩
    · rw [hc]
      exact ⟨hne, hnow hne ha, hlater (h.recorded hrec).2⟩
  · intro a b hab
    rcases (Run.took_append_singleton hrun).1 hab with hab | ⟨t', loc, heq, ha, hb⟩
    · exact (h.complete hab).imp hscan.keeps hscan.keepsReports
    · -- all that was held comes before the lock in the stack
      obtain ⟨rfl, rfl, -⟩ := LockEvent.enter.inj heq
      refine hscan.complete a ?_
      have hbefore : (stack.takeWhile fun i => i.1 ≠ c) = s.lockstack t := by
        rw [hstack, List.takeWhile_append_of_pos, List.takeWhile_cons_of_neg (by simp),
          List.append_nil]
        intro i hi
        refine decide_eq_true fun heq => hb ?_
        rw [← heq]
        exact List.mem_map_of_mem hi
      rw [hbefore]
      exact ha
  · exact hscan.noticed h.noticed

theorem run_history {events : List (LockEvent T L)} {s : LockState T L}
    (hrun : Run.run step .start events = .ok s) : History events s := by
  refine Run.run_induction History start_history ?_ hrun
  intro ops s e s' hrun h hstep
  cases e with
  | leave t =>
    simp only [step] at hstep
    split at hstep
    · cases hstep
    · obtain rfl := Except.ok.inj hstep
      exact h.same hrun rfl fun a b ⟨_, _, heq, _⟩ => by cases heq
  | enter t c locklocation fTry =>
    obtain rfl := Except.ok.inj hstep
    cases fTry with
    | false => exact h.acquire hrun t c locklocation
    | true => exact h.same hrun rfl fun a b ⟨_, _, heq, _⟩ => by cases heq

/-- **Reports are complete and sound.** In every run: if two locks were acquired in both orders, by
blocking and not recursively, there is a report; and the locks of every report are two that were
acquired in both orders. -/
theorem reports_spec {events : List (LockEvent T L)} {s : LockState T L}
    (hrun : Run.run step .start events = .ok s) :
    (∀ a b, a ≠ b → Run.Took step .start events (AcquiresNew a b) →
      Run.Took step .start events (AcquiresNew b a) → s.reports ≠ []) ∧
    ∀ r ∈ s.reports, r.mismatch.1 ≠ r.mismatch.2 ∧
      Run.Took step .start events (Acquires r.mismatch.1 r.mismatch.2) ∧
      Run.Took step .start events (Acquires r.mismatch.2 r.mismatch.1) := by
  have h := run_history hrun
  refine ⟨fun a b _ hab hba => ?_, h.reports⟩
  rcases h.complete hab with hab | hreports
  · rcases h.complete hba with hba | hreports
    · exact h.noticed a b hab hba
    · exact hreports
  · exact hreports

section Runs

def line (n : Int32) : CLockLocation := ⟨"cs", "main.cpp", n⟩

/-- One thread locks 1 and then 2, another 2 and then 1. -/
def inversion : List (LockEvent Bool Nat) :=
  [.enter false 1 (line 1) false, .enter false 2 (line 2) false, .leave false, .leave false,
    .enter true 2 (line 3) false, .enter true 1 (line 4) false]

theorem reports_spec_inversion :
    ∃ s : LockState Bool Nat, Run.run step .start inversion = .ok s ∧
      s.reports.map (fun r => r.mismatch) = [(2, 1)] ∧
      (∀ a b, a ≠ b → Run.Took step .start inversion (AcquiresNew a b) →
        Run.Took step .start inversion (AcquiresNew b a) → s.reports ≠ []) ∧
      ∀ r ∈ s.reports, r.mismatch.1 ≠ r.mismatch.2 ∧
        Run.Took step .start inversion (Acquires r.mismatch.1 r.mismatch.2) ∧
        Run.Took step .start inversion (Acquires r.mismatch.2 r.mismatch.1) :=
  ⟨_, rfl, by decide, reports_spec rfl⟩

end Runs

end LockState

end TriTip
