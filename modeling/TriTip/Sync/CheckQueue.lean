import Mathlib

/-!
# The queue of checks

`CCheckQueue` of `checkqueue.h`. Worker threads and the master take checks off a queue in batches
and evaluate them; a batch is entered into the shared counters at the start of the next critical
section of its thread. The state has the queue and, for every thread, where it is in `Loop`; a
schedule is any sequence of critical sections, evaluations of single checks and calls of the master.
A thread that waits for a condition may wake at any time, whether it was notified or not.
-/

namespace TriTip

structure CheckQueue (T : Type) where
  /-- The queue of elements to be processed; the back of the vector is the end of the list. -/
  queue : List T
  /-- The number of workers (including the master) that are idle. -/
  nIdle : Int32
  /-- The total number of workers (including the master). -/
  nTotal : Int32
  /-- The temporary evaluation result. -/
  fAllOk : Bool
  /-- Number of verifications that haven't completed yet. -/
  nTodo : UInt32
  /-- Whether we're shutting down. -/
  fQuit : Bool
  /-- The maximum number of elements to be processed in one batch -/
  nBatchSize : UInt32

/-- Where a thread is, with its local variables. -/
inductive LoopState (T : Type) where
  /-- not in `Loop` -/
  | outside
  /-- outside the critical section, with the checks of the batch that are still to be evaluated;
  `nNow` is 0 before the first section -/
  | running (nNow : UInt32) (fOk : Bool) (vChecks : List T)
  /-- in `cond.wait` -/
  | waiting

/-- How a critical section ends: `Loop` returns, or it goes on. -/
inductive SectionEnd (T : Type) where
  | returned (fRet : Bool)
  | goesOn (l : LoopState T)

namespace CheckQueue

variable {T : Type}

def new (nBatchSize : UInt32) : CheckQueue T := ⟨[], 0, 0, true, 0, false, nBatchSize⟩

/-- The critical section from `while (queue.empty())` on. -/
def proceed (fMaster : Bool) (q : CheckQueue T) : CheckQueue T × SectionEnd T :=
  if q.queue.isEmpty then
    if (fMaster || q.fQuit) && q.nTodo = 0 then
      ({ q with
        nTotal := q.nTotal - 1
        -- reset the status for new work later
        fAllOk := if fMaster then true else q.fAllOk }, .returned q.fAllOk)
    else ({ q with nIdle := q.nIdle + 1 }, .goesOn .waiting)
  else
    let nNow := max 1 (min q.nBatchSize
      (UInt32.ofNat q.queue.length / (q.nTotal + q.nIdle + 1).toUInt32))
    ({ q with queue := q.queue.take (q.queue.length - nNow.toNat) },
      .goesOn (.running nNow q.fAllOk (q.queue.reverse.take nNow.toNat)))

/-- A critical section of a thread; `none` where the thread is not about to enter one. -/
def criticalSection (fMaster : Bool) (q : CheckQueue T) :
    LoopState T → Option (CheckQueue T × SectionEnd T)
  | .running nNow fOk [] =>
    -- first do the clean-up of the previous loop run
    if nNow ≠ 0 then
      some (proceed fMaster { q with fAllOk := q.fAllOk && fOk, nTodo := q.nTodo - nNow })
    else some (proceed fMaster { q with nTotal := q.nTotal + 1 })
  | .waiting => some (proceed fMaster { q with nIdle := q.nIdle - 1 })
  | _ => none

def Add (q : CheckQueue T) (vChecks : List T) : CheckQueue T :=
  { q with queue := q.queue ++ vChecks, nTodo := q.nTodo + UInt32.ofNat vChecks.length }

/-- The asserts of `CCheckQueueControl`. -/
def controlAsserts (q : CheckQueue T) : Prop :=
  q.nTotal = q.nIdle ∧ q.nTodo = 0 ∧ q.fAllOk = true

end CheckQueue

/-- The queue and its threads; the master is the thread `none`. -/
structure CheckPool (ι T : Type) where
  q : CheckQueue T
  thread : Option ι → LoopState T
  /-- the checks added since the last `Wait` returned -/
  added : List T
  /-- what the last `Wait` returned -/
  returned : Option Bool

/-- What may happen next. -/
inductive CheckAct (ι T : Type) where
  /-- a worker calls `Thread` -/
  | Thread (i : ι)
  /-- the master calls `Wait` -/
  | Wait
  /-- the master calls `Add` -/
  | Add (vChecks : List T)
  /-- a thread goes through its critical section -/
  | criticalSection (t : Option ι)
  /-- a thread evaluates a check -/
  | check (t : Option ι)

namespace CheckPool

variable {ι T : Type} [DecidableEq ι]

def new (nBatchSize : UInt32) : CheckPool ι T := ⟨.new nBatchSize, fun _ => .outside, [], none⟩

/-- A thread that is not in `Loop` enters it. -/
def enter (c : CheckPool ι T) (t : Option ι) : Option (CheckPool ι T) :=
  match c.thread t with
  | .outside => some { c with thread := Function.update c.thread t (.running 0 true []) }
  | _ => none

def step (result : T → Bool) (c : CheckPool ι T) : CheckAct ι T → Option (CheckPool ι T)
  | .Thread i => c.enter (some i)
  | .Wait => c.enter none
  | .Add vChecks =>
    match c.thread none with
    | .outside => some { c with q := c.q.Add vChecks, added := c.added ++ vChecks }
    | _ => none
  | .criticalSection t =>
    match c.q.criticalSection t.isNone (c.thread t) with
    | some (q, .goesOn l) => some { c with q, thread := Function.update c.thread t l }
    | some (q, .returned fRet) =>
      let thread := Function.update c.thread t .outside
      if t.isNone then some { q, thread, added := [], returned := some fRet }
      else some { c with q, thread }
    | none => none
  | .check t =>
    match c.thread t with
    | .running nNow fOk (check :: vChecks) =>
      let l := .running nNow (if fOk then result check else fOk) vChecks
      some { c with thread := Function.update c.thread t l }
    | _ => none

end CheckPool

/-! ## What the counters count -/

namespace LoopState

variable {T : Type}

/-- The size of the batch in progress. -/
def batch : LoopState T → Nat
  | .running nNow _ _ => nNow.toNat
  | _ => 0

/-- In the loop and not waiting. -/
def Busy : LoopState T → Bool
  | .running nNow _ _ => nNow ≠ 0
  | _ => false

def Waiting : LoopState T → Bool
  | .waiting => true
  | _ => false

/-- No check of the batch has failed or will fail. -/
def Ok (result : T → Bool) : LoopState T → Prop
  | .running _ fOk vChecks => fOk = true ∧ ∀ check ∈ vChecks, result check = true
  | _ => True

/-- Before its first batch a thread has nothing to evaluate. -/
def WellFormed : LoopState T → Prop
  | .running nNow fOk vChecks => nNow = 0 → fOk = true ∧ vChecks = []
  | _ => True

end LoopState

/-- The shared state agrees with what the threads are doing: together they have `batch` checks in
progress, `busy` and `waiting` of them are in the loop, and `ok` says that none of their checks has
failed or will fail. -/
structure CheckQueue.Agrees {T : Type} (result : T → Bool) (q : CheckQueue T) (added : List T)
    (batch busy waiting : Nat) (ok : Prop) : Prop where
  nTodo : q.nTodo = UInt32.ofNat (q.queue.length + batch)
  nTotal : q.nTotal = Int32.ofNat (busy + waiting)
  nIdle : q.nIdle = Int32.ofNat waiting
  fQuit : q.fQuit = false
  pending : q.queue.length + batch ≤ added.length
  ok : (q.fAllOk = true ∧ (∀ check ∈ q.queue, result check = true) ∧ ok) ↔
    ∀ check ∈ added, result check = true

/-- The size of a batch: at least one check, and no more than there are. -/
theorem batchSize_spec (nBatchSize d : UInt32) {n : Nat} (hn : 0 < n) :
    max 1 (min nBatchSize (UInt32.ofNat n / d)) ≠ 0 ∧
      (max 1 (min nBatchSize (UInt32.ofNat n / d))).toNat ≤ n := by
  have hdiv : (UInt32.ofNat n / d).toNat ≤ n := by
    rw [UInt32.toNat_div, UInt32.toNat_ofNat']
    exact (Nat.div_le_self _ _).trans (Nat.mod_le _ _)
  have hmin : (min nBatchSize (UInt32.ofNat n / d)).toNat ≤ (UInt32.ofNat n / d).toNat := by
    change (if _ then _ else _ : UInt32).toNat ≤ _
    split
    next h => exact UInt32.le_iff_toNat_le.1 h
    next h => exact Nat.le_refl _
  generalize min nBatchSize (UInt32.ofNat n / d) = b at hmin
  change (if 1 ≤ b then b else 1 : UInt32) ≠ 0 ∧ (if 1 ≤ b then b else 1 : UInt32).toNat ≤ n
  split
  next h =>
    refine ⟨fun h0 => ?_, hmin.trans hdiv⟩
    rw [h0] at h
    exact absurd h (by decide)
  next h => exact ⟨by decide, hn⟩

namespace CheckQueue.Agrees

variable {T : Type} {result : T → Bool} {q : CheckQueue T} {added : List T}
  {batch busy waiting : Nat} {ok : Prop}

/-- The state depends on the threads only through these numbers. -/
theorem congr (h : q.Agrees result added batch busy waiting ok) {batch' busy' waiting' : Nat}
    {ok' : Prop} (hbatch : batch' = batch) (hbusy : busy' = busy) (hwaiting : waiting' = waiting)
    (hok : ok' ↔ ok) : q.Agrees result added batch' busy' waiting' ok' := by
  rw [hbatch, hbusy, hwaiting, propext hok]
  exact h

/-- A thread in its critical section waits. -/
theorem wait (h : q.Agrees result added batch (busy + 1) waiting ok) :
    CheckQueue.Agrees result { q with nIdle := q.nIdle + 1 } added batch busy (waiting + 1) ok where
  nTodo := h.nTodo
  nTotal := by
    rw [h.nTotal]
    congr 1
    omega
  nIdle := by
    rw [h.nIdle]
    exact (Int32.ofNat_add _ 1).symm
  fQuit := h.fQuit
  pending := h.pending
  ok := h.ok

/-- A thread in its critical section takes `n` checks off the back. -/
theorem take (h : q.Agrees result added batch (busy + 1) waiting ok) {n : Nat}
    (hn : n ≤ q.queue.length) :
    CheckQueue.Agrees result { q with queue := q.queue.take (q.queue.length - n) } added
      (n + batch) (busy + 1) waiting
      ((q.fAllOk = true ∧ ∀ check ∈ q.queue.reverse.take n, result check = true) ∧ ok) where
  nTodo := by
    rw [h.nTodo]
    congr 1
    simp only [List.length_take]
    omega
  nTotal := h.nTotal
  nIdle := h.nIdle
  fQuit := h.fQuit
  pending := by
    have := h.pending
    simp only [List.length_take]
    omega
  ok := by
    rw [← h.ok]
    have hsplit : (∀ check ∈ q.queue, result check = true) ↔
        (∀ check ∈ q.queue.take (q.queue.length - n), result check = true) ∧
        ∀ check ∈ q.queue.reverse.take n, result check = true := by
      rw [List.take_reverse]
      simp only [List.mem_reverse]
      rw [← List.forall_mem_append, List.take_append_drop]
    rw [hsplit]
    tauto

/-- A thread leaves the loop with all checks evaluated. -/
theorem leave (h : q.Agrees result added 0 (busy + 1) waiting ok) (hempty : q.queue = [])
    (hok : ok) :
    q.fAllOk = added.all result ∧
      CheckQueue.Agrees result { q with nTotal := q.nTotal - 1, fAllOk := true } [] 0 busy waiting
        ok := by
  refine ⟨?_, ?_⟩
  · rw [Bool.eq_iff_iff, List.all_eq_true, ← h.ok, hempty]
    simp [hok]
  · refine ⟨h.nTodo, ?_, h.nIdle, h.fQuit, ?_, ?_⟩
    · change q.nTotal - 1 = _
      rw [h.nTotal, show busy + 1 + waiting = busy + waiting + 1 by omega, Int32.ofNat_add]
      exact Int32.add_sub_cancel _ _
    · simp [hempty]
    · simp [hempty, hok]

/-- A thread that enters the loop is counted. -/
theorem enter (h : q.Agrees result added batch busy waiting ok) :
    CheckQueue.Agrees result { q with nTotal := q.nTotal + 1 } added batch (busy + 1) waiting
      ok where
  nTodo := h.nTodo
  nTotal := by
    change q.nTotal + 1 = _
    rw [h.nTotal, show busy + 1 + waiting = busy + waiting + 1 by omega]
    exact (Int32.ofNat_add _ 1).symm
  nIdle := h.nIdle
  fQuit := h.fQuit
  pending := h.pending
  ok := h.ok

/-- A thread that waits wakes up. -/
theorem wake (h : q.Agrees result added batch busy (waiting + 1) ok) :
    CheckQueue.Agrees result { q with nIdle := q.nIdle - 1 } added batch (busy + 1) waiting ok where
  nTodo := h.nTodo
  nTotal := by
    rw [h.nTotal]
    congr 1
    omega
  nIdle := by
    rw [h.nIdle, Int32.ofNat_add]
    exact Int32.add_sub_cancel _ _
  fQuit := h.fQuit
  pending := h.pending
  ok := h.ok

/-- The batch of a thread is entered. -/
theorem merge (nNow : UInt32) {fOk : Bool}
    (h : q.Agrees result added (nNow.toNat + batch) busy waiting (fOk = true ∧ ok)) :
    CheckQueue.Agrees result { q with fAllOk := q.fAllOk && fOk, nTodo := q.nTodo - nNow } added
      batch busy waiting ok where
  nTodo := by
    change q.nTodo - nNow = _
    rw [h.nTodo, show q.queue.length + (nNow.toNat + batch) = q.queue.length + batch + nNow.toNat by
      omega, UInt32.ofNat_add, UInt32.ofNat_toNat]
    exact UInt32.add_sub_cancel _ _
  nTotal := h.nTotal
  nIdle := h.nIdle
  fQuit := h.fQuit
  pending := by
    have := h.pending
    change q.queue.length + batch ≤ added.length
    omega
  ok := by
    rw [← h.ok, Bool.and_eq_true]
    tauto

/-- The master adds checks. -/
theorem Add (h : q.Agrees result added batch busy waiting ok) (vChecks : List T) :
    (q.Add vChecks).Agrees result (added ++ vChecks) batch busy waiting ok where
  nTodo := by
    change q.nTodo + UInt32.ofNat vChecks.length =
      UInt32.ofNat ((q.queue ++ vChecks).length + batch)
    rw [h.nTodo, ← UInt32.ofNat_add, List.length_append]
    congr 1
    omega
  nTotal := h.nTotal
  nIdle := h.nIdle
  fQuit := h.fQuit
  pending := by
    have := h.pending
    change (q.queue ++ vChecks).length + batch ≤ _
    rw [List.length_append, List.length_append]
    omega
  ok := by
    change (q.fAllOk = true ∧ (∀ check ∈ q.queue ++ vChecks, result check = true) ∧ ok) ↔ _
    rw [List.forall_mem_append, List.forall_mem_append, ← h.ok]
    tauto

/-- What a thread does before it looks at the queue: it enters its batch, or is counted. -/
theorem exists_proceed {l : LoopState T} (hl : l.WellFormed)
    (h : q.Agrees result added (l.batch + batch) (l.Busy.toNat + busy) (l.Waiting.toNat + waiting)
      (l.Ok result ∧ ok)) {fMaster : Bool} {r : CheckQueue T × SectionEnd T}
    (hr : q.criticalSection fMaster l = some r) :
    ∃ q' : CheckQueue T, r = q'.proceed fMaster ∧
      q'.Agrees result added batch (busy + 1) waiting ok := by
  match l, hr with
  | .running nNow fOk [], hr =>
    simp only [criticalSection] at hr
    split at hr
    next hne =>
      have hbusy : (LoopState.running nNow fOk ([] : List T)).Busy = true := by
        simpa [LoopState.Busy] using hne
      refine ⟨_, (Option.some.inj hr).symm, merge nNow (h.congr rfl ?_ ?_ ?_)⟩
      · rw [hbusy, Bool.toNat_true, Nat.add_comm]
      · exact (Nat.zero_add _).symm
      · simp [LoopState.Ok]
    next heq =>
      rw [not_not] at heq
      subst heq
      obtain ⟨rfl, -⟩ := hl rfl
      refine ⟨_, (Option.some.inj hr).symm, enter (h.congr ?_ ?_ ?_ ?_)⟩
      · exact (Nat.zero_add _).symm
      · exact (Nat.zero_add _).symm
      · exact (Nat.zero_add _).symm
      · simp [LoopState.Ok]
  | .waiting, hr =>
    refine ⟨_, (Option.some.inj hr).symm, wake (h.congr ?_ ?_ ?_ ?_)⟩
    · exact (Nat.zero_add _).symm
    · exact (Nat.zero_add _).symm
    · exact Nat.add_comm _ _
    · simp [LoopState.Ok]
  | .outside, hr => cases hr
  | .running _ _ (_ :: _), hr => cases hr

/-- A critical section that goes on. -/
theorem goesOn (h : q.Agrees result added batch (busy + 1) waiting ok) {fMaster : Bool}
    {q' : CheckQueue T} {l : LoopState T} (hq : q.proceed fMaster = (q', .goesOn l)) :
    q'.Agrees result added (l.batch + batch) (l.Busy.toNat + busy) (l.Waiting.toNat + waiting)
      (l.Ok result ∧ ok) ∧ l.WellFormed := by
  unfold proceed at hq
  split at hq
  next hempty =>
    split at hq
    · cases hq
    · cases hq
      refine ⟨h.wait.congr ?_ ?_ ?_ ?_, trivial⟩
      · exact Nat.zero_add _
      · exact Nat.zero_add _
      · exact Nat.add_comm _ _
      · simp [LoopState.Ok]
  next hne =>
    dsimp only at hq
    obtain ⟨hpos, hle⟩ := batchSize_spec q.nBatchSize (q.nTotal + q.nIdle + 1).toUInt32
      (List.length_pos_of_ne_nil (by simpa using hne))
    cases hq
    refine ⟨(h.take hle).congr rfl ?_ ?_ Iff.rfl, fun h0 => absurd h0 hpos⟩
    · have hbusy : ∀ fOk vChecks, (LoopState.running (T := T) (max 1 (min q.nBatchSize
          (UInt32.ofNat q.queue.length / (q.nTotal + q.nIdle + 1).toUInt32))) fOk vChecks).Busy =
            true := by
        intro fOk vChecks
        simpa [LoopState.Busy] using hpos
      rw [hbusy, Bool.toNat_true, Nat.add_comm]
    · exact Nat.zero_add _

/-- A critical section that returns: only the master's does, with nothing to do. -/
theorem returned (hquit : q.fQuit = false) {fMaster : Bool} {q' : CheckQueue T} {fRet : Bool}
    (hq : q.proceed fMaster = (q', .returned fRet)) :
    fMaster = true ∧ q.queue = [] ∧ q.nTodo = 0 ∧ fRet = q.fAllOk ∧
      q' = { q with nTotal := q.nTotal - 1, fAllOk := true } := by
  unfold proceed at hq
  split at hq
  next hempty =>
    split at hq
    next hdone =>
      rw [hquit, Bool.or_false, Bool.and_eq_true, decide_eq_true_eq] at hdone
      cases hq
      refine ⟨hdone.1, by simpa using hempty, hdone.2, rfl, ?_⟩
      rw [if_pos hdone.1]
    · cases hq
  next hne => cases hq

end CheckQueue.Agrees

/-! ## Schedules -/

namespace CheckPool

variable {ι T : Type} [DecidableEq ι] [Fintype ι] {result : T → Bool}

/-- The checks of a batch that a thread has not entered yet, over all threads. -/
def inProgress (c : CheckPool ι T) : Nat := ∑ t, (c.thread t).batch

/-- The invariant of all schedules. -/
structure Sound (result : T → Bool) (c : CheckPool ι T) : Prop where
  agrees : c.q.Agrees result c.added c.inProgress (∑ t, (c.thread t).Busy.toNat)
    (∑ t, (c.thread t).Waiting.toNat) (∀ t, (c.thread t).Ok result)
  wellFormed : ∀ t, (c.thread t).WellFormed

theorem sum_eq_add_erase (f : LoopState T → Nat) (thread : Option ι → LoopState T) (t : Option ι) :
    ∑ u, f (thread u) = f (thread t) + ∑ u ∈ Finset.univ.erase t, f (thread u) :=
  (Finset.add_sum_erase _ (fun u => f (thread u)) (Finset.mem_univ t)).symm

theorem sum_update (f : LoopState T → Nat) (thread : Option ι → LoopState T) (t : Option ι)
    (l : LoopState T) :
    ∑ u, f (Function.update thread t l u) =
      f l + ∑ u ∈ Finset.univ.erase t, f (thread u) := by
  rw [sum_eq_add_erase, Function.update_self]
  congr 1
  refine Finset.sum_congr rfl fun u hu => ?_
  rw [Function.update_of_ne (Finset.ne_of_mem_erase hu)]

omit [Fintype ι] in
theorem forall_update {p : LoopState T → Prop} {thread : Option ι → LoopState T} {t : Option ι}
    {l : LoopState T} :
    (∀ u, p (Function.update thread t l u)) ↔ p l ∧ ∀ u, u ≠ t → p (thread u) := by
  refine ⟨fun h => ⟨by simpa using h t, fun u hu => by simpa [hu] using h u⟩, fun h u => ?_⟩
  by_cases hu : u = t
  · rw [hu, Function.update_self]
    exact h.1
  · rw [Function.update_of_ne hu]
    exact h.2 u hu

/-- One thread and the others. -/
theorem Sound.of_thread {c : CheckPool ι T} (h : c.Sound result) (t : Option ι) :
    c.q.Agrees result c.added
      ((c.thread t).batch + ∑ u ∈ Finset.univ.erase t, (c.thread u).batch)
      ((c.thread t).Busy.toNat + ∑ u ∈ Finset.univ.erase t, (c.thread u).Busy.toNat)
      ((c.thread t).Waiting.toNat + ∑ u ∈ Finset.univ.erase t, (c.thread u).Waiting.toNat)
      ((c.thread t).Ok result ∧ ∀ u, u ≠ t → (c.thread u).Ok result) := by
  refine h.agrees.congr ?_ ?_ ?_ ?_
  · exact (sum_eq_add_erase _ _ t).symm
  · exact (sum_eq_add_erase (fun l => l.Busy.toNat) _ t).symm
  · exact (sum_eq_add_erase (fun l => l.Waiting.toNat) _ t).symm
  · rw [← forall_update, Function.update_eq_self]

theorem Sound.update {c : CheckPool ι T} (h : c.Sound result) {t : Option ι} {q : CheckQueue T}
    {added : List T} {returned : Option Bool} {l : LoopState T} (hl : l.WellFormed)
    (hagrees : q.Agrees result added
      (l.batch + ∑ u ∈ Finset.univ.erase t, (c.thread u).batch)
      (l.Busy.toNat + ∑ u ∈ Finset.univ.erase t, (c.thread u).Busy.toNat)
      (l.Waiting.toNat + ∑ u ∈ Finset.univ.erase t, (c.thread u).Waiting.toNat)
      (l.Ok result ∧ ∀ u, u ≠ t → (c.thread u).Ok result)) :
    Sound result { q, thread := Function.update c.thread t l, added, returned } where
  agrees := hagrees.congr (sum_update _ _ t l) (sum_update (fun l => l.Busy.toNat) _ t l)
    (sum_update (fun l => l.Waiting.toNat) _ t l) forall_update
  wellFormed := forall_update.2 ⟨hl, fun u _ => h.wellFormed u⟩

omit [DecidableEq ι] in
theorem sound_new (nBatchSize : UInt32) : Sound result (new (ι := ι) (T := T) nBatchSize) where
  agrees := by
    refine ⟨?_, ?_, ?_, rfl, ?_, ?_⟩ <;>
      simp [new, CheckQueue.new, inProgress, LoopState.batch, LoopState.Busy, LoopState.Waiting,
        LoopState.Ok]
  wellFormed := fun _ => trivial

/-- The checks that have not been entered into the counters. -/
def pending (c : CheckPool ι T) : Nat := c.q.queue.length + c.inProgress

/-- **What a return means**: it is the master's, all is done, and the value is that of all checks
added. -/
theorem Sound.returns {c : CheckPool ι T} (h : c.Sound result) (hfew : c.pending < 2 ^ 32)
    {t : Option ι} {q : CheckQueue T} {fRet : Bool}
    (hq : c.q.criticalSection t.isNone (c.thread t) = some (q, .returned fRet)) :
    t = none ∧ q.queue = [] ∧ q.nTodo = 0 ∧ fRet = c.added.all result ∧ q.fAllOk = true ∧
      ∀ returned, Sound result
        { q, thread := Function.update c.thread t .outside, added := [], returned } := by
  obtain ⟨q₁, hproceed, h₁⟩ := CheckQueue.Agrees.exists_proceed (h.wellFormed t) (h.of_thread t) hq
  obtain ⟨hmaster, hempty, htodo, rfl, rfl⟩ :=
    CheckQueue.Agrees.returned h₁.fQuit hproceed.symm
  obtain rfl : t = none := Option.isNone_iff_eq_none.1 hmaster
  -- no other thread has a batch
  have hothers : ∑ u ∈ Finset.univ.erase none, (c.thread u).batch = 0 := by
    have hle : ∑ u ∈ Finset.univ.erase none, (c.thread u).batch ≤ c.inProgress :=
      Finset.sum_le_univ_sum_of_nonneg fun _ => Nat.zero_le _
    have hnat := congrArg UInt32.toNat h₁.nTodo
    unfold pending at hfew
    rw [htodo, hempty, List.length_nil, Nat.zero_add, UInt32.toNat_ofNat',
      Nat.mod_eq_of_lt (by omega)] at hnat
    exact hnat.symm
  have hok : ∀ u, u ≠ none → (c.thread u).Ok result := by
    intro u hu
    have hzero := Finset.sum_eq_zero_iff.1 hothers u (Finset.mem_erase.2 ⟨hu, Finset.mem_univ u⟩)
    have hwf := h.wellFormed u
    revert hzero hwf
    cases c.thread u with
    | running nNow fOk vChecks =>
      intro hzero hwf
      obtain ⟨rfl, rfl⟩ := hwf (UInt32.toNat_inj.1 hzero)
      exact ⟨rfl, nofun⟩
    | outside => exact fun _ _ => trivial
    | waiting => exact fun _ _ => trivial
  rw [hothers] at h₁
  obtain ⟨hall, hleft⟩ := h₁.leave hempty hok
  refine ⟨rfl, hempty, htodo, hall, rfl, fun returned => h.update trivial (hleft.congr ?_ ?_ ?_ ?_)⟩
  · rw [hothers]
    rfl
  · exact Nat.zero_add _
  · exact Nat.zero_add _
  · simp [LoopState.Ok]

/-- **Every step keeps the invariant.** -/
theorem Sound.step {c c' : CheckPool ι T} {act : CheckAct ι T} (h : c.Sound result)
    (hfew : c.pending < 2 ^ 32) (hstep : c.step result act = some c') : c'.Sound result := by
  have henter : ∀ t, c.enter t = some c' → c'.Sound result := by
    intro t henter
    unfold enter at henter
    split at henter
    next hout =>
      cases henter
      have hthread := h.of_thread t
      rw [hout] at hthread
      exact h.update (fun _ => ⟨rfl, rfl⟩) (hthread.congr rfl rfl rfl (by simp [LoopState.Ok]))
    next => cases henter
  cases act with
  | Thread i => exact henter (some i) hstep
  | Wait => exact henter none hstep
  | Add vChecks =>
    simp only [CheckPool.step] at hstep
    split at hstep
    · cases hstep
      exact ⟨h.agrees.Add vChecks, h.wellFormed⟩
    · cases hstep
  | criticalSection t =>
    simp only [CheckPool.step] at hstep
    split at hstep
    next q l hq =>
      cases hstep
      obtain ⟨q₁, hproceed, h₁⟩ :=
        CheckQueue.Agrees.exists_proceed (h.wellFormed t) (h.of_thread t) hq
      obtain ⟨hagrees, hl⟩ := h₁.goesOn hproceed.symm
      exact h.update hl hagrees
    next q fRet hq =>
      obtain ⟨rfl, -, -, -, -, hsound⟩ := h.returns hfew hq
      cases hstep
      exact hsound _
    next => cases hstep
  | check t =>
    simp only [CheckPool.step] at hstep
    split at hstep
    next nNow fOk check vChecks hrun =>
      cases hstep
      have hthread := h.of_thread t
      have hwf := h.wellFormed t
      rw [hrun] at hthread hwf
      refine h.update (fun h0 => ?_) (hthread.congr rfl rfl rfl (and_congr_left fun _ => ?_))
      · cases (hwf h0).2
      · cases fOk <;> simp [LoopState.Ok]
    next => cases hstep

omit [DecidableEq ι] in
/-- Nothing has been added since the last return: no thread is busy. -/
theorem Sound.controlAsserts {c : CheckPool ι T} (h : c.Sound result) (hadded : c.added = []) :
    c.q.controlAsserts := by
  have hpending := h.agrees.pending
  have hok := h.agrees.ok
  rw [hadded, List.length_nil] at hpending
  rw [hadded] at hok
  have hzero : c.inProgress = 0 := by omega
  have hbusy : ∑ t, (c.thread t).Busy.toNat = 0 := by
    refine Finset.sum_eq_zero fun t ht => ?_
    have hbatch := Finset.sum_eq_zero_iff.1 hzero t ht
    revert hbatch
    cases c.thread t with
    | running nNow fOk vChecks =>
      intro hbatch
      obtain rfl : nNow = 0 := UInt32.toNat_inj.1 hbatch
      rfl
    | outside => exact fun _ => rfl
    | waiting => exact fun _ => rfl
  refine ⟨?_, ?_, (hok.2 nofun).1⟩
  · rw [h.agrees.nTotal, h.agrees.nIdle, hbusy, Nat.zero_add]
  · rw [h.agrees.nTodo, show c.q.queue.length + c.inProgress = 0 by omega]
    rfl

/-- The states reached while fewer than `2 ^ 32` checks are pending. -/
inductive Reached (result : T → Bool) (nBatchSize : UInt32) : CheckPool ι T → Prop where
  | new : Reached result nBatchSize (new nBatchSize)
  | step {c c' : CheckPool ι T} (act : CheckAct ι T) : Reached result nBatchSize c →
      c.step result act = some c' → c'.pending < 2 ^ 32 → Reached result nBatchSize c'

theorem Reached.sound {nBatchSize : UInt32} {c : CheckPool ι T} (h : c.Reached result nBatchSize) :
    c.Sound result ∧ c.pending < 2 ^ 32 := by
  induction h with
  | new =>
    refine ⟨sound_new nBatchSize, ?_⟩
    simp [pending, inProgress, CheckPool.new, CheckQueue.new, LoopState.batch]
  | step act _ hstep hfew ih => exact ⟨ih.1.step ih.2 hstep, hfew⟩

end CheckPool

/-- **The queue keeps its promises under every schedule.** The counters count, and when `Wait`
returns, all checks added since the one before are done and the value is that of all of them; then
the asserts of a control object hold until checks are added again. `nTodo` is an `unsigned int`, so
that fewer than `2 ^ 32` checks may be pending at a time. -/
theorem CheckQueue_Wait {ι T : Type} [DecidableEq ι] [Fintype ι] (result : T → Bool)
    (nBatchSize : UInt32) (c : CheckPool ι T) (h : c.Reached result nBatchSize) :
    c.q.nTodo.toNat = c.q.queue.length + ∑ t, (c.thread t).batch ∧
    c.q.nTotal - c.q.nIdle = Int32.ofNat (Finset.univ.filter fun t => (c.thread t).Busy).card ∧
    (∀ q fRet, c.q.criticalSection true (c.thread none) = some (q, .returned fRet) →
      q.queue = [] ∧ q.nTodo = 0 ∧ fRet = c.added.all result ∧ q.fAllOk = true) ∧
    (c.added = [] → c.q.controlAsserts) := by
  obtain ⟨hsound, hfew⟩ := h.sound
  refine ⟨?_, ?_, fun q fRet hq => ?_, fun hadded => ?_⟩
  · unfold CheckPool.pending at hfew
    rw [hsound.agrees.nTodo, UInt32.toNat_ofNat', Nat.mod_eq_of_lt hfew]
    rfl
  · rw [hsound.agrees.nTotal, hsound.agrees.nIdle, Int32.ofNat_add, Int32.add_sub_cancel,
      Finset.card_filter]
    congr 1
    refine Finset.sum_congr rfl fun t _ => ?_
    cases (c.thread t).Busy <;> rfl
  · obtain ⟨-, hqueue, htodo, hret, hok, -⟩ := hsound.returns (t := none) hfew hq
    exact ⟨hqueue, htodo, hret, hok⟩
  · exact hsound.controlAsserts hadded

/-- Two checks, of which one fails, and one worker that has taken the one that fails. -/
def oneWorker : CheckPool Unit Bool where
  q := ⟨[true], 0, 1, true, 2, false, 4⟩
  thread := Function.update (Function.update (fun _ => .outside) (some ()) (.running 0 true []))
    (some ()) (.running 1 true [false])
  added := [true, false]
  returned := none

theorem CheckQueue_Wait_oneWorker :
    oneWorker.q.nTodo.toNat = oneWorker.q.queue.length + ∑ t, (oneWorker.thread t).batch ∧
    oneWorker.q.nTotal - oneWorker.q.nIdle =
      Int32.ofNat (Finset.univ.filter fun t => (oneWorker.thread t).Busy).card ∧
    (∀ q fRet, oneWorker.q.criticalSection true (oneWorker.thread none) =
        some (q, .returned fRet) →
      q.queue = [] ∧ q.nTodo = 0 ∧ fRet = oneWorker.added.all id ∧ q.fAllOk = true) ∧
    (oneWorker.added = [] → oneWorker.q.controlAsserts) := by
  refine CheckQueue_Wait id 4 oneWorker ?_
  refine .step (.criticalSection (some ())) (.step (.Thread ())
    (.step (.Add [true, false]) .new rfl ?_) rfl ?_) rfl ?_ <;> decide

/-- After `2 ^ 32` checks have been added, `nTodo` says that there is nothing to do. -/
theorem nTodo_wraps :
    ∃ c, (CheckPool.new (ι := Unit) 4).step id (.Add (List.replicate (2 ^ 32) true)) = some c ∧
      c.q.queue.length = 2 ^ 32 ∧ c.q.nTodo = 0 := by
  refine ⟨_, rfl, ?_, ?_⟩
  · change ([] ++ List.replicate (2 ^ 32) true).length = 2 ^ 32
    rw [List.nil_append, List.length_replicate]
  · change 0 + UInt32.ofNat (List.replicate (2 ^ 32) true).length = 0
    rw [List.length_replicate]
    rfl

end TriTip
