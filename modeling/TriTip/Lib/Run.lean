import Mathlib

/-!
# Runs of a fallible step function

A component is given by a step `step : σ → ω → Except ε σ`: it takes an operation and either moves
to a new state or fails (an assertion, an access out of range). A run feeds it a list of operations
and stops at the first failure. `run_of_invariant` is the safety rule: an invariant that every
admissible operation keeps, together with "the operation does not fail", holds at the end of every
run, and the run does not fail. A reachable state is the end of some run, so the rule speaks about
every reachable state.
-/

namespace Run

variable {σ ω ε : Type*}

/-- Feed the operations one after another, stopping at the first failure. -/
def run (step : σ → ω → Except ε σ) : σ → List ω → Except ε σ
  | s, [] => .ok s
  | s, op :: ops =>
    match step s op with
    | .ok s' => run step s' ops
    | .error e => .error e

theorem run_cons_of_ok {step : σ → ω → Except ε σ} {s s' : σ} {op : ω}
    (h : step s op = .ok s') (ops : List ω) : run step s (op :: ops) = run step s' ops := by
  simp only [run, h]

/-- **The invariant rule.** If every admissible operation succeeds from a state satisfying `P` and
leads to one, so does every run of admissible operations. -/
theorem run_of_invariant {step : σ → ω → Except ε σ} (P : σ → Prop) (Adm : ω → Prop)
    (hstep : ∀ s op, P s → Adm op → ∃ s', step s op = .ok s' ∧ P s') :
    ∀ (ops : List ω) (s : σ), P s → (∀ op ∈ ops, Adm op) → ∃ s', run step s ops = .ok s' ∧
      P s' := by
  intro ops
  induction ops with
  | nil =>
    intro s hs _
    exact ⟨s, rfl, hs⟩
  | cons op ops ih =>
    intro s hs hadm
    obtain ⟨t, ht, hPt⟩ := hstep s op hs (hadm op List.mem_cons_self)
    obtain ⟨s', hrun, hP⟩ := ih t hPt fun o ho => hadm o (List.mem_cons_of_mem _ ho)
    exact ⟨s', by rw [run_cons_of_ok ht, hrun], hP⟩

/-- The rule for steps that cannot fail. -/
theorem foldl_of_invariant {step : σ → ω → σ} (P : σ → Prop) (Adm : ω → Prop)
    (hstep : ∀ s op, P s → Adm op → P (step s op)) :
    ∀ (ops : List ω) (s : σ), P s → (∀ op ∈ ops, Adm op) → P (ops.foldl step s) := by
  intro ops
  induction ops with
  | nil => intro s hs _; exact hs
  | cons op ops ih =>
    intro s hs hadm
    exact ih (step s op) (hstep s op hs (hadm op List.mem_cons_self))
      fun o ho => hadm o (List.mem_cons_of_mem _ ho)

/-- The history rule for steps that cannot fail: what the empty history has and each step keeps
holds after each part of the operations from the beginning. -/
theorem foldl_of_prefix {step : σ → ω → σ} {s₀ : σ} (P : List ω → σ → Prop) (hstart : P [] s₀)
    {ops : List ω} (hstep : ∀ pre op, pre ++ [op] <+: ops → P pre (pre.foldl step s₀) →
      P (pre ++ [op]) (step (pre.foldl step s₀) op)) {pre : List ω} (hpre : pre <+: ops) :
    P pre (pre.foldl step s₀) := by
  induction pre using List.reverseRecOn with
  | nil => exact hstart
  | append_singleton pre op ih =>
    rw [List.foldl_append]
    exact hstep pre op hpre (ih ((List.prefix_append pre [op]).trans hpre))

/-! ## Histories -/

theorem run_append_singleton (step : σ → ω → Except ε σ) (s : σ) (ops : List ω) (op : ω) :
    run step s (ops ++ [op]) = (run step s ops).bind fun s' => step s' op := by
  induction ops generalizing s with
  | nil =>
    simp only [List.nil_append, run, Except.bind]
    cases step s op <;> rfl
  | cons o ops ih =>
    rw [List.cons_append]
    unfold run
    cases step s o with
    | error e => rfl
    | ok t => exact ih t

/-- **The history rule.** What holds of the empty history and is kept by a step, of the operations
that led to a state and that state, holds of every run. -/
theorem run_induction {step : σ → ω → Except ε σ} {s₀ : σ} (P : List ω → σ → Prop)
    (hstart : P [] s₀)
    (hstep : ∀ ops s op s', run step s₀ ops = .ok s → P ops s → step s op = .ok s' →
      P (ops ++ [op]) s')
    {ops : List ω} {s : σ} (h : run step s₀ ops = .ok s) : P ops s := by
  induction ops using List.reverseRecOn generalizing s with
  | nil =>
    obtain rfl := Except.ok.inj h
    exact hstart
  | append_singleton ops op ih =>
    rw [run_append_singleton] at h
    cases hrun : run step s₀ ops with
    | error e =>
      rw [hrun] at h
      cases h
    | ok t =>
      rw [hrun] at h
      exact hstep ops t op s hrun (ih hrun) h

/-- **The history rule for runs that do not fail.** -/
theorem run_of_history {step : σ → ω → Except ε σ} {s₀ : σ} (P : List ω → σ → Prop)
    (Adm : ω → Prop) (hstart : P [] s₀)
    (hstep : ∀ ops s op, P ops s → Adm op → ∃ s', step s op = .ok s' ∧ P (ops ++ [op]) s')
    (ops : List ω) (hadm : ∀ op ∈ ops, Adm op) : ∃ s', run step s₀ ops = .ok s' ∧ P ops s' := by
  induction ops using List.reverseRecOn with
  | nil => exact ⟨s₀, rfl, hstart⟩
  | append_singleton ops op ih =>
    obtain ⟨t, hrun, hP⟩ := ih fun o ho => hadm o (List.mem_append_left [op] ho)
    obtain ⟨s', ht, hP'⟩ := hstep ops t op hP (hadm op (by simp))
    refine ⟨s', ?_, hP'⟩
    rw [run_append_singleton, hrun]
    exact ht

/-- A step that the run has taken. -/
def Took (step : σ → ω → Except ε σ) (s₀ : σ) (ops : List ω) (P : σ → ω → Prop) : Prop :=
  ∃ pre op s, pre ++ [op] <+: ops ∧ run step s₀ pre = .ok s ∧ P s op

theorem not_took_nil {step : σ → ω → Except ε σ} {s₀ : σ} {P : σ → ω → Prop} :
    ¬Took step s₀ [] P := by
  rintro ⟨pre, op, s, hpre, -⟩
  exact absurd (List.prefix_nil.1 hpre) (List.append_ne_nil_of_right_ne_nil _ (by simp))

theorem took_append_singleton {step : σ → ω → Except ε σ} {s₀ s : σ} {ops : List ω} {op : ω}
    {P : σ → ω → Prop} (h : run step s₀ ops = .ok s) :
    Took step s₀ (ops ++ [op]) P ↔ Took step s₀ ops P ∨ P s op := by
  constructor
  · rintro ⟨pre, op', s', hpre, hrun, hP⟩
    rcases List.prefix_concat_iff.1 hpre with heq | hpre
    · obtain ⟨rfl, hop⟩ := List.append_inj' heq rfl
      obtain rfl := Except.ok.inj (hrun.symm.trans h)
      obtain rfl := List.singleton_inj.1 hop
      exact .inr hP
    · exact .inl ⟨pre, op', s', hpre, hrun, hP⟩
  · rintro (⟨pre, op', s', hpre, hrun, hP⟩ | hP)
    · exact ⟨pre, op', s', hpre.trans (List.prefix_append _ _), hrun, hP⟩
    · exact ⟨ops, op, s, List.prefix_refl _, h, hP⟩

end Run
