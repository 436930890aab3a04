import Mathlib

/-!
# Grammars with actions

A `Rule` tries to match the front of a text. It runs actions as it goes, which write a state; a rule
that misses does not take back what its actions have written, and only the text is tried again by
the next alternative. A rule may also throw, or abort (an assertion that fails, a loop without end).

`Ends` says what is guaranteed of the end of an attempt, whatever was thrown; the rules `ends_seq`,
`ends_alt`, `ends_opt` and `ends_star` follow the grammar, and a repetition needs an invariant that
each round keeps while it takes some of the text. `seq_of_hit`, `alt_of_miss` and the like are for a
text that is known.
-/

namespace Phrase

variable {α β σ ε : Type*}

/-- How an attempt ends. -/
inductive Outcome (α ε : Type*)
  | hit (rest : List α)
  | miss
  | thrown (e : ε)
  | aborted

/-- A rule of a grammar, with the state that its actions write. -/
def Rule (α σ ε : Type*) := σ → List α → σ × Outcome α ε

namespace Rule

def epsilon : Rule α σ ε := fun s text => (s, .hit text)

def raise (e : ε) : Rule α σ ε := fun s _ => (s, .thrown e)

/-- A token that is read behind the blanks, and the action on what it stands for. -/
def token (blank : α → Bool) (read : List α → Option (β × List α)) (action : β → σ → Option σ) :
    Rule α σ ε := fun s text =>
  match read (text.dropWhile blank) with
  | none => (s, .miss)
  | some (b, rest) =>
    match action b s with
    | some s' => (s', .hit rest)
    | none => (s, .aborted)

def seq (p q : Rule α σ ε) : Rule α σ ε := fun s text =>
  match p s text with
  | (s', .hit rest) => q s' rest
  | r => r

def alt (p q : Rule α σ ε) : Rule α σ ε := fun s text =>
  match p s text with
  | (s', .miss) => q s' text
  | r => r

def opt (p : Rule α σ ε) : Rule α σ ε := p.alt epsilon

/-- At most so many rounds of a repetition. -/
def rounds (p : Rule α σ ε) : Nat → Rule α σ ε
  | 0 => fun s _ => (s, .aborted)
  | n + 1 => fun s text =>
    match p s text with
    | (s', .hit rest) => rounds p n s' rest
    | (s', .miss) => (s', .hit text)
    | r => r

end Rule

open Rule

/-! ## On a text that is known -/

section Known

variable {p q : Rule α σ ε} {s s' : σ} {text rest : List α}

theorem token_of_read {blank : α → Bool} {read : List α → Option (β × List α)}
    {action : β → σ → Option σ} {b : β} (h : read (text.dropWhile blank) = some (b, rest))
    (ha : action b s = some s') :
    (token blank read action : Rule α σ ε) s text = (s', .hit rest) := by
  simp only [token, h, ha]

theorem token_of_unread {blank : α → Bool} {read : List α → Option (β × List α)}
    {action : β → σ → Option σ} (h : read (text.dropWhile blank) = none) :
    (token blank read action : Rule α σ ε) s text = (s, .miss) := by
  simp only [token, h]

theorem seq_of_hit (h : p s text = (s', .hit rest)) : p.seq q s text = q s' rest := by
  simp only [Rule.seq, h]

theorem seq_of_miss (h : p s text = (s', .miss)) : p.seq q s text = (s', .miss) := by
  simp only [Rule.seq, h]

theorem alt_of_hit (h : p s text = (s', .hit rest)) : p.alt q s text = (s', .hit rest) := by
  simp only [Rule.alt, h]

theorem alt_of_miss (h : p s text = (s', .miss)) : p.alt q s text = q s' text := by
  simp only [Rule.alt, h]

theorem opt_of_hit (h : p s text = (s', .hit rest)) : p.opt s text = (s', .hit rest) :=
  alt_of_hit h

theorem opt_of_miss (h : p s text = (s', .miss)) : p.opt s text = (s', .hit text) :=
  alt_of_miss h

theorem rounds_of_hit {n : Nat} (h : p s text = (s', .hit rest)) :
    p.rounds (n + 1) s text = p.rounds n s' rest := by
  simp only [Rule.rounds, h]

theorem rounds_of_miss {n : Nat} (h : p s text = (s', .miss)) :
    p.rounds (n + 1) s text = (s', .hit text) := by
  simp only [Rule.rounds, h]

end Known

/-! ## What an attempt guarantees -/

/-- An attempt that hits or misses as said; it may throw, but it does not abort. -/
def Ends (Hit : σ → List α → Prop) (Miss : σ → Prop) : σ × Outcome α ε → Prop
  | (s, .hit rest) => Hit s rest
  | (s, .miss) => Miss s
  | (_, .thrown _) => True
  | (_, .aborted) => False

section Guarantee

variable {p q : Rule α σ ε} {s : σ} {text : List α} {Hit Hit' : σ → List α → Prop}
  {Miss Miss' : σ → Prop}

theorem Ends.mono {r : σ × Outcome α ε} (h : Ends Hit Miss r)
    (hhit : ∀ s rest, Hit s rest → Hit' s rest) (hmiss : ∀ s, Miss s → Miss' s) :
    Ends Hit' Miss' r := by
  obtain ⟨s, o⟩ := r
  cases o with
  | hit rest => exact hhit s rest h
  | miss => exact hmiss s h
  | thrown e => trivial
  | aborted => exact h

@[simp] theorem ends_epsilon : Ends Hit Miss ((epsilon : Rule α σ ε) s text) ↔ Hit s text :=
  Iff.rfl

@[simp] theorem ends_raise (e : ε) : Ends Hit Miss ((raise e : Rule α σ ε) s text) := trivial

theorem ends_token {blank : α → Bool} {read : List α → Option (β × List α)}
    {action : β → σ → Option σ} (hmiss : read (text.dropWhile blank) = none → Miss s)
    (hhit : ∀ b rest, read (text.dropWhile blank) = some (b, rest) →
      ∃ s', action b s = some s' ∧ Hit s' rest) :
    Ends Hit Miss ((token blank read action : Rule α σ ε) s text) := by
  cases h : read (text.dropWhile blank) with
  | none =>
    rw [token_of_unread h]
    exact hmiss h
  | some r =>
    obtain ⟨s', ha, hs'⟩ := hhit r.1 r.2 h
    rw [token_of_read h ha]
    exact hs'

theorem ends_seq (h : Ends (fun s' rest => Ends Hit Miss (q s' rest)) Miss (p s text)) :
    Ends Hit Miss (p.seq q s text) := by
  unfold Rule.seq
  cases hr : p s text with
  | mk s' o =>
    rw [hr] at h
    cases o with
    | hit rest => exact h
    | miss => exact h
    | thrown e => trivial
    | aborted => exact h

theorem ends_alt (h : Ends Hit (fun s' => Ends Hit Miss (q s' text)) (p s text)) :
    Ends Hit Miss (p.alt q s text) := by
  unfold Rule.alt
  cases hr : p s text with
  | mk s' o =>
    rw [hr] at h
    cases o with
    | hit rest => exact h
    | miss => exact h
    | thrown e => trivial
    | aborted => exact h

theorem ends_opt (h : Ends Hit (fun s' => Hit s' text) (p s text)) :
    Ends Hit Miss (p.opt s text) :=
  ends_alt h

/-- **The rule for a repetition.** Each round that hits keeps the invariant and takes some of the
text, so there are at most as many as there are symbols. -/
theorem ends_rounds (I : σ → List α → Prop)
    (hround : ∀ s text, I s text →
      Ends (fun s' rest => I s' rest ∧ rest.length < text.length) (fun s' => Hit s' text)
        (p s text)) :
    ∀ (n : Nat) (s : σ) (text : List α), text.length < n → I s text →
      Ends Hit Miss (p.rounds n s text) := by
  intro n
  induction n with
  | zero =>
    intro s text hn _
    exact absurd hn (Nat.not_lt_zero _)
  | succ n ih =>
    intro s text hn hI
    have h := hround s text hI
    unfold Rule.rounds
    cases hr : p s text with
    | mk s' o =>
      rw [hr] at h
      cases o with
      | hit rest => exact ih s' rest (by have := h.2; omega) h.1
      | miss => exact h
      | thrown e => trivial
      | aborted => exact h

end Guarantee

end Phrase
