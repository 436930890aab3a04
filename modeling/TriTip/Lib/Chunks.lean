import Mathlib

/-!
# Taking in a stream piece by piece

A reader takes in bytes with `absorb`, which says how many of those offered it has handled or that
it fails, and is called until nothing is left of the piece (`Chunks.feed`). `Chunks.Incremental`
is what makes the result independent of the pieces: a call takes something, and when it would have
gone on into the bytes behind the piece, the next call takes up where it stopped. Then feeding a
stream in pieces is feeding it at once (`feedAll_eq`).
-/

namespace Chunks

variable {σ β : Type}

/-- Calls of `absorb`, at most `n` of them, until nothing is left. -/
def loop (absorb : σ → List β → Option Nat × σ) : Nat → σ → List β → Bool × σ
  | 0, s, _ => (true, s)
  | n + 1, s, bs =>
    if bs.isEmpty then (true, s)
    else
      match absorb s bs with
      | (none, s') => (false, s')
      | (some handled, s') => loop absorb n s' (bs.drop handled)

/-- One piece. Every call handles at least one byte, so that there are no more calls than bytes. -/
def feed (absorb : σ → List β → Option Nat × σ) (s : σ) (bs : List β) : Bool × σ :=
  loop absorb bs.length s bs

/-- One piece after another, up to the first failure. -/
def feedAll (absorb : σ → List β → Option Nat × σ) : σ → List (List β) → Bool × σ
  | s, [] => (true, s)
  | s, bs :: rest =>
    match feed absorb s bs with
    | (true, s') => feedAll absorb s' rest
    | (false, s') => (false, s')

/-- A reader to which the cuts of a stream make no difference, in the states `P`. -/
structure Incremental (P : σ → Prop) (absorb : σ → List β → Option Nat × σ) : Prop where
  progress : ∀ {s s' : σ} {bs : List β} {n : Nat}, P s → bs ≠ [] → absorb s bs = (some n, s') →
    0 < n ∧ n ≤ bs.length ∧ P s'
  resume : ∀ {s : σ} {a : List β} (b : List β), P s → a ≠ [] →
    absorb s (a ++ b) = absorb s a ∨
      ∃ s', absorb s a = (some a.length, s') ∧ (b ≠ [] →
        absorb s (a ++ b) = ((absorb s' b).1.map (a.length + ·), (absorb s' b).2))

variable {absorb : σ → List β → Option Nat × σ} {P : σ → Prop}

@[simp] theorem feed_nil (s : σ) : feed absorb s [] = (true, s) := rfl

/-- More calls than bytes change nothing. -/
theorem loop_of_length_le (h : Incremental P absorb) {n m : Nat} {s : σ} {bs : List β} (hs : P s)
    (hn : bs.length ≤ n) (hm : bs.length ≤ m) : loop absorb n s bs = loop absorb m s bs := by
  induction n generalizing m s bs with
  | zero =>
    obtain rfl := List.length_eq_zero_iff.1 (Nat.le_zero.1 hn)
    cases m <;> rfl
  | succ n ih =>
    cases m with
    | zero =>
      obtain rfl := List.length_eq_zero_iff.1 (Nat.le_zero.1 hm)
      rfl
    | succ m =>
      unfold loop
      by_cases hbs : bs = []
      · rw [hbs]
        rfl
      · rw [if_neg (by simpa using hbs), if_neg (by simpa using hbs)]
        rcases ha : absorb s bs with ⟨_ | k, s'⟩
        · rfl
        · obtain ⟨hpos, hle, hs'⟩ := h.progress hs hbs ha
          have hlen : (bs.drop k).length = bs.length - k := List.length_drop
          exact ih hs' (by omega) (by omega)

/-- One call, and the rest of the piece. -/
theorem feed_of_ne_nil (h : Incremental P absorb) {s : σ} {bs : List β} (hs : P s) (hbs : bs ≠ []) :
    feed absorb s bs =
      match absorb s bs with
      | (none, s') => (false, s')
      | (some k, s') => feed absorb s' (bs.drop k) := by
  obtain ⟨n, hn⟩ : ∃ n, bs.length = n + 1 :=
    Nat.exists_eq_succ_of_ne_zero fun h0 => hbs (List.length_eq_zero_iff.1 h0)
  unfold feed
  rw [hn, loop, if_neg (by simpa using hbs)]
  rcases ha : absorb s bs with ⟨_ | k, s'⟩
  · rfl
  · obtain ⟨hpos, hle, hs'⟩ := h.progress hs hbs ha
    have hlen : (bs.drop k).length = bs.length - k := List.length_drop
    exact loop_of_length_le h hs' (by omega) (Nat.le_refl _)

theorem feed_none (h : Incremental P absorb) {s s' : σ} {bs : List β} (hs : P s) (hbs : bs ≠ [])
    (ha : absorb s bs = (none, s')) : feed absorb s bs = (false, s') := by
  rw [feed_of_ne_nil h hs hbs, ha]

theorem feed_some (h : Incremental P absorb) {s s' : σ} {bs : List β} {k : Nat} (hs : P s)
    (hbs : bs ≠ []) (ha : absorb s bs = (some k, s')) :
    feed absorb s bs = feed absorb s' (bs.drop k) := by
  rw [feed_of_ne_nil h hs hbs, ha]

/-- A map between readers that their calls respect is one that feeding respects. -/
theorem loop_map {τ : Type} {absorb' : τ → List β → Option Nat × τ} (f : σ → τ)
    (h : ∀ s bs, absorb' (f s) bs = ((absorb s bs).1, f (absorb s bs).2)) (n : Nat) (s : σ)
    (bs : List β) :
    loop absorb' n (f s) bs = ((loop absorb n s bs).1, f (loop absorb n s bs).2) := by
  induction n generalizing s bs with
  | zero => rfl
  | succ n ih =>
    unfold loop
    split
    · rfl
    · rw [h]
      rcases absorb s bs with ⟨_ | k, s'⟩
      · rfl
      · exact ih s' (bs.drop k)

theorem feed_map {τ : Type} {absorb' : τ → List β → Option Nat × τ} (f : σ → τ)
    (h : ∀ s bs, absorb' (f s) bs = ((absorb s bs).1, f (absorb s bs).2)) (s : σ) (bs : List β) :
    feed absorb' (f s) bs = ((feed absorb s bs).1, f (feed absorb s bs).2) :=
  loop_map f h bs.length s bs

/-- The invariant holds after every piece that did not fail. -/
theorem feed_invariant (h : Incremental P absorb) {s s' : σ} {bs : List β} (hs : P s)
    (hf : feed absorb s bs = (true, s')) : P s' := by
  induction hlen : bs.length using Nat.strong_induction_on generalizing s bs with
  | _ len ih =>
    subst hlen
    by_cases hbs : bs = []
    · subst hbs
      obtain ⟨-, rfl⟩ := Prod.mk.inj hf
      exact hs
    · rcases ha : absorb s bs with ⟨_ | k, s''⟩
      · rw [feed_none h hs hbs ha] at hf
        exact absurd (Prod.mk.inj hf).1 (by decide)
      · obtain ⟨hpos, hle, hs''⟩ := h.progress hs hbs ha
        rw [feed_some h hs hbs ha] at hf
        exact ih _ (by rw [List.length_drop]; omega) hs'' hf rfl

/-- **Two pieces are one.** -/
theorem feed_append (h : Incremental P absorb) {s : σ} (hs : P s) (a b : List β) :
    feed absorb s (a ++ b) =
      match feed absorb s a with
      | (true, s') => feed absorb s' b
      | (false, s') => (false, s') := by
  induction hlen : a.length using Nat.strong_induction_on generalizing s a with
  | _ len ih =>
    subst hlen
    by_cases ha0 : a = []
    · subst ha0
      rfl
    have hab : a ++ b ≠ [] := List.append_ne_nil_of_left_ne_nil ha0 b
    rcases h.resume b hs ha0 with hsame | ⟨s', ha, hb⟩
    · -- the call stops within the first piece
      rcases ha : absorb s a with ⟨_ | k, s'⟩
      · rw [feed_none h hs ha0 ha, feed_none h hs hab (hsame.trans ha)]
      · obtain ⟨hpos, hle, hs'⟩ := h.progress hs ha0 ha
        rw [feed_some h hs ha0 ha, feed_some h hs hab (hsame.trans ha),
          List.drop_append_of_le_length hle]
        exact ih _ (by rw [List.length_drop]; omega) hs' _ rfl
    · -- the call goes on into the second piece
      obtain ⟨-, -, hs'⟩ := h.progress hs ha0 ha
      rw [feed_some h hs ha0 ha, List.drop_length, feed_nil]
      dsimp only
      by_cases hb0 : b = []
      · subst hb0
        rw [List.append_nil, feed_some h hs ha0 ha, List.drop_length]
      · have hresumed := hb hb0
        rcases hb' : absorb s' b with ⟨_ | k, s''⟩
        · rw [hb'] at hresumed
          rw [feed_none h hs hab hresumed, feed_none h hs' hb0 hb']
        · rw [hb'] at hresumed
          rw [feed_some h hs hab hresumed, feed_some h hs' hb0 hb', List.drop_length_add_append]

/-- **Feeding a stream in pieces is feeding it at once.** -/
theorem feedAll_eq (h : Incremental P absorb) {s : σ} (hs : P s) (pieces : List (List β)) :
    feedAll absorb s pieces = feed absorb s pieces.flatten := by
  induction pieces generalizing s with
  | nil => rfl
  | cons bs rest ih =>
    rw [List.flatten_cons, feed_append h hs, feedAll]
    rcases hf : feed absorb s bs with ⟨_ | _, s'⟩
    · rfl
    · exact ih (feed_invariant h hs hf)

end Chunks
