import Mathlib

/-!
# The address book: what the manager's tables are for

An address book says where each known address is kept: in one tried bucket, or in a few new buckets
(at least one, at most `k`). The types of ids, tried buckets and new buckets are arbitrary. A place
carries its own bounds, so a book with an address in no bucket, or in too many, cannot be built.

`Book.Step` lists what can happen to a book. Two facts follow from the steps alone: an address that
leaves the book was in a single new bucket when it left (`Book.Step.forgets`), and the only way out
of a tried bucket is back into one new bucket (`Book.Step.leaves_tried`).
-/

/-- Where an address is kept. -/
inductive Place (τ ν : Type) (k : Nat)
  | tried (t : τ)
  | new (bs : Finset ν) (pos : 0 < bs.card) (le : bs.card ≤ k)

namespace Place

variable {τ ν : Type} {k : Nat}

def isTried : Place τ ν k → Bool
  | tried _ => true
  | new .. => false

/-- The new buckets that hold the address. -/
def buckets : Place τ ν k → Finset ν
  | tried _ => ∅
  | new bs _ _ => bs

/-- The reference count: in how many new buckets the address is. -/
def refs (p : Place τ ν k) : Nat := p.buckets.card

/-- In the one new bucket `b`. -/
def single [NeZero k] (b : ν) : Place τ ν k :=
  new {b} (by simp) (by simpa using Nat.one_le_iff_ne_zero.2 (NeZero.ne k))

@[simp] theorem isTried_tried (t : τ) : (tried t : Place τ ν k).isTried = true := rfl
@[simp] theorem isTried_new {bs : Finset ν} {pos : 0 < bs.card} {le : bs.card ≤ k} :
    (new bs pos le : Place τ ν k).isTried = false := rfl
@[simp] theorem isTried_single [NeZero k] (b : ν) : (single b : Place τ ν k).isTried = false := rfl
@[simp] theorem buckets_tried (t : τ) : (tried t : Place τ ν k).buckets = ∅ := rfl
@[simp] theorem buckets_new {bs : Finset ν} {pos : 0 < bs.card} {le : bs.card ≤ k} :
    (new bs pos le : Place τ ν k).buckets = bs := rfl
@[simp] theorem buckets_single [NeZero k] (b : ν) : (single b : Place τ ν k).buckets = {b} := rfl
@[simp] theorem refs_tried (t : τ) : (tried t : Place τ ν k).refs = 0 := rfl
@[simp] theorem refs_new {bs : Finset ν} {pos : 0 < bs.card} {le : bs.card ≤ k} :
    (new bs pos le : Place τ ν k).refs = bs.card := rfl
@[simp] theorem refs_single [NeZero k] (b : ν) : (single b : Place τ ν k).refs = 1 := by
  simp [refs]

end Place

/-- Where each known id is kept; `none` for an id that is not known. -/
abbrev Book (ι τ ν : Type) (k : Nat) := ι → Option (Place τ ν k)

namespace Book

variable {ι τ ν : Type} {k : Nat} [DecidableEq ι] [DecidableEq ν] [NeZero k]

/-- The new buckets that hold an id. -/
def newBuckets (book : Book ι τ ν k) (i : ι) : Finset ν := (book i).elim ∅ Place.buckets

omit [DecidableEq ι] [DecidableEq ν] [NeZero k] in
theorem newBuckets_of_some {book : Book ι τ ν k} {i : ι} {p : Place τ ν k} (h : book i = some p) :
    book.newBuckets i = p.buckets := by
  rw [newBuckets, h, Option.elim_some]

omit [DecidableEq ν] [NeZero k] in
theorem newBuckets_update (book : Book ι τ ν k) (i : ι) (q : Option (Place τ ν k)) (j : ι) :
    newBuckets (Function.update book i q) j =
      if j = i then q.elim ∅ Place.buckets else book.newBuckets j := by
  unfold newBuckets
  rw [Function.update_apply]
  split <;> rfl

/-- What can happen to an address book. -/
inductive Step : Book ι τ ν k → Book ι τ ν k → Prop
  /-- an unknown address enters a new bucket -/
  | enter {book : Book ι τ ν k} {i : ι} (b : ν) (h : book i = none) :
      Step book (Function.update book i (some (.single b)))
  /-- one more new bucket takes an address -/
  | refer {book : Book ι τ ν k} {i : ι} {bs pos le} (b : ν) (h : book i = some (.new bs pos le))
      (hb : b ∉ bs) (pos' : 0 < (insert b bs).card) (le' : (insert b bs).card ≤ k) :
      Step book (Function.update book i (some (.new (insert b bs) pos' le')))
  /-- one of its new buckets gives an address up -/
  | release {book : Book ι τ ν k} {i : ι} {bs pos le} (b : ν)
      (h : book i = some (.new bs pos le)) (hb : b ∈ bs) (pos' : 0 < (bs.erase b).card)
      (le' : (bs.erase b).card ≤ k) :
      Step book (Function.update book i (some (.new (bs.erase b) pos' le')))
  /-- its only new bucket gives an address up -/
  | forget {book : Book ι τ ν k} {i : ι} (b : ν) (h : book i = some (.single b)) :
      Step book (Function.update book i none)
  /-- an address moves from its new buckets to a tried bucket -/
  | promote {book : Book ι τ ν k} {i : ι} {bs pos le} (t : τ)
      (h : book i = some (.new bs pos le)) :
      Step book (Function.update book i (some (.tried t)))
  /-- a tried address moves back to a new bucket -/
  | evict {book : Book ι τ ν k} {i : ι} {t : τ} (b : ν) (h : book i = some (.tried t)) :
      Step book (Function.update book i (some (.single b)))

/-- Any number of steps. -/
abbrev Steps (book book' : Book ι τ ν k) : Prop := Relation.ReflTransGen Step book book'

/-- Only an address in a single new bucket leaves the book. -/
theorem Step.forgets {book book' : Book ι τ ν k} (h : Step book book') {i : ι}
    (hi : book i ≠ none) (hi' : book' i = none) : ∃ b, book i = some (.single b) := by
  cases h with
  | @forget j b hj =>
    by_cases hij : i = j
    · subst hij
      exact ⟨b, hj⟩
    · rw [Function.update_of_ne hij] at hi'
      exact absurd hi' hi
  | @enter j _ _ | @refer j _ _ _ _ _ _ _ _ | @release j _ _ _ _ _ _ _ _ | @promote j _ _ _ _ _
  | @evict j _ _ _ =>
    by_cases hij : i = j
    · subst hij
      rw [Function.update_self] at hi'
      cases hi'
    · rw [Function.update_of_ne hij] at hi'
      exact absurd hi' hi

/-- The only way out of a tried bucket is back into one new bucket. -/
theorem Step.leaves_tried {book book' : Book ι τ ν k} (h : Step book book') {i : ι} {t : τ}
    (hi : book i = some (.tried t)) :
    book' i = some (.tried t) ∨ ∃ b, book' i = some (.single b) := by
  have keep : ∀ {j : ι} {p : Option (Place τ ν k)}, i ≠ j →
      Function.update book j p i = some (.tried t) := fun hij => by
    rw [Function.update_of_ne hij, hi]
  cases h with
  | @evict j _ b hj =>
    by_cases hij : i = j
    · subst hij
      exact Or.inr ⟨b, Function.update_self ..⟩
    · exact Or.inl (keep hij)
  | @enter j _ hj | @forget j _ hj =>
    by_cases hij : i = j
    · subst hij
      rw [hi] at hj
      cases hj
    · exact Or.inl (keep hij)
  | @refer j _ _ _ _ hj _ _ _ | @release j _ _ _ _ hj _ _ _ | @promote j _ _ _ _ hj =>
    by_cases hij : i = j
    · subst hij
      rw [hi] at hj
      cases hj
    · exact Or.inl (keep hij)

end Book
