import Mathlib

/-!
# Byte codecs and decoding in place

A `Codec` writes values as bytes and reads them back; `RoundTrips` is the law that reading what
was written gives the value and leaves the rest of the stream.

A `Parser` reads a value off a stream. A `Decoder` reads a stream into a state that it updates as
it goes: when a read fails, the state stays as the reads before have made it. `Decoder.Parses`
relates the two: the decoder succeeds on a stream if and only if the parser does, and then the new
state is a function of the parsed value and the old state alone. `Parses.bind_succeeds` and
`Parses.bind_fails` follow a sequence of reads step by step; `Decoder.Keeps` says what no read of
a decoder changes.
-/

/-- Reading a value of type `α` off a stream of bytes. -/
abbrev Parser (α : Type) := StateT (List UInt8) Option α

structure Codec (α : Type) where
  write : α → List UInt8
  read : Parser α
  /-- what a variable holds after a read into it that failed -/
  thrown : α → List UInt8 → α

namespace Codec

variable {α : Type}

/-- Reading what was written gives the value back, whatever follows. -/
def RoundTrips (c : Codec α) (a : α) : Prop :=
  ∀ rest, c.read (c.write a ++ rest) = some (a, rest)

end Codec

namespace Parser

variable {α : Type}

/-- `n` values one after another. -/
def many (p : Parser α) : Nat → Parser (List α)
  | 0 => pure []
  | n + 1 => do
    let x ← p
    let xs ← many p n
    pure (x :: xs)

theorem bind_eq_some {β : Type} {p : Parser α} {f : α → Parser β} {bs rest : List UInt8} {y : β} :
    (p >>= f) bs = some (y, rest) ↔ ∃ x bs', p bs = some (x, bs') ∧ f x bs' = some (y, rest) := by
  change (p bs).bind (fun r => f r.1 r.2) = some (y, rest) ↔ _
  rw [Option.bind_eq_some_iff]
  simp

theorem bind_eq_none {β : Type} {p : Parser α} {f : α → Parser β} {bs : List UInt8} :
    (p >>= f) bs = none ↔ p bs = none ∨ ∃ x bs', p bs = some (x, bs') ∧ f x bs' = none := by
  change (p bs).bind (fun r => f r.1 r.2) = none ↔ _
  cases p bs with
  | none => simp
  | some r =>
    obtain ⟨x, bs'⟩ := r
    simp

theorem length_of_many {p : Parser α} {n : Nat} {bs rest : List UInt8} {xs : List α}
    (h : many p n bs = some (xs, rest)) : xs.length = n := by
  induction n generalizing bs xs with
  | zero =>
    obtain ⟨rfl, -⟩ := Prod.mk.inj (Option.some.inj h)
    rfl
  | succ n ih =>
    obtain ⟨x, bs', -, h⟩ := bind_eq_some.1 h
    obtain ⟨ys, bs'', hys, h⟩ := bind_eq_some.1 h
    obtain ⟨rfl, rfl⟩ := Prod.mk.inj (Option.some.inj h)
    rw [List.length_cons, ih hys]

/-- What holds of every value parsed holds of the elements of a list parsed. -/
theorem of_mem_many {p : Parser α} {P : α → Prop}
    (hP : ∀ {bs rest x}, p bs = some (x, rest) → P x) {n : Nat} {bs rest : List UInt8} {xs : List α}
    (h : many p n bs = some (xs, rest)) {x : α} (hx : x ∈ xs) : P x := by
  induction n generalizing bs xs with
  | zero =>
    obtain ⟨rfl, -⟩ := Prod.mk.inj (Option.some.inj h)
    cases hx
  | succ n ih =>
    obtain ⟨y, bs', hy, h⟩ := bind_eq_some.1 h
    obtain ⟨ys, bs'', hys, h⟩ := bind_eq_some.1 h
    obtain ⟨rfl, rfl⟩ := Prod.mk.inj (Option.some.inj h)
    rcases List.mem_cons.1 hx with rfl | hx
    · exact hP hy
    · exact ih hys hx

/-- A list written element by element is read back. -/
theorem many_flatMap {p : Parser α} {write : α → List UInt8} {xs : List α}
    (h : ∀ x ∈ xs, ∀ rest, p (write x ++ rest) = some (x, rest)) (rest : List UInt8) :
    many p xs.length (xs.flatMap write ++ rest) = some (xs, rest) := by
  induction xs with
  | nil => rfl
  | cons x xs ih =>
    rw [List.flatMap_cons, List.append_assoc, List.length_cons]
    refine bind_eq_some.2 ⟨x, _, h x List.mem_cons_self _, ?_⟩
    exact bind_eq_some.2 ⟨xs, rest, ih fun y hy => h y (List.mem_cons_of_mem _ hy), rfl⟩

/-- A field that may be missing at the end of the stream. -/
def ifMore (p missing : Parser α) : Parser α := fun bs => if bs.isEmpty then missing bs else p bs

end Parser

/-- Reading a stream into a state. A failure leaves the state as it is by then. -/
abbrev Decoder (σ α : Type) := σ → List UInt8 → σ × Option (α × List UInt8)

namespace Decoder

variable {σ α β γ : Type}

instance : Monad (Decoder σ) where
  pure a := fun s bs => (s, some (a, bs))
  bind d f := fun s bs =>
    match d s bs with
    | (s', some (a, bs')) => f a s' bs'
    | (s', none) => (s', none)

def get : Decoder σ σ := fun s bs => (s, some (s, bs))

def modify (f : σ → σ) : Decoder σ Unit := fun s bs => (f s, some ((), bs))

/-- A read into a local variable. -/
def readLocal (c : Codec α) : Decoder σ α := fun s bs => (s, c.read bs)

/-- A read into a variable of the state; it returns the new value. -/
def readInto (c : Codec α) (get : σ → α) (set : α → σ → σ) : Decoder σ α := fun s bs =>
  match c.read bs with
  | some (a, bs') => (set a s, some (a, bs'))
  | none => (set (c.thrown (get s) bs) s, none)

@[simp] theorem pure_apply (a : α) (s : σ) (bs : List UInt8) :
    (pure a : Decoder σ α) s bs = (s, some (a, bs)) := rfl

theorem bind_of_some {d : Decoder σ α} {f : α → Decoder σ β} {s s' : σ} {bs bs' : List UInt8}
    {a : α}
    (h : d s bs = (s', some (a, bs'))) : (d >>= f) s bs = f a s' bs' := by
  change (match d s bs with | (s', some (a, bs')) => f a s' bs' | (s', none) => (s', none)) = _
  rw [h]

theorem bind_of_none {d : Decoder σ α} {f : α → Decoder σ β} {s : σ} {bs : List UInt8}
    (h : (d s bs).2 = none) : (d >>= f) s bs = ((d s bs).1, none) := by
  change (match d s bs with | (s', some (a, bs')) => f a s' bs' | (s', none) => (s', none)) = _
  rcases hd : d s bs with ⟨s', r⟩
  rw [hd] at h
  obtain rfl : r = none := h
  rfl

@[simp] theorem modify_bind (f : σ → σ) (g : Unit → Decoder σ β) (s : σ) (bs : List UInt8) :
    (modify f >>= g) s bs = g () (f s) bs := rfl

/-- The decoder accepts what the parser accepts, and the parsed value says what it does to the state
and what it returns. -/
def Parses (d : Decoder σ α) (p : Parser β) (load : β → σ → σ) (val : β → α) : Prop :=
  ∀ s bs, (∀ x rest, p bs = some (x, rest) → d s bs = (load x s, some (val x, rest))) ∧
    (p bs = none → (d s bs).2 = none)

theorem Parses.succeeds {d : Decoder σ α} {p : Parser β} {load : β → σ → σ} {val : β → α}
    (h : Parses d p load val) {s : σ} {bs rest : List UInt8} {x : β} (hp : p bs = some (x, rest)) :
    d s bs = (load x s, some (val x, rest)) := (h s bs).1 x rest hp

theorem Parses.fails {d : Decoder σ α} {p : Parser β} {load : β → σ → σ} {val : β → α}
    (h : Parses d p load val) {s : σ} {bs : List UInt8} (hp : p bs = none) :
    (d s bs).2 = none := (h s bs).2 hp

/-- What a decoder that succeeds has parsed. -/
theorem Parses.of_some {d : Decoder σ α} {p : Parser β} {load : β → σ → σ} {val : β → α}
    (h : Parses d p load val) {s s' : σ} {bs rest : List UInt8} {a : α}
    (hd : d s bs = (s', some (a, rest))) :
    ∃ x, p bs = some (x, rest) ∧ s' = load x s ∧ a = val x := by
  cases hp : p bs with
  | none =>
    have := h.fails (s := s) hp
    rw [hd] at this
    cases this
  | some r =>
    obtain ⟨x, rest'⟩ := r
    have hx := h.succeeds (s := s) hp
    rw [hd] at hx
    obtain ⟨rfl, hr⟩ := Prod.mk.inj hx
    obtain ⟨rfl, rfl⟩ := Prod.mk.inj (Option.some.inj hr)
    exact ⟨x, rfl, rfl, rfl⟩

theorem parses_readLocal (c : Codec α) :
    Parses (readLocal c : Decoder σ α) c.read (fun _ s => s) fun a => a :=
  fun s bs => ⟨fun x rest h => by unfold readLocal; rw [h], fun h => h⟩

theorem parses_readInto (c : Codec α) (get : σ → α) (set : α → σ → σ) :
    Parses (readInto c get set) c.read set fun a => a :=
  fun s bs => ⟨fun x rest h => by unfold readInto; rw [h], fun h => by unfold readInto; rw [h]⟩

/-- One read of a sequence, on a stream that parses. -/
theorem Parses.bind_succeeds {d : Decoder σ α} {p : Parser β} {load : β → σ → σ} {val : β → α}
    (h : Parses d p load val) {δ : Type} {q : β → Parser δ} {s : σ} {bs rest : List UInt8} {y : δ}
    (hp : (p >>= q) bs = some (y, rest)) (f : α → Decoder σ γ) :
    ∃ x bs', q x bs' = some (y, rest) ∧ (d >>= f) s bs = f (val x) (load x s) bs' := by
  obtain ⟨x, bs', hx, hy⟩ := Parser.bind_eq_some.1 hp
  exact ⟨x, bs', hy, bind_of_some (h.succeeds hx)⟩

/-- One read of a sequence, on a stream that does not parse. -/
theorem Parses.bind_fails {d : Decoder σ α} {p : Parser β} {load : β → σ → σ} {val : β → α}
    (h : Parses d p load val) {δ : Type} {q : β → Parser δ} {s : σ} {bs : List UInt8}
    (hp : (p >>= q) bs = none) {f : α → Decoder σ γ}
    (hf : ∀ x bs', q x bs' = none → (f (val x) (load x s) bs').2 = none) :
    ((d >>= f) s bs).2 = none := by
  rcases Parser.bind_eq_none.1 hp with hx | ⟨x, bs', hx, hy⟩
  · rw [bind_of_none (h.fails hx)]
  · rw [bind_of_some (h.succeeds hx)]
    exact hf x bs' hy

/-- A loop that has read all its elements. -/
theorem parses_many_zero {p : Parser β} {load : List β → σ → σ} (h : ∀ s, load [] s = s) :
    Parses (pure () : Decoder σ Unit) (p.many 0) load fun _ => () := by
  intro s bs
  constructor
  · intro xs rest hp
    obtain ⟨rfl, rfl⟩ := Prod.mk.inj (Option.some.inj hp)
    rw [h]
    rfl
  · intro hp
    cases hp

/-- A loop that reads an element into the state and goes on with the others. -/
theorem Parses.many_succ {d loop : Decoder σ Unit} {p : Parser β} {n : Nat} {enter : β → σ → σ}
    {load loads : List β → σ → σ} (h : Parses loop (p.many n) load fun _ => ())
    (hread : ∀ {s bs x rest}, p bs = some (x, rest) → d s bs = loop (enter x s) rest)
    (hfail : ∀ {s bs}, p bs = none → (d s bs).2 = none)
    (hloads : ∀ x xs s, loads (x :: xs) s = load xs (enter x s)) :
    Parses d (p.many (n + 1)) loads fun _ => () := by
  intro s bs
  constructor
  · intro ys rest hp
    obtain ⟨x, bs', hx, hp⟩ := Parser.bind_eq_some.1 hp
    obtain ⟨xs, bs'', hxs, hp⟩ := Parser.bind_eq_some.1 hp
    obtain ⟨rfl, rfl⟩ := Prod.mk.inj (Option.some.inj hp)
    rw [hread hx, h.succeeds hxs, hloads]
  · intro hp
    rcases Parser.bind_eq_none.1 hp with hx | ⟨x, bs', hx, hp⟩
    · exact hfail hx
    · rw [hread hx]
      rcases Parser.bind_eq_none.1 hp with hxs | ⟨xs, bs'', -, hp⟩
      · exact h.fails hxs
      · cases hp

/-- A read of a field that may be missing at the end of the stream. -/
def ifMore (d missing : Decoder σ α) : Decoder σ α := fun s bs =>
  if bs.isEmpty then missing s bs else d s bs

/-! ## What a decoder reads -/

/-- Whatever the state, the decoder reads what the parser reads. -/
def Follows (d : Decoder σ α) (p : Parser α) : Prop := ∀ s bs, (d s bs).2 = p bs

theorem Follows.bind {d : Decoder σ α} {p : Parser α} (h : Follows d p) {f : α → Decoder σ β}
    {q : α → Parser β} (hf : ∀ a, Follows (f a) (q a)) : Follows (d >>= f) (p >>= q) := by
  intro s bs
  have hread := h s bs
  rcases hd : d s bs with ⟨s', _ | ⟨a, bs'⟩⟩
  · rw [hd] at hread
    rw [bind_of_none (by rw [hd]), eq_comm]
    exact Parser.bind_eq_none.2 (.inl hread.symm)
  · rw [hd] at hread
    rw [bind_of_some hd, hf a s' bs']
    change q a bs' = (p bs).bind fun r => q r.1 r.2
    rw [← hread]
    rfl

theorem follows_pure (a : α) : Follows (pure a : Decoder σ α) (pure a) := fun _ _ => rfl

theorem follows_readLocal (c : Codec α) : Follows (readLocal c : Decoder σ α) c.read :=
  fun _ _ => rfl

theorem follows_readInto (c : Codec α) (get : σ → α) (set : α → σ → σ) :
    Follows (readInto c get set) c.read := by
  intro s bs
  unfold readInto
  split
  next h => exact h.symm
  next h => exact h.symm

theorem follows_modify (f : σ → σ) : Follows (modify f) (pure ()) := fun _ _ => rfl

theorem Follows.ifMore {d missing : Decoder σ α} {p q : Parser α} (h : Follows d p)
    (hm : Follows missing q) : Follows (ifMore d missing) (Parser.ifMore p q) := by
  intro s bs
  unfold Decoder.ifMore Parser.ifMore
  split
  · exact hm s bs
  · exact h s bs

/-! ## What a decoder leaves alone -/

/-- Whatever it reads, the decoder keeps `f` of the state. -/
def Keeps {τ : Type} (f : σ → τ) (d : Decoder σ α) : Prop := ∀ s bs, f (d s bs).1 = f s

variable {τ : Type} {f : σ → τ}

theorem Keeps.bind {d : Decoder σ α} (h : Keeps f d) {g : α → Decoder σ β}
    (hg : ∀ a, Keeps f (g a)) : Keeps f (d >>= g) := by
  intro s bs
  rcases hd : d s bs with ⟨s', r⟩
  have hs := h s bs
  rw [hd] at hs
  cases r with
  | none => rw [bind_of_none (by rw [hd]), hd]; exact hs
  | some r =>
    obtain ⟨a, bs'⟩ := r
    rw [bind_of_some hd, hg a s' bs']
    exact hs

theorem Keeps.ifMore {d missing : Decoder σ α} (h : Keeps f d) (hm : Keeps f missing) :
    Keeps f (ifMore d missing) := by
  intro s bs
  unfold Decoder.ifMore
  split
  · exact hm s bs
  · exact h s bs

theorem keeps_pure (a : α) : Keeps f (pure a : Decoder σ α) := fun _ _ => rfl

theorem keeps_readLocal (c : Codec α) : Keeps f (readLocal c : Decoder σ α) := fun _ _ => rfl

theorem keeps_modify {g : σ → σ} (h : ∀ s, f (g s) = f s) : Keeps f (modify g) := fun s _ => h s

theorem keeps_readInto {c : Codec α} {get : σ → α} {set : α → σ → σ}
    (h : ∀ a s, f (set a s) = f s) : Keeps f (readInto c get set) := by
  intro s bs
  unfold readInto
  split <;> exact h _ _

end Decoder
