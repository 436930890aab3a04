import TriTip.Lib.ExactInt64

/-!
# Relayed transactions

`mapRelay` and `vRelayExpiration` in `RelayTransaction` (`net.cpp`). The queue has an entry for
every call, the map one for every transaction, and an entry that expires takes the transaction out
of the map however late it was relayed again. `relayed_iff` says in which runs the map has the
transactions of the last 15 minutes all the same.
-/

namespace TriTip

/-- A call of `RelayTransaction`, and the time it is made at. -/
structure Relay (H S : Type) where
  now : Int64
  hash : H
  ss : S

/-- The time its entry expires at. -/
def Relay.expiry {H S : Type} (c : Relay H S) : Int64 := c.now + 15 * 60

structure MapRelay (H S : Type) where
  mapRelay : H → Option S
  vRelayExpiration : List (Int64 × H)

namespace MapRelay

variable {H S : Type} [DecidableEq H]

/-- Expire old relay messages. -/
def expire (now : Int64) (mapRelay : H → Option S) : List (Int64 × H) → MapRelay H S
  | [] => ⟨mapRelay, []⟩
  | front :: rest =>
    if front.1 < now then expire now (Function.update mapRelay front.2 none) rest
    else ⟨mapRelay, front :: rest⟩

def RelayTransaction (s : MapRelay H S) (c : Relay H S) : MapRelay H S :=
  let s := expire c.now s.mapRelay s.vRelayExpiration
  -- Save original serialized message so newer versions are preserved
  { mapRelay :=
      if (s.mapRelay c.hash).isSome then s.mapRelay
      else Function.update s.mapRelay c.hash (some c.ss)
    vRelayExpiration := s.vRelayExpiration ++ [(c.expiry, c.hash)] }

/-- The state after some calls, the latest first. -/
def run : List (Relay H S) → MapRelay H S
  | [] => ⟨fun _ => none, []⟩
  | c :: before => (run before).RelayTransaction c

/-! ## What the map is to have -/

/-- The time of the most recent relay of a transaction. -/
def lastRelay : List (Relay H S) → H → Option Int64
  | [], _ => none
  | c :: before, hash => if c.hash = hash then some c.now else lastRelay before hash

/-- The most recent relay was 15 minutes ago or later. -/
def Recent (now : Int64) (history : List (Relay H S)) (hash : H) : Prop :=
  ∃ time ∈ lastRelay history hash, now.toInt - 15 * 60 ≤ time.toInt

instance {now : Int64} {history : List (Relay H S)} {hash : H} :
    Decidable (Recent now history hash) := inferInstanceAs (Decidable (∃ _ ∈ _, _))

/-- The stream of the first relay since a transaction was last absent. -/
def firstStream : List (Relay H S) → H → Option S
  | [], _ => none
  | c :: before, hash =>
    if c.hash = hash ∧ ¬Recent c.now before hash then some c.ss else firstStream before hash

/-- The streams of the transactions of the last 15 minutes, at the time of the latest call. -/
def relayed : List (Relay H S) → H → Option S
  | [], _ => none
  | c :: before, hash =>
    if Recent c.now (c :: before) hash then firstStream (c :: before) hash else none

/-- A relay of the transaction before those `before` which the entry expires in a call at `now`, and
not before. -/
def Expires (now : Int64) (before : List (Relay H S)) (hash : H) : Prop :=
  ∃ d ∈ before, d.hash = hash ∧ d.expiry < now ∧ ∀ b ∈ before.head?, b.now ≤ d.expiry

instance {now : Int64} {before : List (Relay H S)} {hash : H} :
    Decidable (Expires now before hash) := inferInstanceAs (Decidable (∃ _ ∈ _, _ ∧ _))

/-- No entry of a transaction that is to stay expires in a call, unless the call relays it again
with the stream that it has. -/
def KeepsRecent (c : Relay H S) (before : List (Relay H S)) : Prop :=
  ∀ hash, Recent c.now before hash → Expires c.now before hash →
    c.hash = hash ∧ firstStream before hash = some c.ss

/-! ## Runs -/

/-- The clock of a run does not go back, and has 15 minutes left. -/
structure Clock (history : List (Relay H S)) : Prop where
  mono : history.Pairwise fun later earlier => earlier.now ≤ later.now
  room : ∀ c ∈ history, ExactInt64.Fits (c.now.toInt + 15 * 60)

omit [DecidableEq H] in
theorem Clock.tail {c : Relay H S} {before : List (Relay H S)} (h : Clock (c :: before)) :
    Clock before where
  mono := (List.pairwise_cons.1 h.mono).2
  room := fun d hd => h.room d (List.mem_cons_of_mem c hd)

omit [DecidableEq H] in
theorem Clock.of_suffix {past history : List (Relay H S)} (h : Clock history)
    (hpast : past <:+ history) : Clock past where
  mono := h.mono.sublist hpast.sublist
  room := fun c hc => h.room c (hpast.subset hc)

omit [DecidableEq H] in
theorem toInt_expiry {c : Relay H S} (h : ExactInt64.Fits (c.now.toInt + 15 * 60)) :
    c.expiry.toInt = c.now.toInt + 15 * 60 := by
  have hminutes : (15 * 60 : Int64).toInt = 15 * 60 := by decide
  unfold Relay.expiry
  rw [ExactInt64.toInt_add (hminutes ▸ h), hminutes]

omit [DecidableEq H] in
theorem expiry_le {c d : Relay H S} (hc : ExactInt64.Fits (c.now.toInt + 15 * 60))
    (hd : ExactInt64.Fits (d.now.toInt + 15 * 60)) (h : c.now ≤ d.now) : c.expiry ≤ d.expiry := by
  have hle : c.now.toInt ≤ d.now.toInt := Int64.le_iff_toInt_le.1 h
  rw [Int64.le_iff_toInt_le, toInt_expiry hc, toInt_expiry hd]
  omega

/-! ### The queue -/

theorem expire_eq {now : Int64} (mapRelay : H → Option S) {queue : List (Int64 × H)}
    (hsorted : queue.Pairwise fun e e' => e.1 ≤ e'.1) :
    expire now mapRelay queue =
      ⟨fun hash => if ∃ e ∈ queue, e.1 < now ∧ e.2 = hash then none else mapRelay hash,
        queue.filter fun e => ¬e.1 < now⟩ := by
  induction queue generalizing mapRelay with
  | nil => simp [expire]
  | cons front rest ih =>
    obtain ⟨hfront, hrest⟩ := List.pairwise_cons.1 hsorted
    unfold expire
    by_cases hlt : front.1 < now
    · rw [if_pos hlt, ih _ hrest, List.filter_cons_of_neg (by simpa using hlt)]
      congr 1
      funext hash
      rcases eq_or_ne front.2 hash with rfl | hne
      · simp [hlt]
      · simp [hne, Function.update_of_ne hne.symm]
    · -- nothing behind it expires
      have hnone : ∀ e ∈ front :: rest, ¬e.1 < now := by
        intro e he
        rcases List.mem_cons.1 he with rfl | he
        · exact hlt
        · exact Int64.not_lt.2 (Int64.le_trans (Int64.not_lt.1 hlt) (hfront e he))
      rw [if_neg hlt, List.filter_eq_self.2 (by simpa using hnone)]
      congr 1
      funext hash
      rw [if_neg]
      rintro ⟨e, he, hexpired, -⟩
      exact hnone e he hexpired

/-- The entries of the relays that are not expired at a time. -/
def waiting (now : Int64) (history : List (Relay H S)) : List (Int64 × H) :=
  (history.reverse.filter fun d => ¬d.expiry < now).map fun d => (d.expiry, d.hash)

omit [DecidableEq H] in
theorem waiting_sorted {history : List (Relay H S)} (h : Clock history) (now : Int64) :
    (waiting now history).Pairwise fun e e' => e.1 ≤ e'.1 := by
  have hsorted : history.reverse.Pairwise fun d d' => d.expiry ≤ d'.expiry := by
    rw [List.pairwise_reverse]
    apply List.Pairwise.imp_of_mem _ h.mono
    intro d d' hd hd' hle
    exact expiry_le (h.room d' hd') (h.room d hd) hle
  unfold waiting
  rw [List.pairwise_map]
  exact hsorted.sublist List.filter_sublist

omit [DecidableEq H] in
theorem mem_waiting {now : Int64} {history : List (Relay H S)} {e : Int64 × H} :
    e ∈ waiting now history ↔ ∃ d ∈ history, ¬d.expiry < now ∧ (d.expiry, d.hash) = e := by
  simp [waiting, and_assoc]

/-- What a call takes out of the map and the queue. -/
theorem expire_run {c : Relay H S} {before : List (Relay H S)} (h : Clock (c :: before))
    (hqueue : ∀ b ∈ before.head?, (run before).vRelayExpiration = waiting b.now before) :
    expire c.now (run before).mapRelay (run before).vRelayExpiration =
      ⟨fun hash => if Expires c.now before hash then none else (run before).mapRelay hash,
        waiting c.now before⟩ := by
  cases before with
  | nil => simp [run, expire, Expires, waiting]
  | cons b older =>
    have hle : b.now ≤ c.now := (List.pairwise_cons.1 h.mono).1 b List.mem_cons_self
    rw [hqueue b rfl, expire_eq _ (waiting_sorted h.tail b.now)]
    congr 1
    · funext hash
      congr 1
      rw [eq_iff_iff]
      constructor
      · rintro ⟨e, he, hexpired, rfl⟩
        obtain ⟨d, hd, hlate, rfl⟩ := mem_waiting.1 he
        refine ⟨d, hd, rfl, hexpired, ?_⟩
        rintro b' hb'
        cases hb'
        exact Int64.not_lt.1 hlate
      · rintro ⟨d, hd, rfl, hexpired, hlate⟩
        exact ⟨_, mem_waiting.2 ⟨d, hd, Int64.not_lt.2 (hlate b rfl), rfl⟩, hexpired, rfl⟩
    · unfold waiting
      rw [List.filter_map, List.filter_filter]
      congr 1
      apply List.filter_congr
      intro d _
      -- what has not expired now had not expired in the call before
      have himp : ¬d.expiry < c.now → ¬d.expiry < b.now := by
        intro hlate
        exact Int64.not_lt.2 (Int64.le_trans hle (Int64.not_lt.1 hlate))
      by_cases hlate : d.expiry < c.now
      · simp [hlate]
      · simp [Int64.not_lt.1 hlate, Int64.not_lt.1 (himp hlate)]

omit [DecidableEq H] in
theorem now_le_expiry {c : Relay H S} (h : ExactInt64.Fits (c.now.toInt + 15 * 60)) :
    c.now ≤ c.expiry := by
  rw [Int64.le_iff_toInt_le, toInt_expiry h]
  omega

/-- The queue after a call. -/
theorem run_queue {c : Relay H S} {before : List (Relay H S)} (h : Clock (c :: before)) :
    (run (c :: before)).vRelayExpiration = waiting c.now (c :: before) := by
  have hqueue : ∀ b ∈ before.head?, (run before).vRelayExpiration = waiting b.now before := by
    intro b hb
    cases before with
    | nil => cases hb
    | cons b' older =>
      cases hb
      exact run_queue h.tail
  have hlate : ¬c.expiry < c.now :=
    Int64.not_lt.2 (now_le_expiry (h.room c List.mem_cons_self))
  unfold run RelayTransaction
  rw [expire_run h hqueue]
  simp [waiting, Int64.not_lt.1 hlate]

/-- What a call leaves of the map before it puts its own transaction into it. -/
def kept (c : Relay H S) (before : List (Relay H S)) (hash : H) : Option S :=
  if Expires c.now before hash then none else (run before).mapRelay hash

theorem run_mapRelay {c : Relay H S} {before : List (Relay H S)} (h : Clock (c :: before))
    (hash : H) :
    (run (c :: before)).mapRelay hash =
      if c.hash = hash then some ((kept c before hash).getD c.ss) else kept c before hash := by
  have hqueue : ∀ b ∈ before.head?, (run before).vRelayExpiration = waiting b.now before := by
    intro b hb
    obtain ⟨older, rfl⟩ := List.head?_eq_some_iff.1 hb
    exact run_queue h.tail
  unfold run RelayTransaction
  rw [expire_run h hqueue]
  change (if (kept c before c.hash).isSome then kept c before
    else Function.update (kept c before) c.hash (some c.ss)) hash = _
  rcases eq_or_ne c.hash hash with rfl | hne
  · cases hkept : kept c before c.hash with
    | none => simp
    | some ss => simp [hkept]
  · rw [if_neg hne]
    split
    · rfl
    · exact Function.update_of_ne hne.symm _ _

/-! ### One call -/

theorem lastRelay_mem {history : List (Relay H S)} {hash : H} {time : Int64}
    (h : time ∈ lastRelay history hash) : ∃ c ∈ history, c.hash = hash ∧ c.now = time := by
  induction history with
  | nil => cases h
  | cons c before ih =>
    unfold lastRelay at h
    split at h
    · next hhash =>
      cases h
      exact ⟨c, List.mem_cons_self, hhash, rfl⟩
    · obtain ⟨d, hd, hfound⟩ := ih h
      exact ⟨d, List.mem_cons_of_mem c hd, hfound⟩

/-- What was relayed has a stream. -/
theorem firstStream_isSome {history : List (Relay H S)} {hash : H} {now : Int64}
    (h : Recent now history hash) : (firstStream history hash).isSome = true := by
  obtain ⟨time, htime, -⟩ := h
  obtain ⟨d, hd, hhash, -⟩ := lastRelay_mem htime
  clear htime
  induction history generalizing d with
  | nil => cases hd
  | cons c before ih =>
    unfold firstStream
    split
    · rfl
    · next hfirst =>
      rcases List.mem_cons.1 hd with rfl | hd
      · -- it was not absent, so that it was relayed before
        obtain ⟨time, htime, -⟩ := not_not.1 (not_and.1 hfirst hhash)
        obtain ⟨d, hd, hhash, -⟩ := lastRelay_mem htime
        exact ih d hd hhash
      · exact ih d hd hhash

theorem Recent.of_le {now now' : Int64} {history : List (Relay H S)} {hash : H}
    (h : Recent now' history hash) (hle : now ≤ now') : Recent now history hash := by
  obtain ⟨time, htime, hrecent⟩ := h
  have hnow : now.toInt ≤ now'.toInt := Int64.le_iff_toInt_le.1 hle
  exact ⟨time, htime, by omega⟩

/-- A transaction that becomes absent has an entry that expires. -/
theorem expires_of_not_recent {c b : Relay H S} {older : List (Relay H S)} {hash : H}
    (h : Clock (c :: b :: older)) (hbefore : Recent b.now (b :: older) hash)
    (hnow : ¬Recent c.now (b :: older) hash) : Expires c.now (b :: older) hash := by
  obtain ⟨time, htime, hrecent⟩ := hbefore
  obtain ⟨d, hd, hhash, rfl⟩ := lastRelay_mem htime
  have hold : ¬c.now.toInt - 15 * 60 ≤ d.now.toInt := fun hle => hnow ⟨d.now, htime, hle⟩
  have hexpiry := toInt_expiry (h.room d (List.mem_cons_of_mem c hd))
  refine ⟨d, hd, hhash, ?_, ?_⟩
  · rw [Int64.lt_iff_toInt_lt, hexpiry]
    omega
  · rintro b' hb'
    cases hb'
    rw [Int64.le_iff_toInt_le, hexpiry]
    omega

/-- What is to stay of a transaction in a call. -/
def staying (c : Relay H S) (before : List (Relay H S)) (hash : H) : Option S :=
  if Recent c.now before hash then firstStream before hash else none

theorem relayed_cons (c : Relay H S) (before : List (Relay H S)) (hash : H) :
    relayed (c :: before) hash =
      if c.hash = hash then some ((staying c before hash).getD c.ss)
      else staying c before hash := by
  simp only [relayed, staying]
  by_cases hhash : c.hash = hash
  · have hrecent : Recent c.now (c :: before) hash := by
      refine ⟨c.now, ?_, by omega⟩
      unfold lastRelay
      rw [if_pos hhash]
      rfl
    rw [if_pos hrecent, if_pos hhash, firstStream]
    by_cases hbefore : Recent c.now before hash
    · obtain ⟨ss, hss⟩ := Option.isSome_iff_exists.1 (firstStream_isSome hbefore)
      rw [if_neg (by simp [hbefore]), if_pos hbefore, hss]
      rfl
    · rw [if_pos ⟨hhash, hbefore⟩, if_neg hbefore]
      rfl
  · have hlast : lastRelay (c :: before) hash = lastRelay before hash := if_neg hhash
    have hfirst : firstStream (c :: before) hash = firstStream before hash :=
      if_neg (not_and_of_not_left _ hhash)
    have hrecent : Recent c.now (c :: before) hash ↔ Recent c.now before hash := by
      unfold Recent
      rw [hlast]
    rw [if_neg hhash, hfirst]
    simp only [hrecent]

/-- A call keeps what is to stay, but for what expires. -/
theorem kept_eq {c : Relay H S} {before : List (Relay H S)} (h : Clock (c :: before))
    (hbefore : (run before).mapRelay = relayed before) (hash : H) :
    kept c before hash = if Expires c.now before hash then none else staying c before hash := by
  unfold kept
  by_cases hexpires : Expires c.now before hash
  · rw [if_pos hexpires, if_pos hexpires]
  rw [if_neg hexpires, if_neg hexpires, hbefore]
  cases before with
  | nil => simp [relayed, staying, firstStream]
  | cons b older =>
    have hle : b.now ≤ c.now := (List.pairwise_cons.1 h.mono).1 b List.mem_cons_self
    simp only [relayed, staying]
    by_cases hrecent : Recent c.now (b :: older) hash
    · rw [if_pos hrecent, if_pos (hrecent.of_le hle)]
    · rw [if_neg hrecent, if_neg fun hb => hexpires (expires_of_not_recent h hb hrecent)]

/-- One call keeps the map right exactly if it keeps the recent transactions. -/
theorem run_cons_iff {c : Relay H S} {before : List (Relay H S)} (h : Clock (c :: before))
    (hbefore : (run before).mapRelay = relayed before) :
    (run (c :: before)).mapRelay = relayed (c :: before) ↔ KeepsRecent c before := by
  rw [funext_iff]
  apply forall_congr'
  intro hash
  rw [run_mapRelay h, relayed_cons, kept_eq h hbefore]
  by_cases hlost : Recent c.now before hash ∧ Expires c.now before hash
  · obtain ⟨hrecent, hexpires⟩ := hlost
    obtain ⟨ss, hss⟩ := Option.isSome_iff_exists.1 (firstStream_isSome hrecent)
    have hstaying : staying c before hash = some ss := (if_pos hrecent).trans hss
    simp only [hrecent, hexpires, if_true, hstaying, hss, true_implies, Option.getD_none,
      Option.getD_some, Option.some.injEq]
    split
    · next hhash => simp [hhash, eq_comm]
    · next hhash => simp [hhash]
  · have hstays : (if Expires c.now before hash then none else staying c before hash) =
        staying c before hash := by
      split
      · next hexpires => exact (if_neg fun hrecent => hlost ⟨hrecent, hexpires⟩).symm
      · rfl
    rw [hstays]
    simp only [true_iff]
    intro hrecent hexpires
    exact absurd ⟨hrecent, hexpires⟩ hlost

/-- **When the map has the transactions of the last 15 minutes after every call**: exactly if every
call keeps them. -/
theorem relayed_iff {H S : Type} [DecidableEq H] (history : List (Relay H S))
    (hclock : Clock history) :
    (∀ past, past <:+ history → (run past).mapRelay = relayed past) ↔
      ∀ c before, c :: before <:+ history → KeepsRecent c before := by
  constructor
  · intro hall c before hpast
    have hbefore : before <:+ history := (List.suffix_cons c before).trans hpast
    exact (run_cons_iff (hclock.of_suffix hpast) (hall before hbefore)).1 (hall _ hpast)
  · intro hkeeps past hpast
    induction past with
    | nil => rfl
    | cons c before ih =>
      have hbefore := ih ((List.suffix_cons c before).trans hpast)
      exact (run_cons_iff (hclock.of_suffix hpast) hbefore).2 (hkeeps c before hpast)

/-! ### A transaction that is lost -/

/-- The transaction 1 is relayed twice in ten minutes, and five minutes later another one. -/
def twice : List (Relay Nat Nat) := [⟨901, 2, 20⟩, ⟨600, 1, 10⟩, ⟨0, 1, 10⟩]

/-- It was relayed five minutes ago, and is no longer in the map. -/
theorem lost_twice :
    Clock twice ∧ lastRelay twice 1 = some 600 ∧ relayed twice 1 = some 10 ∧
      (run twice).mapRelay 1 = none :=
  ⟨⟨by decide, by decide⟩, by decide, by decide, by decide⟩

theorem relayed_iff_twice :
    (∀ past, past <:+ twice → (run past).mapRelay = relayed past) ↔
      ∀ c before, c :: before <:+ twice → KeepsRecent c before :=
  relayed_iff twice ⟨by decide, by decide⟩

end MapRelay

end TriTip
