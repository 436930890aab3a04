import Mathlib

/-!
# Requests in the order they are made

A search begins with a list of requests; what is requested for the first time is served and may ask
for more, which depends on what was served before it. `IsOrder` says in which order things are
served, without a queue: each is the first request of those before it that is not one of them. A
work list serves in this order (`isOrder_of_scan`), and comes to an end if all that is ever asked
for is in a finite set (`exists_scan`). There is one such order (`IsOrder.unique`).
-/

namespace Requests

variable {α β : Type*}

/-- A function of each element and of those before it, along a list. -/
def along (f : List α → α → β) (before : List α) : List α → List β
  | [] => []
  | a :: l => f before a :: along f (before ++ [a]) l

theorem along_append (f : List α → α → β) (before l l' : List α) :
    along f before (l ++ l') = along f before l ++ along f (before ++ l) l' := by
  induction l generalizing before with
  | nil => simp [along]
  | cons a l ih => simp [along, ih]

theorem getElem?_along (f : List α → α → β) (before l : List α) (i : Nat) :
    (along f before l)[i]? = l[i]?.map (f (before ++ l.take i)) := by
  induction l generalizing before i with
  | nil => simp [along]
  | cons a l ih =>
    cases i with
    | zero => simp [along]
    | succ i => simp [along, ih]

section

variable (start : List α) (asks : List α → α → List α)

/-- All requests, when those of a list are served. -/
def requests (served : List α) : List α := start ++ (along asks [] served).flatten

theorem requests_concat (served : List α) (a : α) :
    requests start asks (served ++ [a]) = requests start asks served ++ asks served a := by
  simp [requests, along_append, along]

variable [DecidableEq α]

/-- The first request that is not served. -/
def next (served : List α) : Option α :=
  (requests start asks served).find? fun a => a ∉ served

/-- Each was the next when its turn came. -/
def Begun (served : List α) : Prop :=
  ∀ i a, served[i]? = some a → next start asks (served.take i) = some a

/-- The order in which everything is served. -/
structure IsOrder (order : List α) : Prop where
  begun : Begun start asks order
  closed : next start asks order = none

/-- The work list, with what is served so far and what is still in it. -/
def scan : (turns : Nat) → (served queue : List α) → Option (List α)
  | 0, _, _ => none
  | _ + 1, served, [] => some served
  | turns + 1, served, a :: queue =>
    if a ∈ served then scan turns served queue
    else scan turns (served ++ [a]) (queue ++ asks served a)

variable {start asks} {served order : List α} {a : α}

theorem begun_nil : Begun start asks [] := by
  simp [Begun]

theorem begun_concat_iff :
    Begun start asks (served ++ [a]) ↔
      Begun start asks served ∧ next start asks served = some a := by
  constructor
  · intro h
    constructor
    · intro i b hb
      have hi : i < served.length := (List.getElem?_eq_some_iff.1 hb).1
      have hnext := h i b (by rw [List.getElem?_append_left hi, hb])
      rwa [List.take_append_of_le_length hi.le] at hnext
    · simpa using h served.length a (by simp)
  · rintro ⟨h, ha⟩ i b hb
    rcases lt_or_ge i served.length with hi | hi
    · rw [List.getElem?_append_left hi] at hb
      rw [List.take_append_of_le_length hi.le]
      exact h i b hb
    · rw [List.getElem?_append_right hi, List.getElem?_singleton] at hb
      split at hb
      · next heq =>
        obtain rfl : i = served.length := by omega
        obtain rfl := Option.some.inj hb
        simpa using ha
      · cases hb

theorem not_mem_of_next (h : next start asks served = some a) : a ∉ served := by
  simpa using List.find?_some h

theorem mem_requests_of_next (h : next start asks served = some a) :
    a ∈ requests start asks served :=
  List.mem_of_find?_eq_some h

theorem Begun.nodup (h : Begun start asks served) : served.Nodup := by
  induction served using List.reverseRecOn with
  | nil => exact List.nodup_nil
  | append_singleton served a ih =>
    obtain ⟨hbegun, hnext⟩ := begun_concat_iff.1 h
    rw [← List.concat_eq_append]
    exact (ih hbegun).concat (not_mem_of_next hnext)

/-- Only what is requested is served. -/
theorem Begun.mem_requests (h : Begun start asks served) (ha : a ∈ served) :
    a ∈ requests start asks served := by
  induction served using List.reverseRecOn with
  | nil => cases ha
  | append_singleton served b ih =>
    obtain ⟨hbegun, hnext⟩ := begun_concat_iff.1 h
    rw [requests_concat]
    apply List.mem_append_left
    rcases List.mem_append.1 ha with ha | hb
    · exact ih hbegun ha
    · obtain rfl := List.mem_singleton.1 hb
      exact mem_requests_of_next hnext

/-- What is served is what is requested. -/
theorem IsOrder.mem_iff (h : IsOrder start asks order) :
    a ∈ order ↔ a ∈ requests start asks order := by
  constructor
  · exact h.begun.mem_requests
  · intro ha
    simpa using List.find?_eq_none.1 h.closed a ha

theorem IsOrder.prefix_of_begun (h : IsOrder start asks order) (hs : Begun start asks served) :
    served <+: order := by
  induction served using List.reverseRecOn with
  | nil => exact List.nil_prefix
  | append_singleton served a ih =>
    obtain ⟨hbegun, hnext⟩ := begun_concat_iff.1 hs
    obtain ⟨rest, rfl⟩ := ih hbegun
    cases rest with
    | nil =>
      have hclosed := h.closed
      rw [List.append_nil, hnext] at hclosed
      cases hclosed
    | cons b rest =>
      have hb := h.begun served.length b (by simp)
      rw [List.take_left, hnext] at hb
      obtain rfl := Option.some.inj hb
      exact ⟨rest, by simp⟩

/-- **There is one order.** -/
theorem IsOrder.unique {order' : List α} (h : IsOrder start asks order)
    (h' : IsOrder start asks order') : order = order' :=
  (h'.prefix_of_begun h.begun).eq_of_length_le (h.prefix_of_begun h'.begun).length_le

/-! ## The work list -/

theorem scan_cons {turns : Nat} {queue : List α} :
    scan asks (turns + 1) served (a :: queue) =
      if a ∈ served then scan asks turns served queue
      else scan asks turns (served ++ [a]) (queue ++ asks served a) := rfl

/-- The next to be served is the first in the queue that is not served. -/
theorem next_eq_find? {passed queue : List α}
    (hqueue : requests start asks served = passed ++ queue) (hpassed : ∀ a ∈ passed, a ∈ served) :
    next start asks served = queue.find? fun a => a ∉ served := by
  have hnone : passed.find? (fun a => decide (a ∉ served)) = none := by
    rw [List.find?_eq_none]
    intro a ha
    simpa using hpassed a ha
  rw [next, hqueue, List.find?_append, hnone, Option.none_or]

/-- **The work list serves in the order of the requests.** -/
theorem isOrder_of_scan {turns : Nat} {passed queue : List α} (hbegun : Begun start asks served)
    (hqueue : requests start asks served = passed ++ queue) (hpassed : ∀ a ∈ passed, a ∈ served)
    (h : scan asks turns served queue = some order) : IsOrder start asks order := by
  induction turns generalizing served passed queue with
  | zero => cases h
  | succ turns ih =>
    have hnext := next_eq_find? hqueue hpassed
    cases queue with
    | nil =>
      obtain rfl := Option.some.inj h
      exact ⟨hbegun, hnext⟩
    | cons a queue =>
      rw [scan_cons] at h
      have hrest : passed ++ a :: queue = (passed ++ [a]) ++ queue := by simp
      split at h
      · next ha =>
        apply ih hbegun (hqueue.trans hrest) _ h
        intro b hb
        rcases List.mem_append.1 hb with hb | hb
        · exact hpassed b hb
        · rwa [List.mem_singleton.1 hb]
      · next ha =>
        have hnext : next start asks served = some a := by simpa [ha] using hnext
        have hqueue' : requests start asks (served ++ [a]) =
            (passed ++ [a]) ++ (queue ++ asks served a) := by
          rw [requests_concat, hqueue, hrest, List.append_assoc]
        apply ih (begun_concat_iff.2 ⟨hbegun, hnext⟩) hqueue' _ h
        intro b hb
        rcases List.mem_append.1 hb with hb | hb
        · exact List.mem_append_left _ (hpassed b hb)
        · exact List.mem_append_right _ hb

/-- Turns to spare change nothing. -/
theorem scan_mono {turns n : Nat} (hle : turns ≤ n) {queue : List α}
    (h : scan asks turns served queue = some order) : scan asks n served queue = some order := by
  induction turns generalizing n served queue with
  | zero => cases h
  | succ turns ih =>
    obtain ⟨n, rfl⟩ : ∃ m, n = m + 1 := ⟨n - 1, by omega⟩
    have hle : turns ≤ n := by omega
    cases queue with
    | nil => exact h
    | cons a queue =>
      rw [scan_cons] at h ⊢
      by_cases ha : a ∈ served
      · rw [if_pos ha] at h ⊢
        exact ih hle h
      · rw [if_neg ha] at h ⊢
        exact ih hle h

/-- **The work list comes to an end.** -/
theorem exists_scan (known : Finset α) (hasks : ∀ served a, ∀ b ∈ asks served a, b ∈ known)
    (served queue : List α) (hqueue : ∀ a ∈ queue, a ∈ known) :
    ∃ turns order, scan asks turns served queue = some order := by
  -- what is served leaves fewer to serve, what is passed over a shorter queue
  induction hn : (known \ served.toFinset).card using Nat.strong_induction_on
    generalizing served queue with
  | _ n ih =>
    induction queue with
    | nil => exact ⟨1, served, rfl⟩
    | cons a queue ihqueue =>
      obtain ⟨ha, hqueue⟩ := List.forall_mem_cons.1 hqueue
      by_cases hserved : a ∈ served
      · obtain ⟨turns, order, hscan⟩ := ihqueue hqueue
        refine ⟨turns + 1, order, ?_⟩
        rw [scan_cons, if_pos hserved, hscan]
      · have hless : (known \ (served ++ [a]).toFinset).card < n := by
          rw [← hn]
          apply Finset.card_lt_card
          rw [Finset.ssubset_iff_of_subset]
          · exact ⟨a, by simp [ha, hserved], by simp⟩
          · apply Finset.sdiff_subset_sdiff (Finset.Subset.refl known)
            simp
        obtain ⟨turns, order, hscan⟩ := ih _ hless (served ++ [a]) (queue ++ asks served a)
          (fun b hb => (List.mem_append.1 hb).elim (hqueue b) (hasks served a b)) rfl
        refine ⟨turns + 1, order, ?_⟩
        rw [scan_cons, if_neg hserved, hscan]

end

end Requests
