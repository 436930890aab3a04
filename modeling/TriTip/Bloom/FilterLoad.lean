import TriTip.Bloom.IsRelevantAndUpdate

/-!
# Filters that peers send

The handlers of `filterload`, `filteradd` and `filterclear` (`bitcoin_messages_handlers.cpp`) and
the use of a filter by `RelayTransaction` (`net.cpp`). A filter without data that has hash
functions is within the size constraints, and the first use of it divides by zero
(`filterload_iff`).
-/

namespace TriTip

/-- `script.h` is not in the tree; the comment at its use has the number. -/
def MAX_SCRIPT_ELEMENT_SIZE : Nat := 520

/-- What a peer has of filters, and how much it has misbehaved. -/
structure FilterPeer where
  pfilter : Option CBloomFilter
  fRelayTxes : Bool
  nMisbehavior : Int

namespace FilterPeer

variable {H : Type} (R : BloomRules H)

def Misbehaving (pfrom : FilterPeer) (howmuch : Int) : FilterPeer :=
  { pfrom with nMisbehavior := pfrom.nMisbehavior + howmuch }

def filterload (pfrom : FilterPeer) (filter : CBloomFilter) : FilterPeer :=
  let pfrom :=
    -- There is no excuse for sending a too-large filter
    if !filter.IsWithinSizeConstraints then pfrom.Misbehaving 100
    else { pfrom with pfilter := some filter }
  { pfrom with fRelayTxes := true }

def filteradd (pfrom : FilterPeer) (vData : List UInt8) : Except BloomFault FilterPeer :=
  -- Nodes must NEVER send a data item > 520 bytes
  if MAX_SCRIPT_ELEMENT_SIZE < vData.length then .ok (pfrom.Misbehaving 100)
  else
    match pfrom.pfilter with
    | some filter => do
      let filter ← filter.insert vData
      return { pfrom with pfilter := some filter }
    | none => .ok (pfrom.Misbehaving 100)

def filterclear (pfrom : FilterPeer) : FilterPeer :=
  { pfrom with pfilter := none, fRelayTxes := true }

/-- The part of `RelayTransaction` for a peer: whether it is told of the transaction. -/
def relay (pnode : FilterPeer) (tx : CTransaction H) (hash : H) :
    Except BloomFault (Bool × FilterPeer) :=
  if !pnode.fRelayTxes then .ok (false, pnode)
  else
    match pnode.pfilter with
    | some filter => do
      let (relevant, filter) ← filter.IsRelevantAndUpdate R tx hash
      return (relevant, { pnode with pfilter := some filter })
    | none => .ok (true, pnode)

/-- What uses the filter of a peer. -/
inductive Use (H : Type) where
  | filteradd (vData : List UInt8)
  | relay (tx : CTransaction H) (hash : H)

def use (pfrom : FilterPeer) : Use H → Except BloomFault FilterPeer
  | .filteradd vData => pfrom.filteradd vData
  | .relay tx hash => do
    let (_, pfrom) ← pfrom.relay R tx hash
    return pfrom

/-- A `filteradd` of too much data, which is refused. -/
def Use.Refused : Use H → Prop
  | .filteradd vData => MAX_SCRIPT_ELEMENT_SIZE < vData.length
  | .relay _ _ => False

variable {R} {pfrom : FilterPeer} {filter : CBloomFilter}

/-- The peer has a filter that can be used. -/
def HasUsable (pfrom : FilterPeer) : Prop := ∃ filter, pfrom.pfilter = some filter ∧ filter.Usable

theorem exists_filteradd (h : pfrom.HasUsable) (vData : List UInt8) :
    ∃ pfrom', pfrom.filteradd vData = .ok pfrom' ∧ pfrom'.HasUsable := by
  obtain ⟨filter, hfilter, husable⟩ := h
  unfold filteradd
  split
  · exact ⟨_, rfl, filter, hfilter, husable⟩
  · obtain ⟨filter', hins, hextends, -⟩ := CBloomFilter.insert_spec husable vData
    rw [hfilter]
    dsimp only [bind, Except.bind]
    rw [hins]
    exact ⟨_, rfl, filter', rfl, hextends.usable husable⟩

theorem exists_relay (h : pfrom.HasUsable) (tx : CTransaction H) (hash : H) :
    ∃ told pfrom', pfrom.relay R tx hash = .ok (told, pfrom') ∧ pfrom'.HasUsable := by
  obtain ⟨filter, hfilter, husable⟩ := h
  unfold relay
  split
  · exact ⟨false, pfrom, rfl, filter, hfilter, husable⟩
  · obtain ⟨relevant, filter', hcall, hextends⟩ :=
      CBloomFilter.exists_isRelevantAndUpdate (R := R) husable tx hash
    rw [hfilter]
    dsimp only [bind, Except.bind]
    rw [hcall]
    exact ⟨relevant, _, rfl, filter', rfl, hextends.usable husable⟩

theorem exists_use (h : pfrom.HasUsable) (u : Use H) :
    ∃ pfrom', pfrom.use R u = .ok pfrom' ∧ pfrom'.HasUsable := by
  cases u with
  | filteradd vData => exact exists_filteradd h vData
  | relay tx hash =>
    obtain ⟨told, pfrom', hrelay, husable⟩ := exists_relay (R := R) h tx hash
    refine ⟨pfrom', ?_, husable⟩
    unfold use
    dsimp only [bind, Except.bind]
    rw [hrelay]
    rfl

theorem exists_run (h : pfrom.HasUsable) (uses : List (Use H)) :
    ∃ pfrom', Run.run (use R) pfrom uses = .ok pfrom' := by
  obtain ⟨pfrom', hrun, -⟩ := Run.run_of_invariant HasUsable (fun _ => True)
    (fun _ u hs _ => exists_use (R := R) hs u) uses pfrom h fun _ _ => trivial
  exact ⟨pfrom', hrun⟩

/-! ## A filter that cannot be used -/

theorem Hash_of_nil (h : filter.vData = []) (nHashNum : UInt32) (vDataToHash : List UInt8) :
    filter.Hash nHashNum vDataToHash = .error .divisionByZero := by
  unfold CBloomFilter.Hash
  rw [h]
  rfl

/-- It has no data, and the loops make a first turn. -/
theorem of_not_usable (h : ¬filter.Usable) : filter.vData = [] ∧ filter.isFull = false ∧
    ∃ rest, List.range filter.nHashFuncs.toNat = 0 :: rest := by
  obtain ⟨hnil, hpos⟩ := not_or.1 h
  rw [not_not] at hnil
  obtain ⟨n, hn⟩ : ∃ n, filter.nHashFuncs.toNat = n + 1 :=
    Nat.exists_eq_succ_of_ne_zero fun h0 => hpos (UInt32.toNat_inj.1 h0)
  refine ⟨hnil, ?_, (List.range n).map Nat.succ, by rw [hn, List.range_succ_eq_map]⟩
  unfold CBloomFilter.isFull
  rw [hnil]
  rfl

theorem insert_of_not_usable (h : ¬filter.Usable) (vKey : List UInt8) :
    filter.insert vKey = .error .divisionByZero := by
  obtain ⟨hnil, hfull, rest, hrange⟩ := of_not_usable h
  unfold CBloomFilter.insert
  rw [hfull, if_neg Bool.false_ne_true, hrange, List.foldlM_cons]
  unfold CBloomFilter.insertBit
  rw [Hash_of_nil hnil]
  rfl

theorem contains_of_not_usable (h : ¬filter.Usable) (vKey : List UInt8) :
    filter.contains vKey = .error .divisionByZero := by
  obtain ⟨hnil, hfull, rest, hrange⟩ := of_not_usable h
  unfold CBloomFilter.contains
  rw [hfull, if_neg Bool.false_ne_true, hrange]
  unfold CBloomFilter.containsBits
  rw [Hash_of_nil hnil]
  rfl

theorem isRelevantAndUpdate_of_not_usable (h : ¬filter.Usable) (tx : CTransaction H) (hash : H) :
    filter.IsRelevantAndUpdate R tx hash = .error .divisionByZero := by
  unfold CBloomFilter.IsRelevantAndUpdate CBloomFilter.containsHash
  rw [contains_of_not_usable h]
  rfl

/-- Of a peer with such a filter only what is refused goes through, and leaves the filter. -/
theorem refused_of_not_usable (hfilter : pfrom.pfilter = some filter)
    (hrelay : pfrom.fRelayTxes = true)
    (h : ¬filter.Usable) {u : Use H} {pfrom' : FilterPeer} (huse : pfrom.use R u = .ok pfrom') :
    u.Refused ∧ pfrom'.pfilter = some filter ∧ pfrom'.fRelayTxes = true := by
  cases u with
  | filteradd vData =>
    unfold use at huse
    dsimp only at huse
    unfold FilterPeer.filteradd at huse
    split at huse
    · next hlarge =>
      cases huse
      exact ⟨hlarge, hfilter, hrelay⟩
    · rw [hfilter] at huse
      dsimp only [bind, Except.bind] at huse
      rw [insert_of_not_usable h] at huse
      cases huse
  | relay tx hash =>
    unfold use FilterPeer.relay at huse
    dsimp only [bind, Except.bind] at huse
    rw [hrelay, hfilter, Bool.not_true, if_neg Bool.false_ne_true] at huse
    dsimp only at huse
    rw [isRelevantAndUpdate_of_not_usable h] at huse
    cases huse

theorem refused_of_run (hfilter : pfrom.pfilter = some filter) (hrelay : pfrom.fRelayTxes = true)
    (h : ¬filter.Usable) {uses : List (Use H)} {pfrom' : FilterPeer}
    (hrun : Run.run (use R) pfrom uses = .ok pfrom') : ∀ u ∈ uses, u.Refused := by
  induction uses generalizing pfrom with
  | nil => exact nofun
  | cons u uses ih =>
    rcases hstep : pfrom.use R u with _ | next
    · unfold Run.run at hrun
      rw [hstep] at hrun
      cases hrun
    · rw [Run.run_cons_of_ok hstep] at hrun
      obtain ⟨hrefused, hfilter', hrelay'⟩ := refused_of_not_usable hfilter hrelay h hstep
      exact List.forall_mem_cons.2 ⟨hrefused, ih hfilter' hrelay' hrun⟩

theorem use_of_refused {u : Use H} (h : u.Refused) :
    pfrom.use R u = .ok (pfrom.Misbehaving 100) := by
  cases u with
  | filteradd vData => exact if_pos h
  | relay tx hash => cases h

theorem exists_run_of_refused {uses : List (Use H)} (h : ∀ u ∈ uses, u.Refused) :
    ∃ pfrom', Run.run (use R) pfrom uses = .ok pfrom' := by
  obtain ⟨pfrom', hrun, -⟩ := Run.run_of_invariant (fun _ => True) Use.Refused
    (fun s _ _ hu => ⟨s.Misbehaving 100, use_of_refused (R := R) hu, trivial⟩) uses pfrom trivial h
  exact ⟨pfrom', hrun⟩

end FilterPeer

/-- **When a filter that a peer has sent is safe**: the uses of it go through, without a division by
zero or an access out of range, exactly if it has data, or no hash functions, or if nothing but data
that is refused is ever added. -/
theorem filterload_iff {H : Type} (R : BloomRules H) (pfrom : FilterPeer) (filter : CBloomFilter)
    (hsize : filter.IsWithinSizeConstraints = true) (uses : List (FilterPeer.Use H)) :
    (∃ pfrom', Run.run (FilterPeer.use R) (pfrom.filterload filter) uses = .ok pfrom') ↔
      filter.vData ≠ [] ∨ filter.nHashFuncs = 0 ∨ ∀ u ∈ uses, u.Refused := by
  have hload : pfrom.filterload filter =
      { pfrom with pfilter := some filter, fRelayTxes := true } := by
    unfold FilterPeer.filterload
    rw [hsize]
    rfl
  rw [hload, ← or_assoc]
  constructor
  · rintro ⟨pfrom', hrun⟩
    by_cases husable : filter.Usable
    · exact .inl husable
    · exact .inr (FilterPeer.refused_of_run rfl rfl husable hrun)
  · rintro (husable | hrefused)
    · exact FilterPeer.exists_run ⟨filter, rfl, husable⟩ uses
    · exact FilterPeer.exists_run_of_refused hrefused

/-- A peer without a filter. -/
def FilterPeer.new : FilterPeer := ⟨none, false, 0⟩

theorem filterload_iff_twoBytes :
    (∃ pfrom', Run.run (FilterPeer.use BloomRules.numbers)
      (FilterPeer.new.filterload ⟨[0, 0], 3, 7, 1⟩)
      [.filteradd [5]] = .ok pfrom') ↔
      (⟨[0, 0], 3, 7, 1⟩ : CBloomFilter).vData ≠ [] ∨
        (⟨[0, 0], 3, 7, 1⟩ : CBloomFilter).nHashFuncs = 0 ∨
        ∀ u ∈ [(.filteradd [5] : FilterPeer.Use Nat)], u.Refused :=
  filterload_iff .numbers .new ⟨[0, 0], 3, 7, 1⟩ (by decide) [.filteradd [5]]

/-- A filter with one hash function and no data is taken, and the next `filteradd` divides by
zero. -/
theorem filteradd_divides_by_zero :
    (⟨[], 1, 0, 0⟩ : CBloomFilter).IsWithinSizeConstraints = true ∧
      Run.run (FilterPeer.use BloomRules.numbers) (FilterPeer.new.filterload ⟨[], 1, 0, 0⟩)
        [.filteradd [5]] = .error .divisionByZero :=
  ⟨by decide, rfl⟩

end TriTip
