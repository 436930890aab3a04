import TriTip.Bloom.CBloomFilter
import TriTip.Lib.Run

/-!
# Transactions that match a filter

`CBloomFilter::IsRelevantAndUpdate` (`bloom.cpp`). `GetOp`, `Solver` and the encodings of hashes and
outpoints are not in the tree: they are arbitrary, but `GetOp` reads at least an opcode. A filter
forgets nothing, and a transaction that spends an output which has matched matches
(`filter_remembers`).
-/

namespace TriTip

inductive txnouttype where
  | TX_PUBKEY
  | TX_MULTISIG
  | other
  deriving DecidableEq

/-- What filters use of `script.h`, `uint256.h` and `serialize.h`. -/
structure BloomRules (H : Type) where
  /-- the bytes of a hash -/
  hash : H → List UInt8
  /-- an outpoint as it is serialized -/
  outpoint : COutPoint H → List UInt8
  /-- `GetOp` at a position: the opcode, its data, and how many bytes after the opcode it has read
  -/
  GetOp : CScript → Nat → Option (UInt8 × List UInt8 × Nat)
  /-- the type of a script that is solved -/
  Solver : CScript → Option txnouttype

def BLOOM_UPDATE_ALL : UInt8 := 1

def BLOOM_UPDATE_P2PUBKEY_ONLY : UInt8 := 2

def BLOOM_UPDATE_MASK : UInt8 := 3

namespace CBloomFilter

variable {H : Type} (R : BloomRules H)

def insertOutPoint (filter : CBloomFilter) (outpoint : COutPoint H) :
    Except BloomFault CBloomFilter :=
  filter.insert (R.outpoint outpoint)

def insertHash (filter : CBloomFilter) (hash : H) : Except BloomFault CBloomFilter :=
  filter.insert (R.hash hash)

def containsOutPoint (filter : CBloomFilter) (outpoint : COutPoint H) : Except BloomFault Bool :=
  filter.contains (R.outpoint outpoint)

def containsHash (filter : CBloomFilter) (hash : H) : Except BloomFault Bool :=
  filter.contains (R.hash hash)

/-- The loop over the data elements of a script from `pc` on; there are no more than bytes. -/
def matchesFrom (filter : CBloomFilter) (script : CScript) :
    (turns pc : Nat) → Except BloomFault Bool
  | 0, _ => .ok false
  | turns + 1, pc =>
    if pc < script.length then
      match R.GetOp script pc with
      | none => .ok false
      | some (_, data, read) =>
        if data.isEmpty then matchesFrom filter script turns (pc + 1 + read)
        else do
          if ← filter.contains data then return true
          matchesFrom filter script turns (pc + 1 + read)
    else .ok false

def matchesScript (filter : CBloomFilter) (script : CScript) : Except BloomFault Bool :=
  filter.matchesFrom R script script.length 0

/-- What is added for an output that has matched. -/
def update (filter : CBloomFilter) (outpoint : COutPoint H) (scriptPubKey : CScript) :
    Except BloomFault CBloomFilter :=
  if filter.nFlags &&& BLOOM_UPDATE_MASK = BLOOM_UPDATE_ALL then filter.insertOutPoint R outpoint
  else if filter.nFlags &&& BLOOM_UPDATE_MASK = BLOOM_UPDATE_P2PUBKEY_ONLY then
    match R.Solver scriptPubKey with
    | some .TX_PUBKEY => filter.insertOutPoint R outpoint
    | some .TX_MULTISIG => filter.insertOutPoint R outpoint
    | _ => .ok filter
  else .ok filter

/-- The loop over the outputs, from number `i` on. -/
def matchOutputs (hash : H) : (fFound : Bool) → (i : Nat) → List CTxOut → CBloomFilter →
    Except BloomFault (Bool × CBloomFilter)
  | fFound, _, [], filter => .ok (fFound, filter)
  | fFound, i, txout :: vout, filter => do
    -- Match if the filter contains any arbitrary script data element in any scriptPubKey in tx
    -- If this matches, also add the specific output that was matched.
    if ← filter.matchesScript R txout.scriptPubKey then
      let filter ← filter.update R ⟨hash, UInt32.ofNat i⟩ txout.scriptPubKey
      matchOutputs hash true (i + 1) vout filter
    else matchOutputs hash fFound (i + 1) vout filter

/-- The loop over the inputs. -/
def matchInputs (filter : CBloomFilter) : List (CTxIn H) → Except BloomFault Bool
  | [] => .ok false
  | txin :: vin => do
    if ← filter.containsOutPoint R txin.prevout then return true
    if ← filter.matchesScript R txin.scriptSig then return true
    matchInputs filter vin

def IsRelevantAndUpdate (filter : CBloomFilter) (tx : CTransaction H) (hash : H) :
    Except BloomFault (Bool × CBloomFilter) := do
  let fFound ← filter.containsHash R hash
  let (fFound, filter) ← matchOutputs R hash fFound 0 tx.vout filter
  if fFound then return (true, filter)
  return (← filter.matchInputs R tx.vin, filter)

/-! ## What a call does to a filter -/

variable {R} {filter filter' : CBloomFilter}

theorem exists_matchesFrom (h : filter.Usable) (script : CScript) (turns pc : Nat) :
    ∃ b, filter.matchesFrom R script turns pc = .ok b := by
  induction turns generalizing pc with
  | zero => exact ⟨false, rfl⟩
  | succ turns ih =>
    unfold matchesFrom
    split
    · split
      · exact ⟨false, rfl⟩
      · next data read _ =>
        split
        · exact ih _
        · obtain ⟨b, hb, -⟩ := contains_spec h data
          rw [hb]
          cases b with
          | true => exact ⟨true, rfl⟩
          | false => exact ih _
    · exact ⟨false, rfl⟩

theorem exists_matchesScript (h : filter.Usable) (script : CScript) :
    ∃ b, filter.matchesScript R script = .ok b := exists_matchesFrom h script _ _

theorem exists_insertOutPoint (h : filter.Usable) (outpoint : COutPoint H) :
    ∃ filter', filter.insertOutPoint R outpoint = .ok filter' ∧ filter.Extends filter' := by
  obtain ⟨filter', hins, hextends, -⟩ := insert_spec h (R.outpoint outpoint)
  exact ⟨filter', hins, hextends⟩

theorem exists_update (h : filter.Usable) (outpoint : COutPoint H) (scriptPubKey : CScript) :
    ∃ filter', filter.update R outpoint scriptPubKey = .ok filter' ∧ filter.Extends filter' := by
  unfold update
  split
  · exact exists_insertOutPoint h outpoint
  · split
    · split
      · exact exists_insertOutPoint h outpoint
      · exact exists_insertOutPoint h outpoint
      · exact ⟨filter, rfl, .refl filter⟩
    · exact ⟨filter, rfl, .refl filter⟩

/-- The outputs only add to a filter, and a match is not forgotten. -/
theorem exists_matchOutputs (h : filter.Usable) (hash : H) (fFound : Bool) (i : Nat)
    (vout : List CTxOut) : ∃ found filter',
      matchOutputs R hash fFound i vout filter = .ok (found, filter') ∧ filter.Extends filter' ∧
        (fFound = true → found = true) := by
  induction vout generalizing filter fFound i with
  | nil => exact ⟨fFound, filter, rfl, .refl filter, id⟩
  | cons txout vout ih =>
    obtain ⟨b, hb⟩ := exists_matchesScript (R := R) h txout.scriptPubKey
    unfold matchOutputs
    rw [hb]
    cases b with
    | false => exact ih h fFound (i + 1)
    | true =>
      obtain ⟨filter₁, hupdate, hextends⟩ :=
        exists_update (R := R) h ⟨hash, UInt32.ofNat i⟩ txout.scriptPubKey
      obtain ⟨found, filter', hrest, hextends', hfound⟩ := ih (hextends.usable h) true (i + 1)
      dsimp only [bind, Except.bind]
      rw [if_pos rfl, hupdate]
      exact ⟨found, filter', hrest, hextends.trans hextends', fun _ => hfound rfl⟩

theorem exists_matchInputs (h : filter.Usable) (vin : List (CTxIn H)) :
    ∃ b, filter.matchInputs R vin = .ok b := by
  induction vin with
  | nil => exact ⟨false, rfl⟩
  | cons txin vin ih =>
    obtain ⟨b, hb, -⟩ := contains_spec h (R.outpoint txin.prevout)
    obtain ⟨b', hb'⟩ := exists_matchesScript (R := R) h txin.scriptSig
    unfold matchInputs containsOutPoint
    rw [hb]
    cases b with
    | true => exact ⟨true, rfl⟩
    | false =>
      dsimp only [bind, Except.bind]
      rw [if_neg Bool.false_ne_true, hb']
      cases b' with
      | true => exact ⟨true, rfl⟩
      | false => exact ih

/-- **A call only adds to a filter.** -/
theorem exists_isRelevantAndUpdate (h : filter.Usable) (tx : CTransaction H) (hash : H) :
    ∃ relevant filter', filter.IsRelevantAndUpdate R tx hash = .ok (relevant, filter') ∧
      filter.Extends filter' := by
  obtain ⟨b, hb, -⟩ := contains_spec h (R.hash hash)
  obtain ⟨found, filter', houtputs, hextends, -⟩ := exists_matchOutputs (R := R) h hash b 0 tx.vout
  obtain ⟨b', hb'⟩ := exists_matchInputs (R := R) (hextends.usable h) tx.vin
  unfold IsRelevantAndUpdate containsHash
  rw [hb]
  dsimp only [bind, Except.bind]
  rw [houtputs]
  dsimp only
  split
  · exact ⟨true, filter', rfl, hextends⟩
  · rw [hb']
    exact ⟨b', filter', rfl, hextends⟩

/-! ## What has matched -/

/-- The call finds an element of output `i` in the filter, as the outputs before have left it. -/
def MatchesOutput (R : BloomRules H) (filter : CBloomFilter) (tx : CTransaction H) (hash : H)
    (i : Nat) : Prop :=
  ∃ fFound found txout filter', filter.containsHash R hash = .ok fFound ∧
    matchOutputs R hash fFound 0 (tx.vout.take i) filter = .ok (found, filter') ∧
    tx.vout[i]? = some txout ∧ filter'.matchesScript R txout.scriptPubKey = .ok true

/-- The loop over two lists of outputs. -/
theorem matchOutputs_append {hash : H} {fFound found : Bool} {i : Nat} {vout vout' : List CTxOut}
    (h : matchOutputs R hash fFound i vout filter = .ok (found, filter')) :
    matchOutputs R hash fFound i (vout ++ vout') filter =
      matchOutputs R hash found (i + vout.length) vout' filter' := by
  induction vout generalizing filter fFound i with
  | nil =>
    cases h
    rfl
  | cons txout vout ih =>
    rw [List.cons_append]
    rw [matchOutputs] at h ⊢
    rw [List.length_cons, Nat.add_comm vout.length 1, ← Nat.add_assoc]
    obtain ⟨b, hb, h⟩ := exists_of_bind_eq_ok h
    rw [hb]
    cases b with
    | false => exact ih h
    | true =>
      obtain ⟨filter₁, hupdate, h⟩ := exists_of_bind_eq_ok h
      dsimp only [bind, Except.bind]
      rw [if_pos rfl, hupdate]
      exact ih h

/-- An output that has matched is in the filter after the call, which has found it. -/
theorem containsOutPoint_of_matchesOutput (h : filter.Usable)
    (hall : filter.nFlags &&& BLOOM_UPDATE_MASK = BLOOM_UPDATE_ALL) {tx : CTransaction H} {hash : H}
    {i : Nat} (hmatch : MatchesOutput R filter tx hash i) :
    ∃ filter', filter.IsRelevantAndUpdate R tx hash = .ok (true, filter') ∧
      filter.Extends filter' ∧
      filter'.containsOutPoint R ⟨hash, UInt32.ofNat i⟩ = .ok true := by
  obtain ⟨fFound, found, txout, filter₁, hfound, hbefore, hi, hscript⟩ := hmatch
  obtain ⟨_, _, hbefore', hextends, -⟩ :=
    exists_matchOutputs (R := R) h hash fFound 0 (tx.vout.take i)
  rw [hbefore] at hbefore'
  cases hbefore'
  have husable₁ := hextends.usable h
  obtain ⟨hlt, hget⟩ := List.getElem?_eq_some_iff.1 hi
  have hsplit : tx.vout = tx.vout.take i ++ txout :: tx.vout.drop (i + 1) := by
    rw [← hget, ← List.drop_eq_getElem_cons hlt, List.take_append_drop]
  have hlen : 0 + (tx.vout.take i).length = i := by
    rw [List.length_take, Nat.zero_add, Nat.min_eq_left (Nat.le_of_lt hlt)]
  -- the output that has matched is inserted
  obtain ⟨filter₂, hins, hextends₂, -⟩ :=
    insert_spec husable₁ (R.outpoint ⟨hash, UInt32.ofNat i⟩)
  have hcontains := contains_of_insert husable₁ hins
  have hupdate : filter₁.update R ⟨hash, UInt32.ofNat i⟩ txout.scriptPubKey = .ok filter₂ := by
    unfold update
    rw [hextends.nFlags, if_pos hall]
    exact hins
  have husable₂ := hextends₂.usable husable₁
  obtain ⟨found₃, filter₃, hrest, hextends₃, hfound₃⟩ :=
    exists_matchOutputs (R := R) husable₂ hash true (i + 1) (tx.vout.drop (i + 1))
  have houtputs : matchOutputs R hash fFound 0 tx.vout filter = .ok (true, filter₃) := by
    rw [hsplit, matchOutputs_append hbefore, hlen]
    unfold matchOutputs
    rw [hscript]
    dsimp only [bind, Except.bind]
    rw [if_pos rfl, hupdate]
    dsimp only
    rw [hrest, hfound₃ rfl]
  refine ⟨filter₃, ?_, (hextends.trans hextends₂).trans hextends₃,
    hextends₃.contains husable₂ hcontains⟩
  unfold IsRelevantAndUpdate
  rw [hfound]
  dsimp only [bind, Except.bind]
  rw [houtputs]
  rfl

/-- A transaction that spends an outpoint in the filter matches. -/
theorem matchInputs_of_containsOutPoint (h : filter.Usable) {vin : List (CTxIn H)} {txin : CTxIn H}
    (hmem : txin ∈ vin) (hcontains : filter.containsOutPoint R txin.prevout = .ok true) :
    filter.matchInputs R vin = .ok true := by
  induction vin with
  | nil => cases hmem
  | cons first vin ih =>
    obtain ⟨b, hb, -⟩ := contains_spec h (R.outpoint first.prevout)
    obtain ⟨b', hb'⟩ := exists_matchesScript (R := R) h first.scriptSig
    unfold matchInputs
    rcases List.mem_cons.1 hmem with rfl | hmem
    · rw [hcontains]
      rfl
    · unfold containsOutPoint
      rw [hb]
      cases b with
      | true => rfl
      | false =>
        dsimp only [bind, Except.bind]
        rw [if_neg Bool.false_ne_true, hb']
        cases b' with
        | true => rfl
        | false => exact ih hmem

theorem isRelevantAndUpdate_of_containsOutPoint (h : filter.Usable) {tx : CTransaction H} (hash : H)
    {txin : CTxIn H} (hmem : txin ∈ tx.vin)
    (hcontains : filter.containsOutPoint R txin.prevout = .ok true) :
    ∃ filter', filter.IsRelevantAndUpdate R tx hash = .ok (true, filter') := by
  obtain ⟨b, hb, -⟩ := contains_spec h (R.hash hash)
  obtain ⟨found, filter', houtputs, hextends, -⟩ := exists_matchOutputs (R := R) h hash b 0 tx.vout
  have hinputs := matchInputs_of_containsOutPoint (R := R) (hextends.usable h) hmem
    (hextends.contains h hcontains)
  refine ⟨filter', ?_⟩
  unfold IsRelevantAndUpdate containsHash
  rw [hb]
  dsimp only [bind, Except.bind]
  rw [houtputs]
  dsimp only
  cases found with
  | true => rfl
  | false => rw [if_neg Bool.false_ne_true, hinputs]; rfl

/-! ## Runs -/

inductive FilterCall (H : Type) where
  | insert (vKey : List UInt8)
  | IsRelevantAndUpdate (tx : CTransaction H) (hash : H)

def call (R : BloomRules H) (filter : CBloomFilter) : FilterCall H → Except BloomFault CBloomFilter
  | .insert vKey => filter.insert vKey
  | .IsRelevantAndUpdate tx hash => do
    let (_, filter) ← filter.IsRelevantAndUpdate R tx hash
    return filter

theorem exists_call (h : filter.Usable) (c : FilterCall H) :
    ∃ filter', filter.call R c = .ok filter' ∧ filter.Extends filter' := by
  cases c with
  | insert vKey =>
    obtain ⟨filter', hins, hextends, -⟩ := insert_spec h vKey
    exact ⟨filter', hins, hextends⟩
  | IsRelevantAndUpdate tx hash =>
    obtain ⟨relevant, filter', hcall, hextends⟩ := exists_isRelevantAndUpdate (R := R) h tx hash
    refine ⟨filter', ?_, hextends⟩
    unfold call
    dsimp only [bind, Except.bind]
    rw [hcall]
    rfl

/-- Every run of a usable filter goes through, and only adds to it. -/
theorem exists_run (h : filter.Usable) (calls : List (FilterCall H)) :
    ∃ filter', Run.run (call R) filter calls = .ok filter' ∧ filter.Extends filter' := by
  refine Run.run_of_invariant filter.Extends (fun _ => True) ?_ calls filter (.refl filter)
    fun _ _ => trivial
  intro s c hs _
  obtain ⟨s', hstep, hextends⟩ := exists_call (R := R) (hs.usable h) c
  exact ⟨s', hstep, hs.trans hextends⟩

end CBloomFilter

/-- **A filter forgets nothing.** In a run of a filter with data, bits are never cleared, what is
inserted stays contained, and when an output has matched under `BLOOM_UPDATE_ALL`, every later
transaction that spends it is relevant. -/
theorem filter_remembers {H : Type} (R : BloomRules H) (filter : CBloomFilter)
    (hdata : filter.vData ≠ []) (before : List (CBloomFilter.FilterCall H)) :
    ∃ filter₁, Run.run (CBloomFilter.call R) filter before = .ok filter₁ ∧
      (∀ after, ∃ filter₂, Run.run (CBloomFilter.call R) filter₁ after = .ok filter₂ ∧
        filter₁.bits ⊆ filter₂.bits) ∧
      (∀ vKey, ∃ filter₂, filter₁.insert vKey = .ok filter₂ ∧
        ∀ after, ∃ filter₃, Run.run (CBloomFilter.call R) filter₂ after = .ok filter₃ ∧
          filter₃.contains vKey = .ok true) ∧
      (filter₁.nFlags &&& BLOOM_UPDATE_MASK = BLOOM_UPDATE_ALL →
        ∀ tx hash i, CBloomFilter.MatchesOutput R filter₁ tx hash i →
          ∃ filter₂, filter₁.IsRelevantAndUpdate R tx hash = .ok (true, filter₂) ∧
            ∀ after, ∃ filter₃, Run.run (CBloomFilter.call R) filter₂ after = .ok filter₃ ∧
              ∀ (tx' : CTransaction H) (hash' : H) (txin : CTxIn H), txin ∈ tx'.vin →
                txin.prevout = ⟨hash, UInt32.ofNat i⟩ →
                ∃ filter₄, filter₃.IsRelevantAndUpdate R tx' hash' = .ok (true, filter₄)) := by
  have husable : filter.Usable := .inl hdata
  obtain ⟨filter₁, hbefore, hextends₁⟩ := CBloomFilter.exists_run (R := R) husable before
  have husable₁ := hextends₁.usable husable
  refine ⟨filter₁, hbefore, fun after => ?_, fun vKey => ?_, fun hall tx hash i hmatch => ?_⟩
  · obtain ⟨filter₂, hafter, hextends⟩ := CBloomFilter.exists_run (R := R) husable₁ after
    exact ⟨filter₂, hafter, hextends.bits⟩
  · obtain ⟨filter₂, hins, hextends₂, -⟩ := CBloomFilter.insert_spec husable₁ vKey
    have husable₂ := hextends₂.usable husable₁
    refine ⟨filter₂, hins, fun after => ?_⟩
    obtain ⟨filter₃, hafter, hextends₃⟩ := CBloomFilter.exists_run (R := R) husable₂ after
    exact ⟨filter₃, hafter,
      hextends₃.contains husable₂ (CBloomFilter.contains_of_insert husable₁ hins)⟩
  · obtain ⟨filter₂, hcall, hextends₂, hcontains⟩ :=
      CBloomFilter.containsOutPoint_of_matchesOutput husable₁ hall hmatch
    have husable₂ := hextends₂.usable husable₁
    refine ⟨filter₂, hcall, fun after => ?_⟩
    obtain ⟨filter₃, hafter, hextends₃⟩ := CBloomFilter.exists_run (R := R) husable₂ after
    refine ⟨filter₃, hafter, fun tx' hash' txin hmem hprevout => ?_⟩
    refine CBloomFilter.isRelevantAndUpdate_of_containsOutPoint
      (hextends₃.usable husable₂) hash' hmem ?_
    rw [hprevout]
    exact hextends₃.contains husable₂ hcontains

/-- Scripts of single bytes, each an element; numbers as hashes. -/
def BloomRules.numbers : BloomRules Nat where
  hash := fun n => [UInt8.ofNat n]
  outpoint := fun prevout => [UInt8.ofNat prevout.hash, UInt8.ofNat prevout.n.toNat]
  GetOp := fun script pc => (script[pc]?).map fun ch => (1, [ch], 0)
  Solver := fun _ => none

theorem filter_remembers_twoBytes :
    ∃ filter₁, Run.run (CBloomFilter.call BloomRules.numbers) ⟨[0, 0], 3, 7, 1⟩ [.insert [5]] =
        .ok filter₁ ∧
      (∀ after, ∃ filter₂, Run.run (CBloomFilter.call BloomRules.numbers) filter₁ after =
        .ok filter₂ ∧ filter₁.bits ⊆ filter₂.bits) ∧
      (∀ vKey, ∃ filter₂, filter₁.insert vKey = .ok filter₂ ∧
        ∀ after, ∃ filter₃, Run.run (CBloomFilter.call BloomRules.numbers) filter₂ after =
          .ok filter₃ ∧ filter₃.contains vKey = .ok true) ∧
      (filter₁.nFlags &&& BLOOM_UPDATE_MASK = BLOOM_UPDATE_ALL →
        ∀ tx hash i, CBloomFilter.MatchesOutput .numbers filter₁ tx hash i →
          ∃ filter₂, filter₁.IsRelevantAndUpdate .numbers tx hash = .ok (true, filter₂) ∧
            ∀ after, ∃ filter₃, Run.run (CBloomFilter.call BloomRules.numbers) filter₂ after =
              .ok filter₃ ∧
              ∀ (tx' : CTransaction Nat) (hash' : Nat) (txin : CTxIn Nat), txin ∈ tx'.vin →
                txin.prevout = ⟨hash, UInt32.ofNat i⟩ →
                ∃ filter₄, filter₃.IsRelevantAndUpdate .numbers tx' hash' = .ok (true, filter₄)) :=
  filter_remembers .numbers ⟨[0, 0], 3, 7, 1⟩ (by decide) [.insert [5]]

end TriTip
