import TriTip.Lib.Merging
import TriTip.Lib.Run
import TriTip.Block.Transaction
import TriTip.Base58.CBase58Data

/-!
# The groups of addresses

`GetAddressGroupings` of `wallet.cpp` collects for each transaction of the wallet the addresses of
its inputs and of its change, and each address of an own output alone, and unites the collected sets
that overlap. The sets are on the heap: a set of pointers has the groups, a map sends each address
to the group it is in. `GetAddressGroupings_partition`: no set is read after it is deleted, and the
groups are the classes of the chains of collected sets, whatever pointers the sets get and in
whatever order they come.
-/

namespace TriTip

open Merging

/-- What is read of a wallet. `IsMine`, `ExtractDestination` and the address book are of other
files. -/
structure AddressWallet (H : Type) where
  mapWallet : List (H × CTransaction H)
  nodup : (mapWallet.map Prod.fst).Nodup
  IsMine : CTxOut → Bool
  /-- `::IsMine(*this, address)` -/
  IsMineAddress : CTxDestination → Bool
  /-- the address of a key or of a script -/
  ExtractDestination : CScript → Option CTxDestination
  mapAddressBook : CTxDestination → Option (List UInt8)

/-! ## The sets that are collected -/

/-- The two sets of the first phase. -/
structure Collected where
  groupings : Finset (Finset CTxDestination)
  grouping : Finset CTxDestination

namespace AddressWallet

variable {H : Type} (wallet : AddressWallet H)

def IsChange (txout : CTxOut) : Bool :=
  match wallet.ExtractDestination txout.scriptPubKey with
  | none => false
  | some address => wallet.IsMineAddress address && (wallet.mapAddressBook address).isNone

def changeAddress (txout : CTxOut) : Option CTxDestination :=
  if wallet.IsChange txout then wallet.ExtractDestination txout.scriptPubKey else none

/-- The address of an output that is mine. -/
def loneAddress (txout : CTxOut) : Option CTxDestination :=
  if wallet.IsMine txout then wallet.ExtractDestination txout.scriptPubKey else none

/-- Group change with input addresses. -/
def groupChange (grouping : Finset CTxDestination) (vout : List CTxOut) : Finset CTxDestination :=
  vout.foldl (fun grouping txout =>
    match wallet.changeAddress txout with
    | none => grouping
    | some address => insert address grouping) grouping

/-- Group lone addrs by themselves. -/
def collectLone (s : Collected) (txout : CTxOut) : Collected :=
  match wallet.loneAddress txout with
  | none => s
  | some address => ⟨insert (insert address s.grouping) s.groupings, ∅⟩

variable [DecidableEq H]

/-- `mapWallet[txin.prevout.hash].vout[txin.prevout.n]` -/
def prevOut (txin : CTxIn H) : Option CTxOut :=
  match wallet.mapWallet.lookup txin.prevout.hash with
  | none => none
  | some prev => prev.vout[txin.prevout.n.toNat]?

/-- `IsMine(txin)` -/
def IsMineInput (txin : CTxIn H) : Bool :=
  match wallet.prevOut txin with
  | none => false
  | some txout => wallet.IsMine txout

/-- The address of an input that is mine. -/
def inputAddress (txin : CTxIn H) : Option CTxDestination :=
  if !wallet.IsMineInput txin then none
  else (wallet.prevOut txin).bind fun txout => wallet.ExtractDestination txout.scriptPubKey

/-- An input, onto the grouping and `any_mine`. -/
def groupInput (s : Finset CTxDestination × Bool) (txin : CTxIn H) :
    Finset CTxDestination × Bool :=
  match wallet.inputAddress txin with
  | none => s
  | some address => (insert address s.1, true)

/-- Group all input addresses with each other. -/
def groupInputs (grouping : Finset CTxDestination) (vin : List (CTxIn H)) :
    Finset CTxDestination × Bool :=
  vin.foldl wallet.groupInput (grouping, false)

def collectVin (s : Collected) (pcoin : CTransaction H) : Collected :=
  if 0 < pcoin.vin.length then
    let (grouping, any_mine) := wallet.groupInputs s.grouping pcoin.vin
    let grouping := if any_mine then wallet.groupChange grouping pcoin.vout else grouping
    if 0 < grouping.card then ⟨insert grouping s.groupings, ∅⟩ else ⟨s.groupings, grouping⟩
  else s

def collect (s : Collected) (pcoin : CTransaction H) : Collected :=
  pcoin.vout.foldl wallet.collectLone (wallet.collectVin s pcoin)

def collectGroupings : Finset (Finset CTxDestination) :=
  (wallet.mapWallet.foldl (fun s walletEntry => wallet.collect s walletEntry.2) ⟨∅, ∅⟩).groupings

/-! What the loops collect. -/

/-- The addresses of the inputs that are mine. -/
def inputAddresses (pcoin : CTransaction H) : Finset CTxDestination :=
  (pcoin.vin.filterMap wallet.inputAddress).toFinset

/-- The addresses of the change. -/
def changeAddresses (pcoin : CTransaction H) : Finset CTxDestination :=
  (pcoin.vout.filterMap wallet.changeAddress).toFinset

/-- The groupings of a transaction: its input addresses with its change addresses, if an input has
one, and the address of an own output. -/
def IsGroupingOf (pcoin : CTransaction H) (grouping : Finset CTxDestination) : Prop :=
  (wallet.inputAddresses pcoin).Nonempty ∧
      grouping = wallet.inputAddresses pcoin ∪ wallet.changeAddresses pcoin ∨
    ∃ txout ∈ pcoin.vout, ∃ address, wallet.loneAddress txout = some address ∧
      grouping = {address}

/-- The groupings of the transactions of the wallet. -/
def groupings : Set (Finset CTxDestination) :=
  { grouping | ∃ walletEntry ∈ wallet.mapWallet, wallet.IsGroupingOf walletEntry.2 grouping }

theorem foldl_groupInput (s : Finset CTxDestination × Bool) (vin : List (CTxIn H)) :
    vin.foldl wallet.groupInput s =
      (s.1 ∪ (vin.filterMap wallet.inputAddress).toFinset,
        s.2 || !(vin.filterMap wallet.inputAddress).isEmpty) := by
  induction vin generalizing s with
  | nil => simp
  | cons txin vin ih =>
    rw [List.foldl_cons, ih]
    cases haddress : wallet.inputAddress txin with
    | none => simp [groupInput, haddress]
    | some address => simp [groupInput, haddress]

omit [DecidableEq H] in
theorem groupChange_eq (grouping : Finset CTxDestination) (vout : List CTxOut) :
    wallet.groupChange grouping vout =
      grouping ∪ (vout.filterMap wallet.changeAddress).toFinset := by
  unfold groupChange
  induction vout generalizing grouping with
  | nil => simp
  | cons txout vout ih =>
    cases haddress : wallet.changeAddress txout with
    | none => simp [haddress, ih]
    | some address => simp [haddress, ih]

/-- The working set is empty again after the inputs. -/
theorem collectVin_eq (groupings : Finset (Finset CTxDestination)) (pcoin : CTransaction H) :
    wallet.collectVin ⟨groupings, ∅⟩ pcoin =
      if wallet.inputAddresses pcoin = ∅ then ⟨groupings, ∅⟩
      else ⟨insert (wallet.inputAddresses pcoin ∪ wallet.changeAddresses pcoin) groupings, ∅⟩ := by
  have hinputs : wallet.groupInputs ∅ pcoin.vin =
      (wallet.inputAddresses pcoin, !(pcoin.vin.filterMap wallet.inputAddress).isEmpty) := by
    simp [groupInputs, foldl_groupInput, inputAddresses]
  have hany : (pcoin.vin.filterMap wallet.inputAddress).isEmpty =
      decide (wallet.inputAddresses pcoin = ∅) := by
    rw [Bool.eq_iff_iff, List.isEmpty_iff, decide_eq_true_iff, inputAddresses,
      List.toFinset_eq_empty_iff]
  have hchange : ∀ grouping, wallet.groupChange grouping pcoin.vout =
      grouping ∪ wallet.changeAddresses pcoin := fun grouping =>
    wallet.groupChange_eq grouping pcoin.vout
  simp only [collectVin, hinputs, hany, hchange]
  by_cases hempty : wallet.inputAddresses pcoin = ∅
  · simp [hempty]
  · have hvin : pcoin.vin ≠ [] := by
      rintro hvin
      simp [inputAddresses, hvin] at hempty
    have hgroup : (wallet.inputAddresses pcoin ∪ wallet.changeAddresses pcoin).Nonempty :=
      (Finset.nonempty_of_ne_empty hempty).mono Finset.subset_union_left
    rw [if_pos (List.length_pos_iff.2 hvin), if_neg hempty]
    simp only [hempty, decide_false, Bool.not_false, if_true]
    rw [if_pos (Finset.card_pos.2 hgroup)]

omit [DecidableEq H] in
theorem foldl_collectLone (s : Collected) (hs : s.grouping = ∅) (vout : List CTxOut) :
    (vout.foldl wallet.collectLone s).grouping = ∅ ∧
      ∀ grouping, grouping ∈ (vout.foldl wallet.collectLone s).groupings ↔
        grouping ∈ s.groupings ∨ ∃ txout ∈ vout, ∃ address,
          wallet.loneAddress txout = some address ∧ grouping = {address} := by
  induction vout generalizing s with
  | nil => simp [hs]
  | cons txout vout ih =>
    rw [List.foldl_cons]
    cases haddress : wallet.loneAddress txout with
    | none =>
      have hstep : wallet.collectLone s txout = s := by simp [collectLone, haddress]
      rw [hstep]
      simpa [haddress] using ih s hs
    | some address =>
      have hstep : wallet.collectLone s txout = ⟨insert {address} s.groupings, ∅⟩ := by
        simp [collectLone, haddress, hs]
      rw [hstep]
      obtain ⟨hgrouping, hmem⟩ := ih ⟨insert {address} s.groupings, ∅⟩ rfl
      refine ⟨hgrouping, fun grouping => ?_⟩
      rw [hmem]
      simp [haddress, or_assoc, or_left_comm]

/-- One transaction adds its groupings. -/
theorem collect_spec {s : Collected} (hs : s.grouping = ∅) (pcoin : CTransaction H) :
    (wallet.collect s pcoin).grouping = ∅ ∧
      ∀ grouping, grouping ∈ (wallet.collect s pcoin).groupings ↔
        grouping ∈ s.groupings ∨ wallet.IsGroupingOf pcoin grouping := by
  obtain ⟨groupings, _⟩ := s
  obtain rfl : _ = ∅ := hs
  have hvin := wallet.collectVin_eq groupings pcoin
  have hempty : (wallet.collectVin ⟨groupings, ∅⟩ pcoin).grouping = ∅ := by
    rw [hvin]
    split <;> rfl
  obtain ⟨hgrouping, hmem⟩ := wallet.foldl_collectLone _ hempty pcoin.vout
  refine ⟨hgrouping, fun grouping => ?_⟩
  rw [collect, hmem, hvin, IsGroupingOf, ← or_assoc]
  apply or_congr_left
  by_cases hinputs : wallet.inputAddresses pcoin = ∅
  · simp [hinputs]
  · simp [hinputs, Finset.nonempty_iff_ne_empty, or_comm]

theorem foldl_collect (s : Collected) (hs : s.grouping = ∅) (entries : List (H × CTransaction H))
    (grouping : Finset CTxDestination) :
    grouping ∈ (entries.foldl (fun s walletEntry => wallet.collect s walletEntry.2) s).groupings ↔
      grouping ∈ s.groupings ∨
        ∃ walletEntry ∈ entries, wallet.IsGroupingOf walletEntry.2 grouping := by
  induction entries generalizing s with
  | nil => simp
  | cons walletEntry entries ih =>
    obtain ⟨hgrouping, hmem⟩ := wallet.collect_spec hs walletEntry.2
    rw [List.foldl_cons, ih _ hgrouping, hmem]
    simp [or_assoc]

/-- The first phase collects the groupings of the transactions. -/
theorem mem_collectGroupings {grouping : Finset CTxDestination} :
    grouping ∈ wallet.collectGroupings ↔ grouping ∈ wallet.groupings := by
  rw [collectGroupings, foldl_collect _ _ rfl]
  simp [groupings]

theorem nonempty_of_mem_groupings {grouping : Finset CTxDestination}
    (h : grouping ∈ wallet.groupings) : grouping.Nonempty := by
  obtain ⟨walletEntry, -, ⟨hinputs, rfl⟩ | ⟨_, -, address, -, rfl⟩⟩ := h
  · exact hinputs.mono Finset.subset_union_left
  · exact Finset.singleton_nonempty address

end AddressWallet

/-! ## The merged groups -/

inductive GroupFault where
  | useAfterFree
  deriving DecidableEq

/-- The pointers that `new` returns, from the number of the call and the pointers that are taken,
and the orders of the two sets. -/
structure MergeChoices where
  new : Nat → (taken : Finset Nat) → { p : Nat // p ∉ taken }
  pointers : (s : Finset Nat) → { l : List Nat // l.Nodup ∧ ∀ p, p ∈ l ↔ p ∈ s }
  groupings : (s : Finset (Finset CTxDestination)) →
    { l : List (Finset CTxDestination) // l.Nodup ∧ ∀ grouping, grouping ∈ l ↔ grouping ∈ s }

structure MergeState where
  heap : Finmap fun _ : Nat => Finset CTxDestination
  calls : Nat
  /-- a set of pointers to groups of addresses -/
  uniqueGroupings : Finset Nat
  /-- map addresses to the unique group containing it -/
  setmap : CTxDestination → Option Nat

namespace MergeState

def empty : MergeState := ⟨∅, 0, ∅, fun _ => none⟩

/-- A set of all the groups hit by this new group. -/
def hits (s : MergeState) (grouping : Finset CTxDestination) : Finset Nat :=
  grouping.biUnion fun address => (s.setmap address).toFinset

/-- `merged = new set<CTxDestination>(grouping)` -/
def alloc (s : MergeState) (merged : Nat) (grouping : Finset CTxDestination) : MergeState :=
  { s with heap := s.heap.insert merged grouping, calls := s.calls + 1 }

/-- A hit group goes into the merged one and is deleted. -/
def mergeHit (merged : Nat) (s : MergeState) (hit : Nat) : Except GroupFault MergeState :=
  match s.heap.lookup merged, s.heap.lookup hit with
  | some into, some group =>
    .ok { s with
      heap := (s.heap.insert merged (into ∪ group)).erase hit
      uniqueGroupings := s.uniqueGroupings.erase hit }
  | _, _ => .error .useAfterFree

/-- The merged group is inserted, and `setmap` updated. -/
def insertMerged (s : MergeState) (merged : Nat) : Except GroupFault MergeState :=
  match s.heap.lookup merged with
  | some group =>
    .ok { s with
      uniqueGroupings := insert merged s.uniqueGroupings
      setmap := fun element => if element ∈ group then some merged else s.setmap element }
  | none => .error .useAfterFree

/-- One turn of the second phase. -/
def mergeGrouping (choices : MergeChoices) (s : MergeState) (grouping : Finset CTxDestination) :
    Except GroupFault MergeState :=
  let merged := (choices.new s.calls s.heap.keys).val
  match Run.run (mergeHit merged) (s.alloc merged grouping)
      (choices.pointers (s.hits grouping)).val with
  | .ok s => s.insertMerged merged
  | .error e => .error e

/-- A group is copied into the result and deleted. -/
def takeGroup (r : (Finmap fun _ : Nat => Finset CTxDestination) × Finset (Finset CTxDestination))
    (uniqueGrouping : Nat) :
    Except GroupFault
      ((Finmap fun _ : Nat => Finset CTxDestination) × Finset (Finset CTxDestination)) :=
  match r.1.lookup uniqueGrouping with
  | some group => .ok (r.1.erase uniqueGrouping, insert group r.2)
  | none => .error .useAfterFree

end MergeState

def AddressWallet.GetAddressGroupings {H : Type} [DecidableEq H] (wallet : AddressWallet H)
    (choices : MergeChoices) : Except GroupFault (Finset (Finset CTxDestination)) :=
  match Run.run (MergeState.mergeGrouping choices) .empty
      (choices.groupings wallet.collectGroupings).val with
  | .error e => .error e
  | .ok s =>
    match Run.run MergeState.takeGroup (s.heap, ∅) (choices.pointers s.uniqueGroupings).val with
    | .error e => .error e
    | .ok r => .ok r.2

namespace MergeState

/-- The sets on the heap. -/
def groups (s : MergeState) : Set (Finset CTxDestination) :=
  { group | ∃ p, s.heap.lookup p = some group }

/-- The pointers are those of the heap, and the map is to the group an address is in. -/
structure Sound (s : MergeState) : Prop where
  unique_iff : ∀ p, p ∈ s.uniqueGroupings ↔ p ∈ s.heap
  setmap_iff : ∀ address p, s.setmap address = some p ↔
    ∃ group, s.heap.lookup p = some group ∧ address ∈ group

theorem sound_empty : Sound empty := by
  constructor <;> simp [empty, Finmap.notMem_empty]

variable {s : MergeState} {grouping : Finset CTxDestination} {merged : Nat}

theorem mem_hits {p : Nat} :
    p ∈ s.hits grouping ↔ ∃ address ∈ grouping, s.setmap address = some p := by
  simp [hits]

/-- A group is hit if it has an address of the grouping. -/
theorem Sound.mem_hits_iff (h : Sound s) {p : Nat} {group : Finset CTxDestination}
    (hp : s.heap.lookup p = some group) : p ∈ s.hits grouping ↔ Meets group grouping := by
  rw [mem_hits]
  constructor
  · rintro ⟨address, haddress, hset⟩
    obtain ⟨group', hp', hmem⟩ := (h.setmap_iff address p).1 hset
    obtain rfl := Option.some.inj (hp.symm.trans hp')
    exact ⟨address, hmem, haddress⟩
  · rintro ⟨address, hmem, haddress⟩
    exact ⟨address, haddress, (h.setmap_iff address p).2 ⟨group, hp, hmem⟩⟩

theorem Sound.mem_heap_of_hit (h : Sound s) {p : Nat} (hp : p ∈ s.hits grouping) :
    ∃ group, s.heap.lookup p = some group := by
  obtain ⟨address, -, hset⟩ := mem_hits.1 hp
  obtain ⟨group, hgroup, -⟩ := (h.setmap_iff address p).1 hset
  exact ⟨group, hgroup⟩

/-- The loop over the hits: they are united into the merged group and gone from the heap. -/
theorem run_mergeHit (hits : List Nat) (hnodup : hits.Nodup) (hmerged : merged ∉ hits)
    {into : Finset CTxDestination} (hinto : s.heap.lookup merged = some into)
    (hlive : ∀ p ∈ hits, ∃ group, s.heap.lookup p = some group) :
    ∃ s' group, Run.run (mergeHit merged) s hits = .ok s' ∧ s'.setmap = s.setmap ∧
      s'.heap.lookup merged = some group ∧
      (∀ address, address ∈ group ↔ address ∈ into ∨
        ∃ p ∈ hits, ∃ g, s.heap.lookup p = some g ∧ address ∈ g) ∧
      (∀ p, p ≠ merged → s'.heap.lookup p = if p ∈ hits then none else s.heap.lookup p) ∧
      ∀ p, p ∈ s'.uniqueGroupings ↔ p ∈ s.uniqueGroupings ∧ p ∉ hits := by
  induction hits generalizing s into with
  | nil => exact ⟨s, into, rfl, rfl, hinto, by simp, by simp, by simp⟩
  | cons hit hits ih =>
    obtain ⟨hnotin, hnodup⟩ := List.nodup_cons.1 hnodup
    have hne : merged ≠ hit := List.ne_of_not_mem_cons hmerged
    have hmerged : merged ∉ hits := List.not_mem_of_not_mem_cons hmerged
    obtain ⟨g, hg⟩ := hlive hit List.mem_cons_self
    set t : MergeState := { s with
      heap := (s.heap.insert merged (into ∪ g)).erase hit
      uniqueGroupings := s.uniqueGroupings.erase hit } with ht
    have hstep : mergeHit merged s hit = .ok t := by
      simp only [mergeHit, hinto, hg, ht]
    have hlookup : ∀ p, p ≠ merged → p ≠ hit → t.heap.lookup p = s.heap.lookup p := by
      intro p hp hph
      rw [ht, Finmap.lookup_erase_ne hph, Finmap.lookup_insert_of_ne _ hp]
    have hkept : ∀ p ∈ hits, t.heap.lookup p = s.heap.lookup p := fun p hp =>
      hlookup p (ne_of_mem_of_not_mem hp hmerged) (ne_of_mem_of_not_mem hp hnotin)
    have hinto' : t.heap.lookup merged = some (into ∪ g) := by
      rw [ht, Finmap.lookup_erase_ne hne, Finmap.lookup_insert]
    obtain ⟨s', group, hrun, hset, hgroup, hmem, hheap, hunique⟩ :=
      ih hnodup hmerged hinto' fun p hp => by
        rw [hkept p hp]
        exact hlive p (List.mem_cons_of_mem hit hp)
    refine ⟨s', group, by rw [Run.run_cons_of_ok hstep, hrun], hset, hgroup, ?_, ?_, ?_⟩
    · intro address
      have hrest : (∃ p ∈ hits, ∃ g, t.heap.lookup p = some g ∧ address ∈ g) ↔
          ∃ p ∈ hits, ∃ g, s.heap.lookup p = some g ∧ address ∈ g :=
        exists_congr fun p => and_congr_right fun hp => by rw [hkept p hp]
      rw [hmem, hrest]
      simp [hg, or_assoc]
    · intro p hp
      rw [hheap p hp]
      by_cases hph : p = hit
      · subst hph
        simp [hnotin, ht]
      · simp [hph, hlookup p hp hph]
    · intro p
      rw [hunique]
      simp [ht, not_or, and_left_comm, and_assoc]

/-- What one turn does, with `merged` the pointer to the group `m`. -/
structure Merged (s : MergeState) (grouping : Finset CTxDestination) (merged : Nat)
    (m : Finset CTxDestination) (s' : MergeState) : Prop where
  fresh : s.heap.lookup merged = none
  mem_iff : ∀ address, address ∈ m ↔ address ∈ grouping ∨
    ∃ p ∈ s.hits grouping, ∃ group, s.heap.lookup p = some group ∧ address ∈ group
  lookup_merged : s'.heap.lookup merged = some m
  lookup_of_ne : ∀ p group, p ≠ merged →
    (s'.heap.lookup p = some group ↔ s.heap.lookup p = some group ∧ p ∉ s.hits grouping)
  mem_unique : ∀ p, p ∈ s'.uniqueGroupings ↔
    p = merged ∨ p ∈ s.uniqueGroupings ∧ p ∉ s.hits grouping
  setmap : ∀ address, s'.setmap address = if address ∈ m then some merged else s.setmap address

theorem lookup_alloc (s : MergeState) (merged : Nat) (grouping : Finset CTxDestination) :
    (s.alloc merged grouping).heap.lookup merged = some grouping := Finmap.lookup_insert _

theorem lookup_alloc_of_ne (s : MergeState) (grouping : Finset CTxDestination) {p merged : Nat}
    (hp : p ≠ merged) : (s.alloc merged grouping).heap.lookup p = s.heap.lookup p :=
  Finmap.lookup_insert_of_ne _ hp

/-- The hits are merged into a new group. -/
theorem Sound.run_mergeHit (h : Sound s) {hits : List Nat} (hnodup : hits.Nodup)
    (hpointers : ∀ p, p ∈ hits ↔ p ∈ s.hits grouping) (hfresh : s.heap.lookup merged = none) :
    ∃ t m, Run.run (mergeHit merged) (s.alloc merged grouping) hits = .ok t ∧
      t.heap.lookup merged = some m ∧ Merged s grouping merged m { t with
        uniqueGroupings := insert merged t.uniqueGroupings
        setmap := fun element => if element ∈ m then some merged else t.setmap element } := by
  have hhit : ∀ p ∈ hits, ∃ group, s.heap.lookup p = some group := fun p hp =>
    h.mem_heap_of_hit ((hpointers p).1 hp)
  have hnotin : merged ∉ hits := by
    intro hmem
    obtain ⟨group, hgroup⟩ := hhit merged hmem
    rw [hfresh] at hgroup
    cases hgroup
  have halloc : ∀ p ∈ hits, (s.alloc merged grouping).heap.lookup p = s.heap.lookup p :=
    fun p hp => s.lookup_alloc_of_ne grouping (ne_of_mem_of_not_mem hp hnotin)
  obtain ⟨t, m, hrun, hset, hm, hmem, hheap, hunique⟩ :=
    MergeState.run_mergeHit hits hnodup hnotin (s.lookup_alloc merged grouping) fun p hp => by
      rw [halloc p hp]
      exact hhit p hp
  refine ⟨t, m, hrun, hm, ?_⟩
  constructor
  case fresh => exact hfresh
  case mem_iff =>
    intro address
    rw [hmem]
    apply or_congr_right
    apply exists_congr
    intro p
    rw [← hpointers]
    exact and_congr_right fun hp => by rw [halloc p hp]
  case lookup_merged => exact hm
  case lookup_of_ne =>
    intro p group hp
    rw [hheap p hp, s.lookup_alloc_of_ne grouping hp, ← hpointers]
    by_cases hph : p ∈ hits <;> simp [hph]
  case mem_unique =>
    intro p
    rw [Finset.mem_insert, hunique, ← hpointers]
    rfl
  case setmap =>
    intro address
    rw [hset]
    rfl

/-- No group is used after it is deleted. -/
theorem Sound.mergeGrouping (h : Sound s) (choices : MergeChoices)
    (grouping : Finset CTxDestination) :
    ∃ s' merged m, MergeState.mergeGrouping choices s grouping = .ok s' ∧
      Merged s grouping merged m s' := by
  obtain ⟨hnodup, hpointers⟩ := (choices.pointers (s.hits grouping)).property
  have hfresh : s.heap.lookup (choices.new s.calls s.heap.keys).val = none := by
    rw [Finmap.lookup_eq_none, ← Finmap.mem_keys]
    exact (choices.new s.calls s.heap.keys).property
  obtain ⟨t, m, hrun, hm, hs⟩ := h.run_mergeHit hnodup hpointers hfresh
  refine ⟨_, _, m, ?_, hs⟩
  simp only [MergeState.mergeGrouping, hrun, insertMerged, hm]

namespace Merged

variable {m : Finset CTxDestination} {s' : MergeState}

theorem ne_merged (hs : Merged s grouping merged m s') {p : Nat} {group : Finset CTxDestination}
    (hp : s.heap.lookup p = some group) : p ≠ merged := by
  rintro rfl
  rw [hs.fresh] at hp
  cases hp

theorem sound (hs : Merged s grouping merged m s') (h : Sound s) : Sound s' := by
  constructor
  case unique_iff =>
    intro p
    rw [hs.mem_unique, h.unique_iff, Finmap.mem_iff, Finmap.mem_iff]
    by_cases hp : p = merged
    · subst hp
      simp [hs.lookup_merged]
    · simp [hp, hs.lookup_of_ne p _ hp]
  case setmap_iff =>
    intro address p
    rw [hs.setmap]
    by_cases hmem : address ∈ m
    · rw [if_pos hmem]
      constructor
      · intro hp
        obtain rfl := Option.some.inj hp
        exact ⟨m, hs.lookup_merged, hmem⟩
      · rintro ⟨group, hgroup, haddress⟩
        -- another group with the address would have been hit
        by_contra hp
        have hp : p ≠ merged := fun heq => hp (by rw [heq])
        obtain ⟨hgroup, hnothit⟩ := (hs.lookup_of_ne p group hp).1 hgroup
        apply hnothit
        have hset : s.setmap address = some p :=
          (h.setmap_iff address p).2 ⟨group, hgroup, haddress⟩
        rcases (hs.mem_iff address).1 hmem with hgrouping | ⟨q, hq, group', hgroup', haddress'⟩
        · exact mem_hits.2 ⟨address, hgrouping, hset⟩
        · have hset' : s.setmap address = some q :=
            (h.setmap_iff address q).2 ⟨group', hgroup', haddress'⟩
          obtain rfl := Option.some.inj (hset.symm.trans hset')
          exact hq
    · rw [if_neg hmem, h.setmap_iff]
      constructor
      · rintro ⟨group, hgroup, haddress⟩
        refine ⟨group, (hs.lookup_of_ne p group (hs.ne_merged hgroup)).2 ⟨hgroup, ?_⟩, haddress⟩
        intro hhit
        exact hmem ((hs.mem_iff address).2 (.inr ⟨p, hhit, group, hgroup, haddress⟩))
      · rintro ⟨group, hgroup, haddress⟩
        have hp : p ≠ merged := by
          rintro rfl
          obtain rfl := Option.some.inj (hs.lookup_merged.symm.trans hgroup)
          exact hmem haddress
        exact ⟨group, ((hs.lookup_of_ne p group hp).1 hgroup).1, haddress⟩

/-- One turn merges the grouping into the groups. -/
theorem merges (hs : Merged s grouping merged m s') (h : Sound s) :
    Merges s.groups grouping s'.groups m := by
  constructor
  case mem_merged =>
    intro address
    rw [hs.mem_iff]
    apply or_congr_right
    constructor
    · rintro ⟨p, hp, group, hgroup, haddress⟩
      exact ⟨group, ⟨p, hgroup⟩, haddress, (h.mem_hits_iff hgroup).1 hp⟩
    · rintro ⟨group, ⟨p, hgroup⟩, haddress, hmeets⟩
      exact ⟨p, (h.mem_hits_iff hgroup).2 hmeets, group, hgroup, haddress⟩
  case mem_iff =>
    intro group
    constructor
    · rintro ⟨p, hgroup⟩
      by_cases hp : p = merged
      · subst hp
        exact .inl (Option.some.inj (hgroup.symm.trans hs.lookup_merged))
      · obtain ⟨hgroup, hnothit⟩ := (hs.lookup_of_ne p group hp).1 hgroup
        exact .inr ⟨⟨p, hgroup⟩, fun hmeets => hnothit ((h.mem_hits_iff hgroup).2 hmeets)⟩
    · rintro (rfl | ⟨⟨p, hgroup⟩, hmeets⟩)
      · exact ⟨merged, hs.lookup_merged⟩
      · have hnothit : p ∉ s.hits grouping := fun hhit => hmeets ((h.mem_hits_iff hgroup).1 hhit)
        exact ⟨p, (hs.lookup_of_ne p group (hs.ne_merged hgroup)).2 ⟨hgroup, hnothit⟩⟩

end Merged

/-- The second phase, over groupings in any order. -/
theorem run_mergeGrouping (choices : MergeChoices) (groupings : List (Finset CTxDestination))
    (hnonempty : ∀ grouping ∈ groupings, grouping.Nonempty) :
    ∃ s, Run.run (mergeGrouping choices) .empty groupings = .ok s ∧ Sound s ∧
      IsMerged { grouping | grouping ∈ groupings } s.groups := by
  apply Run.run_of_history
    (fun groupings s => Sound s ∧ IsMerged { grouping | grouping ∈ groupings } s.groups)
    Finset.Nonempty _ _ groupings hnonempty
  · refine ⟨sound_empty, ?_⟩
    have hgroups : groups empty = ∅ := by
      simp [groups, empty]
    rw [hgroups]
    simpa using IsMerged.empty
  · rintro groupings s grouping ⟨hsound, hmerged⟩ hnonempty
    obtain ⟨s', merged, m, hstep, hs⟩ := hsound.mergeGrouping choices grouping
    refine ⟨s', hstep, hs.sound hsound, ?_⟩
    have hinsert : { g | g ∈ groupings ++ [grouping] } = insert grouping { g | g ∈ groupings } := by
      ext g
      simp [or_comm]
    rw [hinsert]
    exact hmerged.merge (hs.merges hsound) hnonempty

/-- The last loop returns the sets on the heap. -/
theorem run_takeGroup (pointers : List Nat) (hnodup : pointers.Nodup)
    (r : (Finmap fun _ : Nat => Finset CTxDestination) × Finset (Finset CTxDestination))
    (hlive : ∀ p ∈ pointers, ∃ group, r.1.lookup p = some group) :
    ∃ r', Run.run takeGroup r pointers = .ok r' ∧ ∀ group, group ∈ r'.2 ↔
      group ∈ r.2 ∨ ∃ p ∈ pointers, r.1.lookup p = some group := by
  induction pointers generalizing r with
  | nil => exact ⟨r, rfl, by simp⟩
  | cons p pointers ih =>
    obtain ⟨hnotin, hnodup⟩ := List.nodup_cons.1 hnodup
    obtain ⟨g, hg⟩ := hlive p List.mem_cons_self
    have hstep : takeGroup r p = .ok (r.1.erase p, insert g r.2) := by
      simp only [takeGroup, hg]
    have hkept : ∀ q ∈ pointers, (r.1.erase p).lookup q = r.1.lookup q := fun q hq =>
      Finmap.lookup_erase_ne (ne_of_mem_of_not_mem hq hnotin)
    obtain ⟨r', hrun, hmem⟩ := ih hnodup (r.1.erase p, insert g r.2) fun q hq => by
      rw [hkept q hq]
      exact hlive q (List.mem_cons_of_mem p hq)
    refine ⟨r', by rw [Run.run_cons_of_ok hstep, hrun], fun group => ?_⟩
    have hrest : (∃ q ∈ pointers, (r.1.erase p).lookup q = some group) ↔
        ∃ q ∈ pointers, r.1.lookup q = some group :=
      exists_congr fun q => and_congr_right fun hq => by rw [hkept q hq]
    rw [hmem, hrest]
    simp [hg, or_assoc, or_left_comm, eq_comm]

end MergeState

/-- What is returned are the groups into which the groupings are merged. -/
theorem AddressWallet.GetAddressGroupings_isMerged {H : Type} [DecidableEq H]
    (wallet : AddressWallet H) (choices : MergeChoices) :
    ∃ ret, wallet.GetAddressGroupings choices = .ok ret ∧
      IsMerged wallet.groupings { group | group ∈ ret } := by
  obtain ⟨-, hgroupings⟩ := (choices.groupings wallet.collectGroupings).property
  have hcollected : { grouping | grouping ∈ (choices.groupings wallet.collectGroupings).val } =
      wallet.groupings := by
    ext grouping
    exact (hgroupings grouping).trans wallet.mem_collectGroupings
  have hnonempty : ∀ grouping ∈ (choices.groupings wallet.collectGroupings).val,
      grouping.Nonempty := fun grouping hgrouping =>
    wallet.nonempty_of_mem_groupings (hcollected ▸ hgrouping)
  obtain ⟨s, hrun, hsound, hmerged⟩ := MergeState.run_mergeGrouping choices _ hnonempty
  rw [hcollected] at hmerged
  obtain ⟨hnodup, hpointers⟩ := (choices.pointers s.uniqueGroupings).property
  obtain ⟨r, htake, hmem⟩ := MergeState.run_takeGroup _ hnodup (s.heap, ∅) fun p hp =>
    Finmap.mem_iff.1 ((hsound.unique_iff p).1 ((hpointers p).1 hp))
  have hret : { group | group ∈ r.2 } = s.groups := by
    ext group
    apply (hmem group).trans
    constructor
    · rintro (hnot | ⟨p, -, hp⟩)
      · cases hnot
      · exact ⟨p, hp⟩
    · rintro ⟨p, hp⟩
      refine .inr ⟨p, (hpointers p).2 ((hsound.unique_iff p).2 ?_), hp⟩
      exact Finmap.mem_iff.2 ⟨group, hp⟩
  refine ⟨r.2, ?_, ?_⟩
  · simp only [GetAddressGroupings, hrun, htake]
  · rw [hret]
    exact hmerged

/-- **The groupings are a partition.** -/
theorem AddressWallet.GetAddressGroupings_partition {H : Type} [DecidableEq H]
    (wallet : AddressWallet H) (choices : MergeChoices) :
    ∃ ret, wallet.GetAddressGroupings choices = .ok ret ∧
      (∀ group ∈ ret, group.Nonempty) ∧
      (∀ group ∈ ret, ∀ group' ∈ ret, group ≠ group' → Disjoint group group') ∧
      (∀ address, (∃ group ∈ ret, address ∈ group) ↔
        ∃ grouping ∈ wallet.groupings, address ∈ grouping) ∧
      ∀ address address', (∃ group ∈ ret, address ∈ group ∧ address' ∈ group) ↔
        Linked wallet.groupings address address' := by
  obtain ⟨ret, hret, hmerged⟩ := wallet.GetAddressGroupings_isMerged choices
  refine ⟨ret, hret, hmerged.nonempty, ?_, ?_, ?_⟩
  · intro group hgroup group' hgroup' hne
    rw [Finset.disjoint_left]
    intro address haddress haddress'
    exact hne (hmerged.eq_of_mem group hgroup group' hgroup' address haddress haddress')
  · intro address
    exact hmerged.covers
  · intro address address'
    exact hmerged.iff_linked

end TriTip
