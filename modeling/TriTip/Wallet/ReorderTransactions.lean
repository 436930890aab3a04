import TriTip.Lib.ExactInt64
import TriTip.Lib.LittleEndian
import TriTip.Lib.OrdMap
import TriTip.Lib.Renumber

/-!
# The order of wallet transactions

`ReorderTransactions` of `walletdb.cpp` gives a position to the transactions and the accounting
entries of an old wallet that have none, and moves the others up. It lists the entries of the
account `""` only, and it compares an old position with new ones, so that two transactions may get
the same (`ReorderTransactions_collides`). `ReorderTransactions_inOrder` says when all get their
own.
-/

namespace TriTip

open Std ExactInt64 Renumber

/-- What is read of a `CWalletTx`. -/
structure TxOrder where
  nTimeReceived : UInt32
  nOrderPos : Int64

/-- What is read of a `CAccountingEntry`, but for what is in the key of its record. -/
structure EntryOrder where
  nTime : Int64
  nOrderPos : Int64

/-- `strAccount` and `nEntryNo` -/
abbrev EntryKey := List UInt8 × UInt64

def writeCompactSize (nSize : Nat) : List UInt8 :=
  if nSize < 253 then [UInt8.ofNat nSize]
  else if nSize ≤ 0xffff then 253 :: LittleEndian.encode 2 nSize
  else if nSize ≤ 0xffffffff then 254 :: LittleEndian.encode 4 nSize
  else 255 :: LittleEndian.encode 8 nSize

/-- The key of an accounting entry in the file, after its type. -/
def entryKeyBytes (key : EntryKey) : List UInt8 :=
  writeCompactSize key.1.length ++ key.1 ++ LittleEndian.encode 8 key.2.toNat

theorem length_writeCompactSize (nSize : Nat) :
    (writeCompactSize nSize).length =
      if nSize < 253 then 1 else if nSize ≤ 0xffff then 3 else if nSize ≤ 0xffffffff then 5
      else 9 := by
  unfold writeCompactSize
  split_ifs <;> simp only [List.length_cons, List.length_nil, LittleEndian.length_encode]

/-- A longer string takes more bytes. -/
theorem length_injective {a b : List UInt8}
    (h : (writeCompactSize a.length ++ a).length = (writeCompactSize b.length ++ b).length) :
    a.length = b.length := by
  rw [List.length_append, List.length_append, length_writeCompactSize, length_writeCompactSize] at h
  split_ifs at h <;> omega

theorem entryKeyBytes_injective : Function.Injective entryKeyBytes := by
  rintro ⟨a, m⟩ ⟨b, n⟩ h
  obtain ⟨hab, hmn⟩ := List.append_inj' h (by simp only [LittleEndian.length_encode])
  have hlen : a.length = b.length := length_injective (congrArg List.length hab)
  rw [hlen] at hab
  have hnum := congrArg LittleEndian.decode hmn
  rw [LittleEndian.decode_encode, LittleEndian.decode_encode] at hnum
  change m.toNat % 2 ^ 64 = n.toNat % 2 ^ 64 at hnum
  rw [Nat.mod_eq_of_lt m.toNat_lt, Nat.mod_eq_of_lt n.toNat_lt] at hnum
  exact Prod.ext (List.append_cancel_left hab) (UInt64.toNat_inj.1 hnum)

/-- The order of the cursor. -/
abbrev entryCmp : EntryKey → EntryKey → Ordering := compareOn entryKeyBytes

instance : LawfulEqCmp entryCmp where
  eq_of_compare h := entryKeyBytes_injective (LawfulEqOrd.eq_of_compare h)

/-- The wallet in memory and its file. -/
structure WalletOrder (H : Type) [Ord H] where
  mapWallet : ExtTreeMap H TxOrder compare
  nOrderPosNext : Int64
  /-- the transactions in the file -/
  tx : ExtTreeMap H TxOrder compare
  acentry : ExtTreeMap EntryKey EntryOrder entryCmp
  /-- how the next writes end -/
  fWrite : Nat → Bool

/-- `TxPair`: a pointer to a transaction or one to an entry. -/
inductive TxPair (H : Type) where
  | pwtx (hash : H) (wtx : TxOrder)
  | pacentry (key : EntryKey) (acentry : EntryOrder)

namespace TxPair

variable {H : Type}

/-- Its key in the multimap. -/
def time : TxPair H → Int64
  | pwtx _ wtx => Int64.ofNat wtx.nTimeReceived.toNat
  | pacentry _ acentry => acentry.nTime

def nOrderPos : TxPair H → Int64
  | pwtx _ wtx => wtx.nOrderPos
  | pacentry _ acentry => acentry.nOrderPos

def setOrderPos (nOrderPos : Int64) : TxPair H → TxPair H
  | pwtx hash wtx => pwtx hash { wtx with nOrderPos }
  | pacentry key acentry => pacentry key { acentry with nOrderPos }

/-- Where it is. -/
def id : TxPair H → H ⊕ EntryKey
  | pwtx hash _ => .inl hash
  | pacentry key _ => .inr key

/-- `multimap::insert`, which puts it behind what has the same time. -/
def insertByTime (item : TxPair H) : List (TxPair H) → List (TxPair H)
  | [] => [item]
  | item' :: items =>
    if item'.time ≤ item.time then item' :: insertByTime item items else item :: item' :: items

end TxPair

namespace WalletOrder

section

variable {H : Type} [Ord H] [TransOrd H]

/-- The records with the account, from the first one on that may have it. -/
def ListAccountCreditDebit (s : WalletOrder H) (strAccount : List UInt8) :
    List (EntryKey × EntryOrder) :=
  let fAllAccounts : Bool := strAccount = [42]
  let start : EntryKey := (if fAllAccounts then [] else strAccount, 0)
  (s.acentry.toList.dropWhile fun r => entryCmp r.1 start = .lt).takeWhile
    fun r => fAllAccounts || r.1.1 = strAccount

/-- `none` if the write fails. -/
def WriteTx (s : WalletOrder H) (hash : H) (wtx : TxOrder) : Option (WalletOrder H) :=
  if s.fWrite 0 then
    some { s with tx := s.tx.insert hash wtx, fWrite := fun n => s.fWrite (n + 1) }
  else none

def WriteAccountingEntry (s : WalletOrder H) (key : EntryKey) (acentry : EntryOrder) :
    Option (WalletOrder H) :=
  if s.fWrite 0 then
    some { s with
      acentry := s.acentry.insert key acentry
      fWrite := fun n => s.fWrite (n + 1) }
  else none

def write (s : WalletOrder H) : TxPair H → Option (WalletOrder H)
  | .pwtx hash wtx => s.WriteTx hash wtx
  | .pacentry key acentry => s.WriteAccountingEntry key acentry

/-- What a pointer points to is changed; an entry is not kept in memory. -/
def assign (s : WalletOrder H) : TxPair H → WalletOrder H
  | .pwtx hash wtx => { s with mapWallet := s.mapWallet.insert hash wtx }
  | .pacentry .. => s

def txByTime (s : WalletOrder H) : List (TxPair H) :=
  let txs := s.mapWallet.toList.map fun r : H × TxOrder => TxPair.pwtx r.1 r.2
  let acentries := (s.ListAccountCreditDebit []).map fun r : EntryKey × EntryOrder =>
    TxPair.pacentry r.1 r.2
  (txs ++ acentries).foldl (fun items item => TxPair.insertByTime item items) []

/-- One turn of the loop; `none` is `DB_LOAD_FAIL`. -/
def reorderStep (s : WalletOrder H × List Int64) (item : TxPair H) :
    Option (WalletOrder H × List Int64) :=
  let (s, nOrderPosOffsets) := s
  if item.nOrderPos = -1 then
    let nOrderPos := s.nOrderPosNext
    let item := item.setOrderPos nOrderPos
    let s := { s with nOrderPosNext := nOrderPos + 1 }.assign item
    let nOrderPosOffsets := nOrderPosOffsets ++ [nOrderPos]
    match item with
    | .pwtx .. => some (s, nOrderPosOffsets)
    | .pacentry .. => (s.write item).map (·, nOrderPosOffsets)
  else
    let nOrderPosOff := Int64.ofNat (nOrderPosOffsets.countP (· ≤ item.nOrderPos))
    let nOrderPos := item.nOrderPos + nOrderPosOff
    let item := item.setOrderPos nOrderPos
    let s := { s with nOrderPosNext := max s.nOrderPosNext (nOrderPos + 1) }.assign item
    if nOrderPosOff = 0 then some (s, nOrderPosOffsets)
    else (s.write item).map (·, nOrderPosOffsets)

def ReorderTransactions (s : WalletOrder H) : Option (WalletOrder H) :=
  (s.txByTime.foldlM reorderStep ({ s with nOrderPosNext := 0 }, [])).map Prod.fst

/-- The position of a transaction in memory, and of an entry in the file. -/
def nOrderPos? (s : WalletOrder H) : H ⊕ EntryKey → Option Int64
  | .inl hash => s.mapWallet[hash]?.map TxOrder.nOrderPos
  | .inr key => s.acentry[key]?.map EntryOrder.nOrderPos

/-- Positions are apart, but for those that are -1. -/
def Apart (s : WalletOrder H) : Prop :=
  ∀ i j p, s.nOrderPos? i = some p → s.nOrderPos? j = some p → p ≠ -1 → i = j

/-- All have a position of their own, in the order that they had one. -/
structure InOrder (s s' : WalletOrder H) : Prop where
  same : ∀ i, (s'.nOrderPos? i).isSome = (s.nOrderPos? i).isSome
  nonneg : ∀ i p, s'.nOrderPos? i = some p → 0 ≤ p
  lt_next : ∀ i p, s'.nOrderPos? i = some p → p < s'.nOrderPosNext
  apart : ∀ i j p, s'.nOrderPos? i = some p → s'.nOrderPos? j = some p → i = j
  keep : ∀ i j p q p' q', s.nOrderPos? i = some p → s.nOrderPos? j = some q → p ≠ -1 → q ≠ -1 →
    p < q → s'.nOrderPos? i = some p' → s'.nOrderPos? j = some q' → p' < q'

/-- The position, if there is one. -/
def number (item : TxPair H) : Option Nat :=
  if item.nOrderPos = -1 then none else some item.nOrderPos.toInt.toNat

/-- When the offsets are counted as they should be, and none is left out. -/
structure Countable (s : WalletOrder H) : Prop where
  account : ∀ key ∈ s.acentry, key.1 = []
  nonneg : ∀ item ∈ s.txByTime, item.nOrderPos = -1 ∨ 0 ≤ item.nOrderPos
  fits : Fits (nextNumber number s.txByTime)
  clear : Clear number s.txByTime

end

/-! ## What is listed -/

theorem insertByTime_perm {H : Type} (item : TxPair H) (items : List (TxPair H)) :
    (item.insertByTime items).Perm (item :: items) := by
  induction items with
  | nil => exact .refl _
  | cons item' items ih =>
    rw [TxPair.insertByTime]
    split
    · exact (ih.cons item').trans (.swap ..)
    · exact .refl _

theorem foldl_insertByTime_perm {H : Type} (items sorted : List (TxPair H)) :
    (items.foldl (fun items item => TxPair.insertByTime item items) sorted).Perm
      (sorted ++ items) := by
  induction items generalizing sorted with
  | nil => rw [List.append_nil]; rfl
  | cons item items ih =>
    refine (ih _).trans ?_
    exact ((insertByTime_perm item sorted).append_right items).trans List.perm_middle.symm

/-- A number is not before 0. -/
theorem compare_encode_zero (w n : Nat) :
    compare (LittleEndian.encode w n) (LittleEndian.encode w 0) ≠ .lt := by
  induction w generalizing n with
  | zero => exact nofun
  | succ w ih =>
    unfold LittleEndian.encode
    rw [List.compare_cons_cons]
    intro h
    rcases Ordering.then_eq_lt.1 h with h | ⟨-, h⟩
    · exact absurd (Std.compare_eq_lt.1 h) (UInt8.not_lt.2 UInt8.zero_le)
    · exact ih _ h

/-- The first key that an entry of the account `""` may have. -/
theorem entryCmp_start (nEntryNo : UInt64) : entryCmp ([], nEntryNo) ([], 0) ≠ .lt := by
  change compare (0 :: LittleEndian.encode 8 nEntryNo.toNat) (0 :: LittleEndian.encode 8 0) ≠ .lt
  rw [List.compare_cons_cons, compare_self]
  exact compare_encode_zero 8 _

theorem toInt_max (a b : Int64) : (max a b).toInt = max a.toInt b.toInt := by
  change (if a ≤ b then b else a).toInt = _
  split_ifs with h
  · rw [max_eq_right (Int64.le_iff_toInt_le.1 h)]
  · rw [max_eq_left (Int64.lt_iff_toInt_lt.1 (Int64.not_le.1 h)).le]

section

variable {H : Type} [Ord H] [TransOrd H] [LawfulEqOrd H] {s s' : WalletOrder H}

omit [TransOrd H] [LawfulEqOrd H] in
theorem ListAccountCreditDebit_eq (h : ∀ key ∈ s.acentry, key.1 = []) :
    s.ListAccountCreditDebit [] = s.acentry.toList := by
  have hkey : ∀ r ∈ s.acentry.toList, r.1.1 = [] := by
    rintro ⟨key, acentry⟩ hr
    refine h key ?_
    rw [ExtTreeMap.mem_iff_isSome_getElem?, ExtTreeMap.mem_toList_iff_getElem?_eq_some.1 hr]
    rfl
  unfold ListAccountCreditDebit
  have hdrop : (s.acentry.toList.dropWhile fun r => entryCmp r.1 ([], 0) = .lt) =
      s.acentry.toList := by
    refine List.dropWhile_eq_self_iff.2 fun hl => ?_
    rw [decide_eq_true_iff]
    have hnil := hkey _ (List.getElem_mem hl)
    generalize s.acentry.toList[0].1 = key at hnil ⊢
    obtain ⟨_, nEntryNo⟩ := key
    cases hnil
    exact entryCmp_start nEntryNo
  have hsimp :
      (if (decide (([] : List UInt8) = [42])) = true then ([] : List UInt8) else []) = [] := rfl
  simp only [hsimp, hdrop]
  refine List.takeWhile_eq_self_iff.2 fun r hr => ?_
  rw [hkey r hr]
  rfl

omit [LawfulEqOrd H] in
theorem txByTime_perm (s : WalletOrder H) :
    s.txByTime.Perm ((s.mapWallet.toList.map fun r : H × TxOrder => TxPair.pwtx r.1 r.2) ++
      (s.ListAccountCreditDebit []).map fun r : EntryKey × EntryOrder =>
        TxPair.pacentry r.1 r.2) :=
  foldl_insertByTime_perm _ []

omit [TransOrd H] [LawfulEqOrd H] in
theorem ListAccountCreditDebit_sublist (s : WalletOrder H) (strAccount : List UInt8) :
    (s.ListAccountCreditDebit strAccount).Sublist s.acentry.toList :=
  (List.takeWhile_sublist _).trans (List.dropWhile_sublist _)

omit [LawfulEqOrd H] in
/-- No transaction and no entry is listed twice. -/
theorem txByTime_nodup (s : WalletOrder H) : (s.txByTime.map TxPair.id).Nodup := by
  rw [(s.txByTime_perm.map _).nodup_iff, List.map_append, List.map_map, List.map_map,
    List.nodup_append]
  refine ⟨?_, ?_, ?_⟩
  · have h := (OrdMap.toList_keys_nodup s.mapWallet).map
      (Sum.inl_injective : Function.Injective (Sum.inl : H → H ⊕ EntryKey))
    rwa [List.map_map] at h
  · have h := ((OrdMap.toList_keys_nodup s.acentry).sublist
      ((s.ListAccountCreditDebit_sublist []).map _)).map
      (Sum.inr_injective : Function.Injective (Sum.inr : EntryKey → H ⊕ EntryKey))
    rwa [List.map_map] at h
  · rintro _ hi _ hj rfl
    obtain ⟨r, -, hr⟩ := List.mem_map.1 hi
    obtain ⟨r', -, hr'⟩ := List.mem_map.1 hj
    exact nomatch hr.trans hr'.symm

/-- What is listed is there. -/
theorem nOrderPos?_of_mem {item : TxPair H} (h : item ∈ s.txByTime) :
    s.nOrderPos? item.id = some item.nOrderPos := by
  rcases List.mem_append.1 (s.txByTime_perm.mem_iff.1 h) with h | h
  · obtain ⟨r, hr, rfl⟩ := List.mem_map.1 h
    exact congrArg (Option.map TxOrder.nOrderPos) (ExtTreeMap.mem_toList_iff_getElem?_eq_some.1 hr)
  · obtain ⟨r, hr, rfl⟩ := List.mem_map.1 h
    exact congrArg (Option.map EntryOrder.nOrderPos)
      (ExtTreeMap.mem_toList_iff_getElem?_eq_some.1
        ((s.ListAccountCreditDebit_sublist []).subset hr))

/-- What is there is listed, if all entries are of the account `""`. -/
theorem exists_mem_txByTime (haccount : ∀ key ∈ s.acentry, key.1 = []) {i : H ⊕ EntryKey}
    {p : Int64} (h : s.nOrderPos? i = some p) :
    ∃ item ∈ s.txByTime, item.id = i ∧ item.nOrderPos = p := by
  cases i with
  | inl hash =>
    obtain ⟨wtx, hwtx, rfl⟩ := Option.map_eq_some_iff.1 h
    refine ⟨.pwtx hash wtx, s.txByTime_perm.mem_iff.2 (List.mem_append_left _ ?_), rfl, rfl⟩
    exact List.mem_map.2 ⟨(hash, wtx), ExtTreeMap.mem_toList_iff_getElem?_eq_some.2 hwtx, rfl⟩
  | inr key =>
    obtain ⟨acentry, hacentry, rfl⟩ := Option.map_eq_some_iff.1 h
    refine ⟨.pacentry key acentry, s.txByTime_perm.mem_iff.2 (List.mem_append_right _ ?_), rfl,
      rfl⟩
    rw [ListAccountCreditDebit_eq haccount]
    exact List.mem_map.2 ⟨(key, acentry),
      ExtTreeMap.mem_toList_iff_getElem?_eq_some.2 hacentry, rfl⟩

/-! ## One turn of the loop -/

/-- One position is set. -/
structure Sets {H : Type} (pos pos' : H ⊕ EntryKey → Option Int64) (i : H ⊕ EntryKey)
    (p : Int64) : Prop where
  self : pos' i = some p
  other : ∀ j, j ≠ i → pos' j = pos j

theorem sets_assign (s : WalletOrder H) (hash : H) (wtx : TxOrder) :
    Sets s.nOrderPos? (s.assign (.pwtx hash wtx)).nOrderPos? (.inl hash) wtx.nOrderPos where
  self := congrArg (Option.map TxOrder.nOrderPos) ExtTreeMap.getElem?_insert_self
  other
    | .inl hash', hne => by
      change Option.map _ (s.mapWallet.insert hash wtx)[hash']? = _
      rw [ExtTreeMap.getElem?_insert, if_neg]
      · rfl
      · exact fun h => hne (congrArg Sum.inl (LawfulEqOrd.eq_of_compare h).symm)
    | .inr _, _ => rfl

omit [LawfulEqOrd H] in
theorem sets_insert_acentry (s : WalletOrder H) (key : EntryKey) (acentry : EntryOrder) :
    Sets s.nOrderPos? { s with acentry := s.acentry.insert key acentry }.nOrderPos? (.inr key)
      acentry.nOrderPos where
  self := congrArg (Option.map EntryOrder.nOrderPos) ExtTreeMap.getElem?_insert_self
  other
    | .inl _, _ => rfl
    | .inr key', hne => by
      change Option.map _ (s.acentry.insert key acentry)[key']? = _
      rw [ExtTreeMap.getElem?_insert, if_neg]
      · rfl
      · exact fun h => hne (congrArg Sum.inr (LawfulEqCmp.eq_of_compare h).symm)

/-- What is changed and written has its position, wherever that is kept. -/
theorem sets_write {item : TxPair H} (h : (s.assign item).write item = some s') :
    Sets s.nOrderPos? s'.nOrderPos? item.id item.nOrderPos ∧
      s'.nOrderPosNext = s.nOrderPosNext := by
  cases item with
  | pwtx hash wtx =>
    unfold write WriteTx at h
    split_ifs at h
    cases h
    exact ⟨s.sets_assign hash wtx, rfl⟩
  | pacentry key acentry =>
    unfold write WriteAccountingEntry at h
    split_ifs at h
    cases h
    exact ⟨s.sets_insert_acentry key acentry, rfl⟩

@[simp] theorem nOrderPos_setOrderPos {H : Type} (item : TxPair H) (p : Int64) :
    (item.setOrderPos p).nOrderPos = p := by
  cases item <;> rfl

@[simp] theorem id_setOrderPos {H : Type} (item : TxPair H) (p : Int64) :
    (item.setOrderPos p).id = item.id := by
  cases item <;> rfl

/-- What an item gets in a turn of the loop, and what is kept for the next ones. -/
theorem reorderStep_cases {offsets offsets' : List Int64} {item : TxPair H}
    (h : reorderStep (s, offsets) item = some (s', offsets'))
    (hitem : s.nOrderPos? item.id = some item.nOrderPos) :
    item.nOrderPos = -1 ∧ Sets s.nOrderPos? s'.nOrderPos? item.id s.nOrderPosNext ∧
        s'.nOrderPosNext = s.nOrderPosNext + 1 ∧ offsets' = offsets ++ [s.nOrderPosNext] ∨
      item.nOrderPos ≠ -1 ∧ ∃ p, p = item.nOrderPos +
          Int64.ofNat (offsets.countP (· ≤ item.nOrderPos)) ∧
        Sets s.nOrderPos? s'.nOrderPos? item.id p ∧
        s'.nOrderPosNext = max s.nOrderPosNext (p + 1) ∧ offsets' = offsets := by
  unfold reorderStep at h
  dsimp only at h
  split_ifs at h with hnone hoff
  · refine .inl ⟨hnone, ?_⟩
    cases item with
    | pwtx hash wtx =>
      cases h
      exact ⟨sets_assign .., rfl, rfl⟩
    | pacentry key acentry =>
      obtain ⟨s'', hwrite, heq⟩ := Option.map_eq_some_iff.1 h
      cases heq
      obtain ⟨hsets, hnext⟩ := sets_write hwrite
      exact ⟨⟨hsets.self, hsets.other⟩, hnext, rfl⟩
  · refine .inr ⟨hnone, _, rfl, ?_⟩
    rw [hoff, Int64.add_zero] at h ⊢
    cases item with
    | pwtx hash wtx =>
      cases h
      exact ⟨sets_assign .., rfl, rfl⟩
    | pacentry key acentry =>
      cases h
      exact ⟨⟨hitem, fun j _ => rfl⟩, rfl, rfl⟩
  · refine .inr ⟨hnone, _, rfl, ?_⟩
    obtain ⟨s'', hwrite, heq⟩ := Option.map_eq_some_iff.1 h
    cases heq
    obtain ⟨hsets, hnext⟩ := sets_write hwrite
    rw [id_setOrderPos, nOrderPos_setOrderPos] at hsets
    exact ⟨⟨hsets.self, hsets.other⟩, hnext, rfl⟩

/-! ## The loop -/

/-- What holds after the items `before`. -/
structure Numbered (s : WalletOrder H) (offsets : List Int64) (before : List (TxPair H)) :
    Prop where
  next : s.nOrderPosNext.toInt = nextNumber number before
  offsets : offsets.map Int64.toInt = (taken number before).map Nat.cast
  done : ∀ b item m, before = b ++ item :: m →
    ∃ p, s.nOrderPos? item.id = some p ∧ p.toInt = newNumber number b item

theorem number_of_eq {H : Type} {item : TxPair H} (h : item.nOrderPos = -1) :
    number item = none :=
  if_pos h

/-- A position that is not negative is a number. -/
theorem number_of_nonneg {H : Type} {item : TxPair H} (h : item.nOrderPos ≠ -1)
    (hnonneg : item.nOrderPos = -1 ∨ 0 ≤ item.nOrderPos) :
    ∃ p : Nat, number item = some p ∧ item.nOrderPos.toInt = p := by
  have hle : 0 ≤ item.nOrderPos.toInt := Int64.le_iff_toInt_le.1 (hnonneg.resolve_left h)
  exact ⟨item.nOrderPos.toInt.toNat, if_neg h, (Int.toNat_of_nonneg hle).symm⟩

theorem countP_eq_of_map {offsets : List Int64} {l : List Nat} {q : Int64} {p : Nat}
    (hl : offsets.map Int64.toInt = l.map Nat.cast) (hq : q.toInt = p) :
    offsets.countP (· ≤ q) = l.countP (· ≤ p) := by
  have hint : offsets.countP (· ≤ q) = (offsets.map Int64.toInt).countP (· ≤ (p : Int)) := by
    rw [List.countP_map]
    refine List.countP_congr fun n _ => ?_
    rw [Function.comp_apply, decide_eq_true_iff, decide_eq_true_iff, Int64.le_iff_toInt_le, hq]
  rw [hint, hl, List.countP_map]
  refine List.countP_congr fun n _ => ?_
  rw [Function.comp_apply, decide_eq_true_iff, decide_eq_true_iff, Int.ofNat_le]

omit [LawfulEqOrd H] in
/-- The positions after one more item. -/
theorem Numbered.sets {offsets : List Int64} {before : List (TxPair H)} {item : TxPair H}
    {p : Int64} (h : Numbered s offsets before) (hnot : item.id ∉ before.map TxPair.id)
    (hp : p.toInt = newNumber number before item)
    (hsets : Sets s.nOrderPos? s'.nOrderPos? item.id p) {b m : List (TxPair H)}
    {item' : TxPair H} (heq : before ++ [item] = b ++ item' :: m) :
    ∃ p, s'.nOrderPos? item'.id = some p ∧ p.toInt = newNumber number b item' := by
  rcases List.eq_nil_or_concat m with rfl | ⟨m', y, rfl⟩
  · obtain ⟨rfl, hitem⟩ := List.append_inj' heq rfl
    obtain rfl : item = item' := List.singleton_inj.1 hitem
    exact ⟨p, hsets.self, hp⟩
  · rw [List.concat_eq_append, ← List.cons_append, ← List.append_assoc] at heq
    obtain ⟨rfl, -⟩ := List.append_inj' heq rfl
    obtain ⟨p', hp', hnum⟩ := h.done b item' m' rfl
    refine ⟨p', ?_, hnum⟩
    rw [hsets.other _ fun hid => hnot ?_, hp']
    rw [← hid]
    exact List.mem_map_of_mem (List.mem_append_right _ List.mem_cons_self)

/-- **One turn of the loop numbers one item more.** -/
theorem Numbered.step {offsets offsets' : List Int64} {before : List (TxPair H)}
    {item : TxPair H} (h : Numbered s offsets before)
    (hstep : reorderStep (s, offsets) item = some (s', offsets'))
    (hnot : item.id ∉ before.map TxPair.id) (hitem : s.nOrderPos? item.id = some item.nOrderPos)
    (hnonneg : item.nOrderPos = -1 ∨ 0 ≤ item.nOrderPos)
    (hfits : Fits (nextNumber number (before ++ [item])))
    (hcount : ∀ p, number item = some p →
      (taken number before).countP (· ≤ p) = (gaps number before).countP (· ≤ p)) :
    Numbered s' offsets' (before ++ [item]) := by
  have hnext := nextNumber_concat number before item
  have hbound := hfits.2
  rcases reorderStep_cases hstep hitem with
    ⟨hnone, hsets, hnext', rfl⟩ | ⟨hsome, p, hp, hsets, hnext', rfl⟩
  · have hnum := number_of_eq hnone
    have hnew : newNumber number before item = nextNumber number before := newNumber_of_none hnum
    have hone : (s.nOrderPosNext + 1).toInt = s.nOrderPosNext.toInt + 1 := by
      refine toInt_add ⟨?_, ?_⟩ <;> rw [h.next, Int64.toInt_one] <;> omega
    refine ⟨?_, ?_, fun b item' m heq => h.sets hnot (h.next.trans (by rw [hnew])) hsets heq⟩
    · rw [hnext', hone, h.next]
      omega
    · rw [taken_concat_of_none hnum, List.map_append, List.map_append, h.offsets,
        List.map_singleton, List.map_singleton, h.next]
  · obtain ⟨q, hnum, hq⟩ := number_of_nonneg hsome hnonneg
    have hnew := newNumber_of_some before hnum
    have hoff := (countP_eq_of_map h.offsets hq).trans (hcount q hnum)
    have hpint : p.toInt = newNumber number before item := by
      rw [hp, hoff, hnew, toInt_add, hq, Int64.toInt_ofNat_of_lt, Nat.cast_add]
      · omega
      · rw [hq, Int64.toInt_ofNat_of_lt (by omega)]
        exact ⟨by omega, by omega⟩
    have hone : (p + 1).toInt = p.toInt + 1 := by
      refine toInt_add ⟨?_, ?_⟩ <;> rw [hpint, Int64.toInt_one] <;> omega
    refine ⟨?_, ?_, fun b item' m heq => h.sets hnot hpint hsets heq⟩
    · rw [hnext', toInt_max, hone, hpint, h.next]
      omega
    · rw [taken_concat_of_some hnum, h.offsets]

omit [LawfulEqOrd H] in
theorem Numbered.nil (s : WalletOrder H) : Numbered { s with nOrderPosNext := 0 } [] [] where
  next := rfl
  offsets := rfl
  done _ _ _ h := absurd h (by simp)

omit [LawfulEqOrd H] in
theorem id_not_mem_before {before after : List (TxPair H)} {item : TxPair H}
    (hitems : s.txByTime = before ++ item :: after) : item.id ∉ before.map TxPair.id := by
  have hnodup := s.txByTime_nodup
  rw [hitems, List.map_append, List.map_cons] at hnodup
  exact fun hin => (List.nodup_append.1 hnodup).2.2 _ hin _ List.mem_cons_self rfl

omit [LawfulEqOrd H] in
/-- The loop over a part of the list ends with a turn. -/
theorem foldlM_concat {init : WalletOrder H × List Int64} {before : List (TxPair H)}
    {item : TxPair H} {offsets : List Int64}
    (h : (before ++ [item]).foldlM reorderStep init = some (s', offsets)) :
    ∃ s₁ offsets₁, before.foldlM reorderStep init = some (s₁, offsets₁) ∧
      reorderStep (s₁, offsets₁) item = some (s', offsets) := by
  rw [List.foldlM_append] at h
  obtain ⟨⟨s₁, offsets₁⟩, hbefore, hstep⟩ := Option.bind_eq_some_iff.1 h
  rw [List.foldlM_cons] at hstep
  obtain ⟨r, hstep, heq⟩ := Option.bind_eq_some_iff.1 hstep
  cases heq
  exact ⟨s₁, offsets₁, hbefore, hstep⟩

/-- What the loop has not come to is as it was. -/
theorem nOrderPos?_of_foldlM {before after : List (TxPair H)}
    (hitems : s.txByTime = before ++ after) {offsets : List Int64}
    (h : before.foldlM reorderStep ({ s with nOrderPosNext := 0 }, []) = some (s', offsets))
    {i : H ⊕ EntryKey} (hi : i ∉ before.map TxPair.id) : s'.nOrderPos? i = s.nOrderPos? i := by
  induction before using List.reverseRecOn generalizing after s' offsets i with
  | nil =>
    cases h
    cases i <;> rfl
  | append_singleton before item ih =>
    obtain ⟨s₁, offsets₁, hbefore, hstep⟩ := foldlM_concat h
    rw [List.append_assoc, List.singleton_append] at hitems
    have hitem : s₁.nOrderPos? item.id = some item.nOrderPos := by
      rw [ih hitems hbefore (id_not_mem_before hitems)]
      exact nOrderPos?_of_mem (hitems ▸ List.mem_append_right _ List.mem_cons_self)
    rw [List.map_append, List.mem_append, not_or] at hi
    have hne : i ≠ item.id := fun hid => hi.2 (hid ▸ List.mem_singleton_self _)
    rcases reorderStep_cases hstep hitem with ⟨-, hsets, -⟩ | ⟨-, p, -, hsets, -⟩
    · rw [hsets.other i hne, ih hitems hbefore hi.1]
    · rw [hsets.other i hne, ih hitems hbefore hi.1]

/-- What holds after the loop has run over a part of the list. -/
theorem numbered_of_foldlM (hcountable : s.Countable) {before after : List (TxPair H)}
    (hitems : s.txByTime = before ++ after) {offsets : List Int64}
    (h : before.foldlM reorderStep ({ s with nOrderPosNext := 0 }, []) = some (s', offsets)) :
    Numbered s' offsets before := by
  induction before using List.reverseRecOn generalizing after s' offsets with
  | nil =>
    cases h
    exact .nil s
  | append_singleton before item ih =>
    obtain ⟨s₁, offsets₁, hbefore, hstep⟩ := foldlM_concat h
    rw [List.append_assoc, List.singleton_append] at hitems
    have hmem : item ∈ s.txByTime := hitems ▸ List.mem_append_right _ List.mem_cons_self
    have hnot := id_not_mem_before hitems
    refine (ih hitems hbefore).step hstep hnot ?_ (hcountable.nonneg _ hmem) ?_
      fun p hp => countP_taken hcountable.clear hitems hp
    · rw [nOrderPos?_of_foldlM hitems hbefore hnot, nOrderPos?_of_mem hmem]
    · have hle := nextNumber_le_append number (before ++ [item]) after
      have hbound := hcountable.fits.2
      rw [hitems] at hbound
      rw [List.append_assoc, List.singleton_append] at hle
      exact ⟨by omega, by omega⟩

/-- What is not listed is as it was. -/
theorem nOrderPos?_of_not_listed (h : s.ReorderTransactions = some s') {i : H ⊕ EntryKey}
    (hi : i ∉ s.txByTime.map TxPair.id) : s'.nOrderPos? i = s.nOrderPos? i := by
  obtain ⟨⟨_, offsets⟩, hfold, rfl⟩ := Option.map_eq_some_iff.1 h
  exact nOrderPos?_of_foldlM (List.append_nil _).symm hfold hi

/-- An entry of another account than `""` that has no position gets none. -/
theorem nOrderPos?_of_otherAccount (h : s.ReorderTransactions = some s') {key : EntryKey}
    (hkey : key.1 ≠ []) : s'.nOrderPos? (.inr key) = s.nOrderPos? (.inr key) := by
  refine nOrderPos?_of_not_listed h fun hmem => hkey ?_
  obtain ⟨item, hitem, hid⟩ := List.mem_map.1 hmem
  rcases List.mem_append.1 (s.txByTime_perm.mem_iff.1 hitem) with hmem | hmem
  · obtain ⟨r, -, rfl⟩ := List.mem_map.1 hmem
    cases hid
  · obtain ⟨r, hr, rfl⟩ := List.mem_map.1 hmem
    cases hid
    simpa using List.mem_takeWhile_imp hr

theorem numbered_of_reorder (hcountable : s.Countable) (h : s.ReorderTransactions = some s') :
    ∃ offsets, Numbered s' offsets s.txByTime := by
  obtain ⟨⟨_, offsets⟩, hfold, rfl⟩ := Option.map_eq_some_iff.1 h
  exact ⟨offsets, numbered_of_foldlM hcountable (List.append_nil _).symm hfold⟩

omit [LawfulEqOrd H] in
/-- What is listed has got its number. -/
theorem Numbered.of_mem {offsets : List Int64} (h : Numbered s' offsets s.txByTime)
    {item : TxPair H} (hitem : item ∈ s.txByTime) :
    ∃ before m p, s.txByTime = before ++ item :: m ∧ s'.nOrderPos? item.id = some p ∧
      p.toInt = newNumber number before item := by
  obtain ⟨before, m, heq⟩ := List.append_of_mem hitem
  obtain ⟨p, hp, hnum⟩ := h.done before item m heq
  exact ⟨before, m, p, heq, hp, hnum⟩

omit [LawfulEqOrd H] in
/-- Of two items one comes after the other, and both have got their number. -/
theorem Numbered.of_pair {offsets : List Int64} (h : Numbered s' offsets s.txByTime)
    {before mid after : List (TxPair H)} {a b : TxPair H}
    (heq : s.txByTime = before ++ a :: (mid ++ b :: after)) {p q : Int64}
    (hp : s'.nOrderPos? a.id = some p) (hq : s'.nOrderPos? b.id = some q) :
    p.toInt = newNumber number before a ∧ q.toInt = newNumber number (before ++ a :: mid) b := by
  obtain ⟨p', hp', hpnum⟩ := h.done before a _ heq
  rw [← List.cons_append, ← List.append_assoc] at heq
  obtain ⟨q', hq', hqnum⟩ := h.done _ b after heq
  rw [hp] at hp'
  rw [hq] at hq'
  cases hp'
  cases hq'
  exact ⟨hpnum, hqnum⟩

omit [LawfulEqOrd H] in
theorem id_ne_of_pair {before mid after : List (TxPair H)} {a b : TxPair H}
    (heq : s.txByTime = before ++ a :: (mid ++ b :: after)) : a.id ≠ b.id := by
  have hnodup := s.txByTime_nodup
  rw [heq, List.map_append, List.map_cons] at hnodup
  have hcons := (List.nodup_cons.1 (List.nodup_append.1 hnodup).2.1).1
  exact fun h => hcons (h ▸ List.mem_map_of_mem (List.mem_append_right _ List.mem_cons_self))

/-- Items with one number have one position. -/
theorem nOrderPos_eq_of_number {H : Type} {a b : TxPair H}
    (ha : a.nOrderPos = -1 ∨ 0 ≤ a.nOrderPos) (hb : b.nOrderPos = -1 ∨ 0 ≤ b.nOrderPos) {n : Nat}
    (hna : number a = some n) (hnb : number b = some n) :
    a.nOrderPos ≠ -1 ∧ a.nOrderPos = b.nOrderPos := by
  have hnumber {item : TxPair H} (hnonneg : item.nOrderPos = -1 ∨ 0 ≤ item.nOrderPos)
      (hn : number item = some n) : item.nOrderPos ≠ -1 ∧ item.nOrderPos.toInt = n := by
    have hsome : item.nOrderPos ≠ -1 := fun h => nomatch (number_of_eq h).symm.trans hn
    obtain ⟨p, hp, hint⟩ := number_of_nonneg hsome hnonneg
    exact ⟨hsome, hint.trans (congrArg Nat.cast (Option.some.inj (hp.symm.trans hn)))⟩
  obtain ⟨hsome, haint⟩ := hnumber ha hna
  exact ⟨hsome, Int64.toInt_inj.1 (haint.trans (hnumber hb hnb).2.symm)⟩

/-- Two items that have no position in common before have none after. -/
theorem ne_of_apart (hcountable : s.Countable) (hapart : s.Apart) {offsets : List Int64}
    (h : Numbered s' offsets s.txByTime) {before mid after : List (TxPair H)} {a b : TxPair H}
    (heq : s.txByTime = before ++ a :: (mid ++ b :: after)) {p q : Int64}
    (hp : s'.nOrderPos? a.id = some p) (hq : s'.nOrderPos? b.id = some q) : p ≠ q := by
  obtain ⟨hpnum, hqnum⟩ := h.of_pair heq hp hq
  have ha : a ∈ s.txByTime := heq ▸ List.mem_append_right _ List.mem_cons_self
  have hb : b ∈ s.txByTime :=
    heq ▸ List.mem_append_right _ (List.mem_cons_of_mem _
      (List.mem_append_right _ List.mem_cons_self))
  have hne : newNumber number before a ≠ newNumber number (before ++ a :: mid) b := by
    refine newNumber_ne fun n hna hnb => id_ne_of_pair heq ?_
    obtain ⟨hsome, hsame⟩ :=
      nOrderPos_eq_of_number (hcountable.nonneg a ha) (hcountable.nonneg b hb) hna hnb
    exact hapart _ _ _ (nOrderPos?_of_mem ha) (hsame ▸ nOrderPos?_of_mem hb) hsome
  rintro rfl
  exact hne (Int.ofNat_inj.1 (hpnum.symm.trans hqnum))

omit [LawfulEqOrd H] in
/-- Two items that had positions have them in the same order. -/
theorem lt_of_lt (hcountable : s.Countable) {offsets : List Int64}
    (h : Numbered s' offsets s.txByTime) {a b : TxPair H} (ha : a ∈ s.txByTime)
    (hb : b ∈ s.txByTime) (ha₁ : a.nOrderPos ≠ -1) (hb₁ : b.nOrderPos ≠ -1)
    (hlt : a.nOrderPos < b.nOrderPos) {p q : Int64} (hp : s'.nOrderPos? a.id = some p)
    (hq : s'.nOrderPos? b.id = some q) : p < q := by
  obtain ⟨m, hm, hmint⟩ := number_of_nonneg ha₁ (hcountable.nonneg a ha)
  obtain ⟨n, hn, hnint⟩ := number_of_nonneg hb₁ (hcountable.nonneg b hb)
  have hmn : m < n := by
    have := Int64.lt_iff_toInt_lt.1 hlt
    omega
  have hne : a ≠ b := by
    rintro rfl
    exact Int64.lt_irrefl hlt
  rw [Int64.lt_iff_toInt_lt]
  rcases before_or_after ha hb hne with ⟨before, mid, after, heq⟩ | ⟨before, mid, after, heq⟩
  · obtain ⟨hpnum, hqnum⟩ := h.of_pair heq hp hq
    rw [hpnum, hqnum]
    exact Int.ofNat_lt.2 (newNumber_lt_of_lt hm hn hmn)
  · obtain ⟨hqnum, hpnum⟩ := h.of_pair heq hq hp
    rw [hpnum, hqnum]
    exact Int.ofNat_lt.2 (newNumber_lt_of_gt hn hm hmn)

/-- What has a position after the loop was listed. -/
theorem exists_mem_of_reorder (h : s.ReorderTransactions = some s')
    (haccount : ∀ key ∈ s.acentry, key.1 = []) {i : H ⊕ EntryKey} {p : Int64}
    (hp : s'.nOrderPos? i = some p) : ∃ item ∈ s.txByTime, item.id = i := by
  by_cases hi : i ∈ s.txByTime.map TxPair.id
  · exact List.mem_map.1 hi
  · rw [nOrderPos?_of_not_listed h hi] at hp
    obtain ⟨item, hitem, hid, -⟩ := exists_mem_txByTime haccount hp
    exact ⟨item, hitem, hid⟩

/-- **All transactions and entries get a position of their own**, if the offsets are counted as
they should be. -/
theorem ReorderTransactions_inOrder (hcountable : s.Countable) (hapart : s.Apart)
    (h : s.ReorderTransactions = some s') : InOrder s s' := by
  obtain ⟨offsets, hnum⟩ := numbered_of_reorder hcountable h
  have hmem {i p} (hp : s'.nOrderPos? i = some p) :=
    exists_mem_of_reorder h hcountable.account hp
  have hbounds {i p} (hp : s'.nOrderPos? i = some p) : 0 ≤ p ∧ p < s'.nOrderPosNext := by
    obtain ⟨item, hitem, rfl⟩ := hmem hp
    obtain ⟨before, m, p', heq, hp', hint⟩ := hnum.of_mem hitem
    obtain rfl : p = p' := Option.some.inj (hp.symm.trans hp')
    rw [Int64.le_iff_toInt_le, Int64.lt_iff_toInt_lt, hint, hnum.next, heq]
    exact ⟨Int.natCast_nonneg _, Int.ofNat_lt.2 (newNumber_lt before m item)⟩
  refine ⟨fun i => ?_, fun i p hp => (hbounds hp).1, fun i p hp => (hbounds hp).2,
    fun i j p hi hj => ?_, fun i j p q p' q' hi hj hi₁ hj₁ hlt hi' hj' => ?_⟩
  · by_cases hi : i ∈ s.txByTime.map TxPair.id
    · obtain ⟨item, hitem, rfl⟩ := List.mem_map.1 hi
      obtain ⟨before, m, p, heq, hp, -⟩ := hnum.of_mem hitem
      rw [hp, nOrderPos?_of_mem hitem]
      rfl
    · rw [nOrderPos?_of_not_listed h hi]
  · by_contra hij
    obtain ⟨a, ha, rfl⟩ := hmem hi
    obtain ⟨b, hb, rfl⟩ := hmem hj
    have hne : a ≠ b := fun hab => hij (congrArg TxPair.id hab)
    rcases before_or_after ha hb hne with ⟨before, mid, after, heq⟩ | ⟨before, mid, after, heq⟩
    · exact ne_of_apart hcountable hapart hnum heq hi hj rfl
    · exact ne_of_apart hcountable hapart hnum heq hj hi rfl
  · obtain ⟨a, ha, rfl, rfl⟩ := exists_mem_txByTime hcountable.account hi
    obtain ⟨b, hb, rfl, rfl⟩ := exists_mem_txByTime hcountable.account hj
    exact lt_of_lt hcountable hnum ha hb hi₁ hj₁ hlt hi' hj'

theorem apart_of_txByTime (haccount : ∀ key ∈ s.acentry, key.1 = [])
    (h : ∀ a ∈ s.txByTime, ∀ b ∈ s.txByTime, a.nOrderPos = b.nOrderPos → a.nOrderPos ≠ -1 →
      a.id = b.id) : s.Apart := by
  intro i j p hi hj hp
  obtain ⟨a, ha, rfl, rfl⟩ := exists_mem_txByTime haccount hi
  obtain ⟨b, hb, rfl, hab⟩ := exists_mem_txByTime haccount hj
  exact h a ha b hb hab.symm hp

end

/-- A transaction without a position, and an entry behind it that has one. -/
def oneBefore : WalletOrder Nat where
  mapWallet := ExtTreeMap.ofList [(0, ⟨1, -1⟩)] compare
  nOrderPosNext := 0
  tx := ExtTreeMap.ofList [(0, ⟨1, -1⟩)] compare
  acentry := ExtTreeMap.ofList [(([], 1), ⟨2, 0⟩)] entryCmp
  fWrite _ := true

theorem countable_oneBefore : oneBefore.Countable where
  account key hkey := by
    have heq : key = ([], 1) := by
      have hmem := ExtTreeMap.mem_ofList.1 hkey
      simpa using hmem
    rw [heq]
  nonneg := by decide
  fits := by decide
  clear before a after p heq ha u g hg hle := by
    have hlist : oneBefore.txByTime = [.pwtx 0 ⟨1, -1⟩, .pacentry ([], 1) ⟨2, 0⟩] := rfl
    rw [hlist] at heq
    rcases before with _ | ⟨x, _ | ⟨y, before⟩⟩
    · exact nomatch hg
    · cases heq
      cases u with
      | zero => exact hle
      | succ u => exact nomatch hg
    · simp at heq

theorem ReorderTransactions_inOrder_oneBefore :
    ∃ s', oneBefore.ReorderTransactions = some s' ∧ InOrder oneBefore s' := by
  obtain ⟨s', h⟩ := Option.isSome_iff_exists.1
    (by decide : oneBefore.ReorderTransactions.isSome = true)
  have hapart : oneBefore.Apart := apart_of_txByTime countable_oneBefore.account (by decide)
  exact ⟨s', h, ReorderTransactions_inOrder countable_oneBefore hapart h⟩

/-- The fourth transaction is moved to where the third has been put. -/
def fourTransactions : WalletOrder Nat where
  mapWallet := ExtTreeMap.ofList [(0, ⟨1, -1⟩), (1, ⟨2, 0⟩), (2, ⟨3, -1⟩), (3, ⟨4, 1⟩)] compare
  nOrderPosNext := 0
  tx := ExtTreeMap.ofList [(0, ⟨1, -1⟩), (1, ⟨2, 0⟩), (2, ⟨3, -1⟩), (3, ⟨4, 1⟩)] compare
  acentry := ∅
  fWrite _ := true

theorem ReorderTransactions_collides :
    fourTransactions.Apart ∧
      ∃ s', fourTransactions.ReorderTransactions = some s' ∧ ¬InOrder fourTransactions s' := by
  refine ⟨apart_of_txByTime (fun key hkey => absurd hkey ExtTreeMap.not_mem_empty) (by decide), ?_⟩
  have hsome : (fourTransactions.ReorderTransactions.map fun s =>
      (s.nOrderPos? (.inl 2), s.nOrderPos? (.inl 3))) = some (some 2, some 2) := by decide
  obtain ⟨s', h, hpos⟩ := Option.map_eq_some_iff.1 hsome
  obtain ⟨h₂, h₃⟩ := Prod.mk.inj hpos
  exact ⟨s', h, fun hinOrder => absurd (hinOrder.apart _ _ _ h₂ h₃) (by decide)⟩

end WalletOrder

end TriTip
