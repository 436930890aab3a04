import Mathlib

/-!
# Rewriting the wallet file

`CDB::Rewrite` of `db.cpp` copies the records of a file to a second one, removes the first and
renames the second. Every call of Berkeley DB may fail: a run is given what the calls return, and a
call that fails has no effect. `Rewrite_keeps_iff` says when no data is lost.
-/

namespace TriTip

/-- A key and a value. -/
abbrev DbRecord := List UInt8 × List UInt8

/-- The records of a file, in the order of its cursor. -/
structure DbFile where
  records : List DbRecord
  nodup : (records.map Prod.fst).Nodup

namespace DbFile

def empty : DbFile := ⟨[], List.nodup_nil⟩

def keys (f : DbFile) : List (List UInt8) := f.records.map Prod.fst

/-- A record with a new key. -/
def insert (f : DbFile) (r : DbRecord) (h : r.1 ∉ f.keys) : DbFile where
  records := r :: f.records
  nodup := List.nodup_cons.2 ⟨h, f.nodup⟩

end DbFile

/-- A string without a NUL in it. -/
abbrev CString := { s : List UInt8 // 0 ∉ s }

/-- The error codes of Berkeley DB: those of its own are negative, those of the system positive. -/
structure BdbCodes where
  DB_KEYEXIST : Int
  EINVAL : Int
  ENOENT : Int
  keyexist_neg : DB_KEYEXIST < 0
  einval_pos : 0 < EINVAL
  enoent_pos : 0 < ENOENT

/-- What the calls of a run return; 0 is success. -/
structure BdbOutcome where
  /-- whether `CDB db(strFile, "r")` throws -/
  throws : Bool
  retOpen : Int
  retCursor : Int
  /-- whether the read with this number fails -/
  readFails : Nat → Bool
  /-- for a key that is not there yet -/
  retPut : List UInt8 → Int
  retClose : Int
  retRemove : Int
  retRename : Int
  /-- what lies behind a key in memory -/
  behind : List UInt8 → List UInt8

/-- The file under its own name and the one with `.rewrite` behind it. -/
structure WalletFiles where
  strFile : Option DbFile
  strFileRes : Option DbFile

/-- Whether `strncmp` finds no difference; a string ends with a NUL. -/
def strncmpEq : List UInt8 → List UInt8 → Nat → Bool
  | _, _, 0 => true
  | a, b, n + 1 => a.headD 0 = b.headD 0 && (a.headD 0 = 0 || strncmpEq a.tail b.tail n)

/-- `"\x07version"`: the key of the version record. -/
def versionKey : List UInt8 := [7, 118, 101, 114, 115, 105, 111, 110]

section

variable (B : BdbCodes) (out : BdbOutcome) (CLIENT_VERSION : List UInt8)
  (pszSkip : Option CString)

/-- Whether the copy leaves a record out. -/
def skips (ssKey : List UInt8) : Bool :=
  pszSkip.any fun pszSkip =>
    strncmpEq ssKey pszSkip (min ssKey.length (pszSkip : List UInt8).length)

/-- The value that the copy gets. -/
def copiedValue (ssKey ssValue : List UInt8) : List UInt8 :=
  if strncmpEq (ssKey ++ out.behind ssKey) versionKey 8 then CLIENT_VERSION else ssValue

/-- `pdbCopy->put` with `DB_NOOVERWRITE`. -/
def putNoOverwrite (pdbCopy : DbFile) (r : DbRecord) : Int × DbFile :=
  if out.retOpen = 0 then
    if h : r.1 ∈ pdbCopy.keys then (B.DB_KEYEXIST, pdbCopy)
    else if out.retPut r.1 = 0 then (0, pdbCopy.insert r h)
    else (out.retPut r.1, pdbCopy)
  else (B.EINVAL, pdbCopy)

/-- The loop over the records from the one with number `i` on. -/
def copyLoop : (records : List DbRecord) → (i : Nat) → (pdbCopy : DbFile) → Bool × DbFile
  | [], i, pdbCopy => (!out.readFails i, pdbCopy)
  | (ssKey, ssValue) :: records, i, pdbCopy =>
    if out.readFails i then (false, pdbCopy)
    else if skips pszSkip ssKey then copyLoop records (i + 1) pdbCopy
    else
      match putNoOverwrite B out pdbCopy (ssKey, copiedValue out CLIENT_VERSION ssKey ssValue) with
      | (ret2, pdbCopy) =>
        if 0 < ret2 then (false, pdbCopy) else copyLoop records (i + 1) pdbCopy

/-- Removing the file and giving the copy its name. -/
def swapFiles (files : WalletFiles) : Bool × WalletFiles :=
  let fRemoved : Bool := out.retRemove = 0
  let files := if fRemoved then { files with strFile := none } else files
  let ret := if files.strFileRes.isSome then out.retRename else B.ENOENT
  if ret = 0 then (fRemoved, ⟨files.strFileRes, none⟩) else (false, files)

/-- `none` if the file cannot be opened, which throws. -/
def Rewrite (files : WalletFiles) : Option (Bool × WalletFiles) :=
  match out.throws, files.strFile with
  | false, some db =>
    let pdbCopy := files.strFileRes.getD .empty
    let (fSuccess, pdbCopy) :=
      if 0 < out.retOpen then (false, pdbCopy)
      else if out.retCursor = 0 then copyLoop B out CLIENT_VERSION pszSkip db.records 0 pdbCopy
      else (true, pdbCopy)
    let created := out.retOpen = 0 ∨ files.strFileRes.isSome
    let files := { files with strFileRes := if created then some pdbCopy else none }
    if fSuccess && out.retClose = 0 then some (swapFiles B out files) else some (false, files)
  | _, _ => none

end

/-! ## The prefix comparison -/

theorem strncmpEq_cons (x y : UInt8) (a b : List UInt8) (n : Nat) :
    strncmpEq (y :: a) (x :: b) (n + 1) = (y = x && (y = 0 || strncmpEq a b n)) :=
  rfl

theorem strncmpEq_iff {b : List UInt8} (h0 : 0 ∉ b) {n : Nat} (hn : n ≤ b.length)
    (a : List UInt8) : strncmpEq a b n = true ↔ b.take n <+: a := by
  induction n generalizing a b with
  | zero => simp [strncmpEq]
  | succ n ih =>
    obtain ⟨x, b, rfl⟩ := List.exists_cons_of_length_pos (Nat.zero_lt_of_lt hn)
    rw [List.mem_cons, not_or] at h0
    rw [List.take_succ_cons]
    cases a with
    | nil => simp [strncmpEq, h0.1]
    | cons y a =>
      rw [List.cons_prefix_cons, ← ih h0.2 (Nat.le_of_succ_le_succ hn) a]
      rw [strncmpEq_cons, Bool.and_eq_true, Bool.or_eq_true, decide_eq_true_iff, decide_eq_true_iff]
      constructor
      · rintro ⟨rfl, h | h⟩
        · exact absurd h.symm h0.1
        · exact ⟨rfl, h⟩
      · rintro ⟨rfl, h⟩
        exact ⟨rfl, .inr h⟩

/-- A record is also left out if its key is shorter than the string and begins it. -/
theorem skips_some_iff {s : CString} {ssKey : List UInt8} :
    skips (some s) ssKey = true ↔ s.1 <+: ssKey ∨ ssKey <+: s.1 := by
  have hs : skips (some s) ssKey = true ↔ s.1.take (min ssKey.length s.1.length) <+: ssKey :=
    strncmpEq_iff s.2 (Nat.min_le_right ..) ssKey
  rw [hs]
  rcases Nat.le_total s.1.length ssKey.length with h | h
  · rw [Nat.min_eq_right h, List.take_length]
    exact ⟨.inl, fun hp => hp.elim id fun hp => (hp.eq_of_length_le h) ▸ List.prefix_refl _⟩
  · rw [Nat.min_eq_left h]
    constructor
    · intro hp
      refine .inr (List.prefix_iff_eq_take.2 ?_)
      exact (hp.eq_of_length (by simpa using h)).symm
    · rintro (hp | hp)
      · exact (List.take_prefix ..).trans hp
      · exact List.prefix_iff_eq_take.1 hp ▸ List.prefix_refl _

/-- The key starts with `pszSkip`. -/
def StartsWith (pszSkip : Option CString) (ssKey : List UInt8) : Prop :=
  ∃ s ∈ pszSkip, s.1 <+: ssKey

theorem skips_of_startsWith {pszSkip : Option CString} {ssKey : List UInt8}
    (h : StartsWith pszSkip ssKey) : skips pszSkip ssKey = true := by
  obtain ⟨s, hs, hp⟩ := h
  rw [Option.mem_def] at hs
  subst hs
  exact skips_some_iff.2 (.inl hp)

/-! ## The copy -/

section

variable (B : BdbCodes) (out : BdbOutcome) (CLIENT_VERSION : List UInt8)
  (pszSkip : Option CString)

/-- What `put` returns for a key, with the records that the copy has at the start. -/
def putCode (leftover : DbFile) (ssKey : List UInt8) : Int :=
  if out.retOpen = 0 then if ssKey ∈ leftover.keys then B.DB_KEYEXIST else out.retPut ssKey
  else B.EINVAL

/-- No call before the first file is removed is seen to fail. -/
structure CopyEnds (db leftover : DbFile) : Prop where
  opened : out.retOpen ≤ 0
  read : out.retCursor = 0 → ∀ i ≤ db.records.length, out.readFails i = false
  put : out.retCursor = 0 → ∀ r ∈ db.records, skips pszSkip r.1 = false →
    putCode B out leftover r.1 ≤ 0
  closed : out.retClose = 0

/-- A record with this key is read and put. -/
def Copies (leftover : DbFile) (ssKey : List UInt8) : Prop :=
  out.retCursor = 0 ∧ skips pszSkip ssKey = false ∧ putCode B out leftover ssKey = 0

/-- A record to keep, with the value that it is to have. -/
def IsKept (keep : List UInt8 → Prop) (newValue : List UInt8 → List UInt8 → List UInt8)
    (db : DbFile) (r : DbRecord) : Prop :=
  ∃ ssValue, (r.1, ssValue) ∈ db.records ∧ keep r.1 ∧ r.2 = newValue r.1 ssValue

/-- What is in the copy from before is to be kept, and each record to keep is in it or copied. -/
def CopyKeeps (keep : List UInt8 → Prop) (newValue : List UInt8 → List UInt8 → List UInt8)
    (db leftover : DbFile) : Prop :=
  (∀ r ∈ leftover.records, IsKept keep newValue db r) ∧
    ∀ ssKey ssValue, (ssKey, ssValue) ∈ db.records → keep ssKey →
      (ssKey, newValue ssKey ssValue) ∈ leftover.records ∨
        Copies B out pszSkip leftover ssKey ∧
          copiedValue out CLIENT_VERSION ssKey ssValue = newValue ssKey ssValue

variable {B} {out} {CLIENT_VERSION} {pszSkip}

theorem DbFile.mem_keys {f : DbFile} {ssKey : List UInt8} :
    ssKey ∈ f.keys ↔ ∃ ssValue, (ssKey, ssValue) ∈ f.records := by
  simp [DbFile.keys]

/-- A key has one value. -/
theorem DbFile.value_unique {f : DbFile} {ssKey v w : List UInt8} (hv : (ssKey, v) ∈ f.records)
    (hw : (ssKey, w) ∈ f.records) : v = w :=
  congrArg Prod.snd (List.inj_on_of_nodup_map f.nodup hv hw rfl)

@[simp] theorem DbFile.mem_insert {f : DbFile} {r r' : DbRecord} {h : r.1 ∉ f.keys} :
    r' ∈ (f.insert r h).records ↔ r' = r ∨ r' ∈ f.records :=
  List.mem_cons

theorem putNoOverwrite_fst (pdbCopy : DbFile) (r : DbRecord) :
    (putNoOverwrite B out pdbCopy r).1 = putCode B out pdbCopy r.1 := by
  unfold putNoOverwrite putCode
  split_ifs with h₁ h₂ h₃
  · rfl
  · exact h₃.symm
  · rfl
  · rfl

/-- `put` adds the record if it returns 0 and nothing otherwise. -/
theorem mem_putNoOverwrite {pdbCopy : DbFile} {r r' : DbRecord} :
    r' ∈ (putNoOverwrite B out pdbCopy r).2.records ↔
      r' ∈ pdbCopy.records ∨ putCode B out pdbCopy r.1 = 0 ∧ r' = r := by
  unfold putNoOverwrite putCode
  have hexist : B.DB_KEYEXIST ≠ 0 := B.keyexist_neg.ne
  have hinval : B.EINVAL ≠ 0 := B.einval_pos.ne'
  split_ifs with h₁ h₂ h₃
  · simp [hexist]
  · simp [h₃, or_comm]
  · simp [h₃]
  · simp [hinval]

/-- A record whose key is in the copy is not put. -/
theorem putCode_ne_zero {pdbCopy : DbFile} {ssKey : List UInt8} (h : ssKey ∈ pdbCopy.keys) :
    putCode B out pdbCopy ssKey ≠ 0 := by
  unfold putCode
  rw [if_pos h]
  split
  · exact B.keyexist_neg.ne
  · exact B.einval_pos.ne'

/-- Another key gets the same code as before. -/
theorem putCode_putNoOverwrite {pdbCopy : DbFile} {r : DbRecord} {ssKey : List UInt8}
    (h : ssKey ≠ r.1) :
    putCode B out (putNoOverwrite B out pdbCopy r).2 ssKey = putCode B out pdbCopy ssKey := by
  have hkeys : ssKey ∈ (putNoOverwrite B out pdbCopy r).2.keys ↔ ssKey ∈ pdbCopy.keys := by
    simp only [DbFile.mem_keys, mem_putNoOverwrite]
    constructor
    · rintro ⟨v, hv | ⟨-, hv⟩⟩
      · exact ⟨v, hv⟩
      · exact absurd (congrArg Prod.fst hv) h
    · rintro ⟨v, hv⟩
      exact ⟨v, .inl hv⟩
  simp only [putCode, hkeys]

theorem copyLoop_cons (ssKey ssValue : List UInt8) (records : List DbRecord) (i : Nat)
    (pdbCopy : DbFile) :
    copyLoop B out CLIENT_VERSION pszSkip ((ssKey, ssValue) :: records) i pdbCopy =
      if out.readFails i then (false, pdbCopy)
      else if skips pszSkip ssKey then copyLoop B out CLIENT_VERSION pszSkip records (i + 1) pdbCopy
      else
        let p := putNoOverwrite B out pdbCopy (ssKey, copiedValue out CLIENT_VERSION ssKey ssValue)
        if 0 < p.1 then (false, p.2)
        else copyLoop B out CLIENT_VERSION pszSkip records (i + 1) p.2 :=
  rfl

/-- The loop goes through when no read fails and no `put` returns more than 0. -/
theorem copyLoop_fst_iff {records : List DbRecord} (hnd : (records.map Prod.fst).Nodup) (i : Nat)
    (pdbCopy : DbFile) :
    (copyLoop B out CLIENT_VERSION pszSkip records i pdbCopy).1 = true ↔
      (∀ j ≤ records.length, out.readFails (i + j) = false) ∧
        ∀ r ∈ records, skips pszSkip r.1 = false → putCode B out pdbCopy r.1 ≤ 0 := by
  induction records generalizing i pdbCopy with
  | nil => simp [copyLoop]
  | cons r records ih =>
    obtain ⟨ssKey, ssValue⟩ := r
    rw [List.map_cons, List.nodup_cons] at hnd
    have hreads : (∀ j ≤ ((ssKey, ssValue) :: records).length, out.readFails (i + j) = false) ↔
        out.readFails i = false ∧ ∀ j ≤ records.length, out.readFails (i + 1 + j) = false := by
      rw [List.length_cons]
      constructor
      · intro h
        refine ⟨h 0 (Nat.zero_le _), fun j hj => ?_⟩
        rw [Nat.add_assoc, Nat.add_comm 1]
        exact h (j + 1) (Nat.succ_le_succ hj)
      · rintro ⟨h0, h⟩ j hj
        cases j with
        | zero => exact h0
        | succ j =>
          rw [Nat.add_comm j, ← Nat.add_assoc]
          exact h j (Nat.le_of_succ_le_succ hj)
    rw [hreads, List.forall_mem_cons, copyLoop_cons]
    by_cases hread : out.readFails i
    · simp [hread]
    by_cases hskip : skips pszSkip ssKey
    · simp [hread, hskip, ih hnd.2]
    have hcode : ∀ r ∈ records, putCode B out (putNoOverwrite B out pdbCopy
        (ssKey, copiedValue out CLIENT_VERSION ssKey ssValue)).2 r.1 = putCode B out pdbCopy r.1 :=
      fun r hr => putCode_putNoOverwrite fun h => hnd.1 (h ▸ List.mem_map_of_mem hr)
    rw [if_neg hread, if_neg hskip]
    simp only [putNoOverwrite_fst]
    by_cases hput : 0 < putCode B out pdbCopy ssKey
    · simp [hput, hskip]
    · rw [if_neg hput, ih hnd.2]
      have hcodes : (∀ r ∈ records, skips pszSkip r.1 = false → putCode B out (putNoOverwrite B out
          pdbCopy (ssKey, copiedValue out CLIENT_VERSION ssKey ssValue)).2 r.1 ≤ 0) ↔
          ∀ r ∈ records, skips pszSkip r.1 = false → putCode B out pdbCopy r.1 ≤ 0 :=
        forall₂_congr fun r hr => by rw [hcode r hr]
      rw [hcodes]
      simp [hread, Int.not_lt.1 hput]

/-- What the copy then holds. -/
theorem mem_copyLoop {records : List DbRecord} (hnd : (records.map Prod.fst).Nodup) {i : Nat}
    {pdbCopy : DbFile} (h : (copyLoop B out CLIENT_VERSION pszSkip records i pdbCopy).1 = true)
    {r : DbRecord} :
    r ∈ (copyLoop B out CLIENT_VERSION pszSkip records i pdbCopy).2.records ↔
      r ∈ pdbCopy.records ∨ ∃ ssValue, (r.1, ssValue) ∈ records ∧ skips pszSkip r.1 = false ∧
        putCode B out pdbCopy r.1 = 0 ∧ r.2 = copiedValue out CLIENT_VERSION r.1 ssValue := by
  induction records generalizing i pdbCopy with
  | nil => simp [copyLoop]
  | cons r₀ records ih =>
    obtain ⟨ssKey, ssValue⟩ := r₀
    rw [List.map_cons, List.nodup_cons] at hnd
    have hne : ∀ {v}, (r.1, v) ∈ records → r.1 ≠ ssKey := by
      rintro v hv rfl
      exact hnd.1 (List.mem_map.2 ⟨_, hv, rfl⟩)
    rw [copyLoop_cons] at h ⊢
    by_cases hread : out.readFails i
    · simp [hread] at h
    rw [if_neg hread] at h ⊢
    by_cases hskip : skips pszSkip ssKey
    · rw [if_pos hskip] at h ⊢
      rw [ih hnd.2 h]
      refine or_congr_right (exists_congr fun v => ?_)
      rw [List.mem_cons]
      constructor
      · rintro ⟨hv, hr⟩
        exact ⟨.inr hv, hr⟩
      · rintro ⟨hv | hv, hr⟩
        · rw [congrArg Prod.fst hv, hskip] at hr
          cases hr.1
        · exact ⟨hv, hr⟩
    · rw [if_neg hskip] at h ⊢
      simp only [] at h ⊢
      by_cases hput : 0 < (putNoOverwrite B out pdbCopy
          (ssKey, copiedValue out CLIENT_VERSION ssKey ssValue)).1
      · simp [hput] at h
      rw [if_neg hput] at h ⊢
      rw [ih hnd.2 h, mem_putNoOverwrite, or_assoc]
      refine or_congr_right ?_
      constructor
      · rintro (⟨hcode, rfl⟩ | ⟨v, hv, hr, hcode, hval⟩)
        · exact ⟨ssValue, List.mem_cons_self, by simpa using hskip, hcode, rfl⟩
        · rw [putCode_putNoOverwrite (hne hv)] at hcode
          exact ⟨v, List.mem_cons_of_mem _ hv, hr, hcode, hval⟩
      · rintro ⟨v, hv, hr, hcode, hval⟩
        rcases List.mem_cons.1 hv with hv | hv
        · obtain ⟨k, w⟩ := r
          obtain ⟨rfl, rfl⟩ : k = ssKey ∧ v = ssValue := Prod.mk.inj hv
          exact .inl ⟨hcode, Prod.ext rfl hval⟩
        · refine .inr ⟨v, hv, hr, ?_, hval⟩
          rw [putCode_putNoOverwrite (hne hv)]
          exact hcode

/-- The copy as the run leaves it. -/
def copyEnd (B : BdbCodes) (out : BdbOutcome) (CLIENT_VERSION : List UInt8)
    (pszSkip : Option CString) (db leftover : DbFile) : Bool × DbFile :=
  if 0 < out.retOpen then (false, leftover)
  else if out.retCursor = 0 then copyLoop B out CLIENT_VERSION pszSkip db.records 0 leftover
  else (true, leftover)

theorem copyEnd_iff (CLIENT_VERSION : List UInt8) {db leftover : DbFile} :
    (copyEnd B out CLIENT_VERSION pszSkip db leftover).1 && out.retClose = 0 ↔
      CopyEnds B out pszSkip db leftover := by
  rw [Bool.and_eq_true, decide_eq_true_iff]
  unfold copyEnd
  by_cases hopen : 0 < out.retOpen
  · simp only [if_pos hopen, Bool.false_eq_true, false_and, false_iff]
    exact fun h => absurd h.opened (not_le.2 hopen)
  rw [if_neg hopen]
  by_cases hcursor : out.retCursor = 0
  · rw [if_pos hcursor, copyLoop_fst_iff db.nodup]
    simp only [Nat.zero_add]
    constructor
    · rintro ⟨⟨hread, hput⟩, hclose⟩
      exact ⟨not_lt.1 hopen, fun _ => hread, fun _ => hput, hclose⟩
    · rintro ⟨-, hread, hput, hclose⟩
      exact ⟨⟨hread hcursor, hput hcursor⟩, hclose⟩
  · rw [if_neg hcursor]
    constructor
    · rintro ⟨-, hclose⟩
      exact ⟨not_lt.1 hopen, fun h => absurd h hcursor, fun h => absurd h hcursor, hclose⟩
    · rintro ⟨-, -, -, hclose⟩
      exact ⟨rfl, hclose⟩

theorem mem_copyEnd {db leftover : DbFile} (h : CopyEnds B out pszSkip db leftover)
    {r : DbRecord} :
    r ∈ (copyEnd B out CLIENT_VERSION pszSkip db leftover).2.records ↔
      r ∈ leftover.records ∨ ∃ ssValue, (r.1, ssValue) ∈ db.records ∧
        Copies B out pszSkip leftover r.1 ∧ r.2 = copiedValue out CLIENT_VERSION r.1 ssValue := by
  have hgo := (copyEnd_iff CLIENT_VERSION).2 h
  rw [Bool.and_eq_true] at hgo
  unfold copyEnd at hgo ⊢
  rw [if_neg (not_lt.2 h.opened)] at hgo ⊢
  unfold Copies
  by_cases hcursor : out.retCursor = 0
  · rw [if_pos hcursor] at hgo ⊢
    rw [mem_copyLoop db.nodup hgo.1]
    simp only [hcursor, true_and, and_assoc]
  · rw [if_neg hcursor]
    simp [hcursor]

/-- What is to be kept is in the copy, and nothing else. -/
theorem copyKeeps_iff (CLIENT_VERSION : List UInt8) {keep : List UInt8 → Prop}
    {newValue : List UInt8 → List UInt8 → List UInt8} {db leftover : DbFile}
    (hkeep : ∀ ssKey, skips pszSkip ssKey = false → keep ssKey)
    (h : CopyEnds B out pszSkip db leftover) :
    (∀ r, r ∈ (copyEnd B out CLIENT_VERSION pszSkip db leftover).2.records ↔
        IsKept keep newValue db r) ↔
      CopyKeeps B out CLIENT_VERSION pszSkip keep newValue db leftover := by
  simp only [mem_copyEnd h]
  have hvalue : ∀ {k v w}, (k, v) ∈ db.records → (k, w) ∈ db.records → v = w :=
    fun hv hw => db.value_unique hv hw
  constructor
  · intro hmem
    refine ⟨fun r hr => (hmem r).1 (.inl hr), fun k v hv hk => ?_⟩
    refine ((hmem (k, newValue k v)).2 ⟨v, hv, hk, rfl⟩).imp_right ?_
    rintro ⟨w, hw, hcopies, hval⟩
    rw [hvalue hv hw]
    exact ⟨hcopies, (hvalue hv hw ▸ hval).symm⟩
  · rintro ⟨hleft, hrecords⟩ ⟨k, x⟩
    constructor
    · rintro (hr | ⟨v, hv, hcopies, hx⟩)
      · exact hleft _ hr
      -- a record that is put is not in the copy from before
      have hk := hkeep k hcopies.2.1
      rcases hrecords k v hv hk with hmem | ⟨-, hval⟩
      · exact absurd hcopies.2.2 (putCode_ne_zero (DbFile.mem_keys.2 ⟨_, hmem⟩))
      · exact ⟨v, hv, hk, hx.trans hval⟩
    · rintro ⟨v, hv, hk, hx⟩
      have hr := hrecords k v hv hk
      rw [← show x = newValue k v from hx] at hr
      refine hr.imp_right ?_
      rintro ⟨hcopies, hval⟩
      exact ⟨v, hv, hcopies, hval.symm⟩

end

/-! ## No data is lost -/

section

variable (B : BdbCodes) (out : BdbOutcome) (CLIENT_VERSION : List UInt8)
  (pszSkip : Option CString)

/-- The value that a kept record is to have. -/
def rewrittenValue (ssKey ssValue : List UInt8) : List UInt8 :=
  if ssKey = versionKey then CLIENT_VERSION else ssValue

/-- What a run is to leave under the name of the file. -/
def KeepsData (db : DbFile) (result : Bool × WalletFiles) : Prop :=
  ∃ f, result.2.strFile = some f ∧
    if result.1 then
      ∀ r, r ∈ f.records ↔
        IsKept (fun ssKey => ¬ StartsWith pszSkip ssKey) (rewrittenValue CLIENT_VERSION) db r
    else ∀ r, r ∈ f.records ↔ r ∈ db.records

/-- The copy is there and gets the name of the file. -/
def Renames (leftover : Option DbFile) : Prop :=
  out.retRename = 0 ∧ (out.retOpen = 0 ∨ leftover.isSome)

instance {leftover : Option DbFile} : Decidable (Renames out leftover) :=
  inferInstanceAs (Decidable (_ ∧ _))

variable {B} {out} {CLIENT_VERSION} {pszSkip}

theorem Rewrite_some (db : DbFile) (leftover : Option DbFile) :
    Rewrite B out CLIENT_VERSION pszSkip ⟨some db, leftover⟩ =
      if out.throws then none
      else
        let copy := copyEnd B out CLIENT_VERSION pszSkip db (leftover.getD .empty)
        let files : WalletFiles :=
          ⟨some db, if out.retOpen = 0 ∨ leftover.isSome then some copy.2 else none⟩
        if copy.1 && out.retClose = 0 then some (swapFiles B out files)
        else some (false, files) := by
  cases h : out.throws <;> simp [Rewrite, copyEnd, h]

theorem isKept_all {db : DbFile} {r : DbRecord} :
    IsKept (fun _ => True) (fun _ ssValue => ssValue) db r ↔ r ∈ db.records := by
  constructor
  · rintro ⟨v, hv, -, hval⟩
    rwa [show v = r.2 from hval.symm] at hv
  · intro h
    exact ⟨r.2, h, trivial, rfl⟩

/-- What is under the name of the file after the swap. -/
theorem swapFiles_eq (B : BdbCodes) (out : BdbOutcome) (db : DbFile) (leftover : Option DbFile)
    (pdbCopy : DbFile) :
    let result := swapFiles B out
      ⟨some db, if out.retOpen = 0 ∨ leftover.isSome then some pdbCopy else none⟩
    result.1 = decide (out.retRemove = 0 ∧ Renames out leftover) ∧
      result.2.strFile = if Renames out leftover then some pdbCopy
        else if out.retRemove = 0 then none else some db := by
  have henoent : B.ENOENT ≠ 0 := B.enoent_pos.ne'
  unfold swapFiles Renames
  by_cases hthere : out.retOpen = 0 ∨ leftover.isSome = true <;>
    by_cases hremove : out.retRemove = 0 <;>
      by_cases hrename : out.retRename = 0 <;>
        simp [hthere, hremove, hrename, henoent]

/-- No data is lost just if the run does not get to the removal, or what is then renamed holds
what is to be kept. -/
theorem Rewrite_keeps_iff (B : BdbCodes) (out : BdbOutcome) (CLIENT_VERSION : List UInt8)
    (pszSkip : Option CString) (db : DbFile) (leftover : Option DbFile) :
    (∀ result, Rewrite B out CLIENT_VERSION pszSkip ⟨some db, leftover⟩ = some result →
        KeepsData CLIENT_VERSION pszSkip db result) ↔
      (out.throws = false → CopyEnds B out pszSkip db (leftover.getD .empty) →
        if out.retRemove = 0 then
          Renames out leftover ∧
            CopyKeeps B out CLIENT_VERSION pszSkip (fun ssKey => ¬ StartsWith pszSkip ssKey)
              (rewrittenValue CLIENT_VERSION) db (leftover.getD .empty)
        else
          Renames out leftover →
            CopyKeeps B out CLIENT_VERSION pszSkip (fun _ => True) (fun _ ssValue => ssValue) db
              (leftover.getD .empty)) := by
  have hskip : ∀ ssKey, skips pszSkip ssKey = false → ¬ StartsWith pszSkip ssKey := by
    intro ssKey hfalse hstarts
    exact Bool.false_ne_true (hfalse.symm.trans (skips_of_startsWith hstarts))
  rw [Rewrite_some]
  cases hthrows : out.throws with
  | true => simp
  | false =>
    by_cases hends : CopyEnds B out pszSkip db (leftover.getD .empty)
    case neg =>
      have hstop := mt (copyEnd_iff CLIENT_VERSION).1 hends
      simp only [hends, hstop, Bool.false_eq_true, if_false, Option.some.injEq, false_imp_iff,
        implies_true, iff_true]
      rintro result rfl
      exact ⟨db, rfl, fun _ => Iff.rfl⟩
    have hgo := (copyEnd_iff CLIENT_VERSION).2 hends
    obtain ⟨hres, hfile⟩ := swapFiles_eq B out db leftover
      (copyEnd B out CLIENT_VERSION pszSkip db (leftover.getD .empty)).2
    simp only [hends, hgo, Bool.false_eq_true, if_false, if_true, Option.some.injEq, forall_eq',
      true_imp_iff, KeepsData, hres, hfile, decide_eq_true_eq]
    by_cases hremove : out.retRemove = 0 <;> by_cases hren : Renames out leftover
    · simp [hremove, hren, ← copyKeeps_iff CLIENT_VERSION hskip hends]
    · simp [hremove, hren]
    · simp [hremove, hren, ← copyKeeps_iff CLIENT_VERSION (fun _ _ => trivial) hends, isKept_all]
    · simp [hremove, hren]

end

/-- A cursor that cannot be opened is taken for the end of the records: the run returns true and the
file is empty. -/
theorem Rewrite_noCursor :
    ∃ (B : BdbCodes) (out : BdbOutcome) (CLIENT_VERSION : List UInt8) (pszSkip : Option CString)
      (db : DbFile) (leftover : Option DbFile) (result : Bool × WalletFiles),
      Rewrite B out CLIENT_VERSION pszSkip ⟨some db, leftover⟩ = some result ∧
        ¬ KeepsData CLIENT_VERSION pszSkip db result := by
  let B : BdbCodes := ⟨-30994, 22, 2, by decide, by decide, by decide⟩
  let out : BdbOutcome :=
    ⟨false, 0, 12, fun _ => false, fun _ => 0, 0, 0, 0, fun _ => []⟩
  let db : DbFile := DbFile.empty.insert ([1], [2]) (by decide)
  refine ⟨B, out, [], none, db, none, (true, ⟨some .empty, none⟩), rfl, ?_⟩
  rintro ⟨f, hf, hkept⟩
  obtain rfl : DbFile.empty = f := Option.some.inj hf
  have hlost : (([1], [2]) : DbRecord) ∉ DbFile.empty.records := List.not_mem_nil
  refine hlost ((hkept ([1], [2])).2 ⟨[2], List.mem_cons_self, ?_, ?_⟩)
  · rintro ⟨s, hs, -⟩
    cases hs
  · decide

end TriTip
