import TriTip.Lib.RefCount
import TriTip.Lib.Run

/-!
# Use counts of the databases

The handles (`CDB`) on a file of Berkeley DB share one `Db`. `mapFileUseCount` of `bitdb` counts the
handles of each file, and a `Db` is closed when the count of its file is 0: by `CDBEnv::Flush`,
`CDB::Rewrite`, `BackupWallet` and the thread that flushes the wallet, which asks for a sum of 0.
What is done under `cs_db` is one event; `CDB::Close` is two, since it clears `pdb` before it locks.
`useCount_spec`: the `Db` of a handle stays open, as long as the counts, which are `int`, can tell.
-/

namespace TriTip

open Std RefCount

/-- A handle. The `Db`s are numbered in the order of their creation; `none` is NULL. -/
structure CDB where
  pdb : Option Nat
  strFile : String
  deriving DecidableEq

/-- A `Db` that `CloseDb` closed and deleted, and the handles that pointed to it. -/
structure ClosedDb where
  pdb : Nat
  handles : List CDB
  deriving DecidableEq

structure CDBEnv where
  fDbEnvInit : Bool
  fMockDb : Bool
  mapFileUseCount : ExtTreeMap String Int32
  mapDb : String → Option Nat

structure DbState extends CDBEnv where
  /-- the number of the next `Db` -/
  nextDb : Nat
  handles : List CDB
  /-- the files of the handles that are inside `Close`, before the lock -/
  closing : List String
  /-- the files of the constructors that threw after they had raised the count -/
  leaked : List String
  closed : List ClosedDb

/-- What the calls of a constructor return; 0 is success. -/
structure DbOpening where
  envOpens : Bool
  retSetFlags : Int32
  retOpen : Int32
  /-- whether the look for the version record, or writing it, throws -/
  versionThrows : Bool

namespace DbState

def start (fDbEnvInit fMockDb : Bool) : DbState where
  fDbEnvInit
  fMockDb
  mapFileUseCount := ∅
  mapDb := fun _ => none
  nextDb := 0
  handles := []
  closing := []
  leaked := []
  closed := []

def setUseCount (s : DbState) (strFile : String) (n : Int32) : DbState :=
  { s with mapFileUseCount := s.mapFileUseCount.insert strFile n }

def useCount (s : DbState) (strFile : String) : Int32 := s.mapFileUseCount.getD strFile 0

/-- `bitdb.Open`, when it returns true. -/
def openEnv (s : DbState) : DbState :=
  { s with fDbEnvInit := true, fMockDb := s.fDbEnvInit && s.fMockDb }

def addHandle (s : DbState) (db : CDB) : DbState := { s with handles := s.handles ++ [db] }

def leak (s : DbState) (strFile : String) : DbState := { s with leaked := strFile :: s.leaked }

/-- The part of `CDB::CDB` for a file without a `Db`. -/
def createDb (s : DbState) (strFile : String) (opening : DbOpening) : Bool × DbState :=
  let pdb := s.nextDb
  let s := { s with nextDb := pdb + 1 }
  if s.fMockDb && opening.retSetFlags ≠ 0 then (false, s.leak strFile)
  else if opening.retOpen ≠ 0 then (false, s.setUseCount strFile (s.useCount strFile - 1))
  else if opening.versionThrows then (false, s.leak strFile)
  else
    let s := { s with mapDb := Function.update s.mapDb strFile (some pdb) }
    (true, s.addHandle ⟨some pdb, strFile⟩)

/-- `CDB::CDB`, and whether it returns. The new handle is the last one. -/
def construct (s : DbState) (pszFile : Option String) (opening : DbOpening) : Bool × DbState :=
  match pszFile with
  | none => (true, s.addHandle ⟨none, ""⟩)
  | some strFile =>
    if s.fDbEnvInit || opening.envOpens then
      let s := s.openEnv
      let s := s.setUseCount strFile (s.useCount strFile + 1)
      match s.mapDb strFile with
      | some pdb => (true, s.addHandle ⟨some pdb, strFile⟩)
      | none => s.createDb strFile opening
    else (false, s)

/-- `CDB::Close` of the handle with index `i`, up to the lock. -/
def closeHandle (s : DbState) (i : Nat) : DbState :=
  match s.handles[i]? with
  | some ⟨some _, strFile⟩ =>
    { s with handles := s.handles.set i ⟨none, strFile⟩, closing := strFile :: s.closing }
  | _ => s

/-- The part of `CDB::Close` under the lock. -/
def closeCount (s : DbState) (strFile : String) : DbState :=
  if strFile ∈ s.closing then
    { s.setUseCount strFile (s.useCount strFile - 1) with closing := s.closing.erase strFile }
  else s

def CloseDb (s : DbState) (strFile : String) : DbState :=
  match s.mapDb strFile with
  | none => s
  | some pdb =>
    { s with
      mapDb := Function.update s.mapDb strFile none
      closed := s.closed ++ [⟨pdb, s.handles.filter fun db => db.pdb = some pdb⟩] }

/-- Closing the `Db` of a file and taking the file out of the counts. -/
def detach (s : DbState) (strFile : String) : DbState :=
  let s := s.CloseDb strFile
  { s with mapFileUseCount := s.mapFileUseCount.erase strFile }

/-- One round of the loop of `CDB::Rewrite`; `fSuccess` is what comes of copying the records. -/
def Rewrite (s : DbState) (strFile : String) (opening : DbOpening) (fSuccess : Bool) : DbState :=
  if s.useCount strFile = 0 then
    match (s.detach strFile).construct (some strFile) opening with
    | (false, s) => s
    | (true, s) =>
      -- the handle is closed by `Close` or by its destructor
      let s := (s.closeHandle (s.handles.length - 1)).closeCount strFile
      if fSuccess then s.CloseDb strFile else s
  else s

/-- One round of the loop of `BackupWallet`. -/
def BackupWallet (s : DbState) (strWalletFile : String) : DbState :=
  if s.useCount strWalletFile = 0 then s.detach strWalletFile else s

/-- `CDBEnv::Flush`; `fInit` is what it read of `fDbEnvInit` before it locked. -/
def Flush (s : DbState) (fShutdown fInit : Bool) : DbState :=
  if fInit then
    let s := s.mapFileUseCount.toList.foldl (fun s mi => if mi.2 = 0 then s.detach mi.1 else s) s
    if fShutdown && s.mapFileUseCount.isEmpty then { s with fDbEnvInit := false } else s
  else s

/-- A round of `ThreadFlushWalletDB` that gets the lock. -/
def flushWallet (s : DbState) (strFile : String) : DbState :=
  let nRefCount := s.mapFileUseCount.toList.foldl (fun nRefCount mi => nRefCount + mi.2) 0
  if nRefCount = 0 ∧ strFile ∈ s.mapFileUseCount then s.detach strFile else s

end DbState

inductive DbEvent where
  | construct (pszFile : Option String) (opening : DbOpening)
  | closeHandle (i : Nat)
  | closeCount (strFile : String)
  | Flush (fShutdown fInit : Bool)
  | flushWallet (strFile : String)
  | BackupWallet (strWalletFile : String)
  | Rewrite (strFile : String) (opening : DbOpening) (fSuccess : Bool)

namespace DbState

def step (s : DbState) : DbEvent → DbState
  | .construct pszFile opening => (s.construct pszFile opening).2
  | .closeHandle i => s.closeHandle i
  | .closeCount strFile => s.closeCount strFile
  | .Flush fShutdown fInit => s.Flush fShutdown fInit
  | .flushWallet strFile => s.flushWallet strFile
  | .BackupWallet strWalletFile => s.BackupWallet strWalletFile
  | .Rewrite strFile opening fSuccess => s.Rewrite strFile opening fSuccess

/-! ## What is counted -/

/-- The live handles with a `Db`. -/
def live (s : DbState) : List CDB := s.handles.filter fun db => db.pdb.isSome

def liveOn (s : DbState) (strFile : String) : List CDB :=
  s.live.filter fun db => db.strFile = strFile

/-- The files of all uses that are counted. -/
def uses (s : DbState) : List String := s.live.map CDB.strFile ++ s.closing ++ s.leaked

/-- The handles of a file share its `Db`, and the counts are those of the given uses. -/
structure Shared (s : DbState) (counted : List String) : Prop where
  tallied : Tallied s.mapFileUseCount counted
  points : ∀ db ∈ s.handles, ∀ pdb, db.pdb = some pdb → s.mapDb db.strFile = some pdb
  injective : ∀ f g pdb, s.mapDb f = some pdb → s.mapDb g = some pdb → f = g
  fresh : ∀ f pdb, s.mapDb f = some pdb → pdb < s.nextDb
  closed : ∀ c ∈ s.closed, c.handles = []

theorem start_shared (fDbEnvInit fMockDb : Bool) : Shared (start fDbEnvInit fMockDb) [] where
  tallied := tallied_empty
  points := fun _ hdb => absurd hdb List.not_mem_nil
  injective := fun f g pdb h => by cases h
  fresh := fun f pdb h => by cases h
  closed := fun _ hc => absurd hc List.not_mem_nil

variable {s : DbState} {strFile : String}

theorem mem_uses_of_points {db : CDB} {pdb : Nat} (hdb : db ∈ s.handles) (h : db.pdb = some pdb) :
    db.strFile ∈ s.uses := by
  refine List.mem_append_left _ (List.mem_append_left _ (List.mem_map_of_mem ?_))
  exact List.mem_filter.2 ⟨hdb, by rw [h]; rfl⟩

/-! ## Closing a `Db` -/

theorem uses_CloseDb (s : DbState) (strFile : String) : (s.CloseDb strFile).uses = s.uses := by
  unfold CloseDb
  split <;> rfl

/-- The `Db` of a file that is not used has no handle. -/
theorem Shared.CloseDb (h : Shared s s.uses) (hnot : strFile ∉ s.uses) :
    Shared (s.CloseDb strFile) s.uses := by
  unfold DbState.CloseDb
  cases hpdb : s.mapDb strFile with
  | none => exact h
  | some pdb =>
    have hother : ∀ {f d}, Function.update s.mapDb strFile none f = some d →
        s.mapDb f = some d := by
      intro f d hd
      rw [Function.update_apply] at hd
      split at hd
      · cases hd
      · exact hd
    refine ⟨h.tallied, fun db hdb d hd => ?_, fun f g d hf hg => ?_, fun f d hf => ?_,
      fun c hc => ?_⟩
    · have hne : db.strFile ≠ strFile := fun heq => hnot (heq ▸ mem_uses_of_points hdb hd)
      exact (Function.update_of_ne hne ..).trans (h.points db hdb d hd)
    · exact h.injective f g d (hother hf) (hother hg)
    · exact h.fresh f d (hother hf)
    · rcases List.mem_append.1 hc with hc | hc
      · exact h.closed c hc
      · -- a handle with this `Db` would use the file
        rw [List.mem_singleton.1 hc]
        refine List.filter_eq_nil_iff.2 fun db hdb hd => hnot ?_
        have hd := of_decide_eq_true hd
        rw [← h.injective _ _ pdb (h.points db hdb pdb hd) hpdb]
        exact mem_uses_of_points hdb hd

theorem uses_detach (s : DbState) (strFile : String) : (s.detach strFile).uses = s.uses :=
  uses_CloseDb s strFile

theorem Shared.detach (h : Shared s s.uses) (hnot : strFile ∉ s.uses) :
    Shared (s.detach strFile) s.uses := by
  have hclose := h.CloseDb hnot
  have hzero : (s.CloseDb strFile).useCount strFile = 0 := by
    unfold useCount
    rw [hclose.tallied strFile, List.count_eq_zero_of_not_mem hnot]
    rfl
  exact ⟨hclose.tallied.erase_zero hzero, hclose.points, hclose.injective, hclose.fresh,
    hclose.closed⟩

/-! ## Constructing and closing a handle -/

/-- Only a handle with a `Db` is counted. -/
theorem uses_addHandle (s : DbState) (db : CDB) :
    (s.addHandle db).uses.Perm (if db.pdb.isSome then db.strFile :: s.uses else s.uses) := by
  unfold addHandle uses live
  dsimp only
  rw [List.filter_append, List.filter_singleton]
  cases db.pdb.isSome with
  | false => simp
  | true =>
    rw [List.map_append, if_pos rfl, List.append_assoc, List.append_assoc, List.append_assoc]
    exact List.perm_middle

theorem Shared.raise (h : Shared s s.uses) (strFile : String) :
    Shared (s.openEnv.setUseCount strFile (s.openEnv.useCount strFile + 1)) (strFile :: s.uses) :=
  ⟨h.tallied.raise strFile, h.points, h.injective, h.fresh, h.closed⟩

theorem Shared.lower (h : Shared s (strFile :: s.uses)) :
    Shared (s.setUseCount strFile (s.useCount strFile - 1)) s.uses :=
  ⟨h.tallied.lower, h.points, h.injective, h.fresh, h.closed⟩

/-- A constructor that throws can leave its use behind. -/
theorem Shared.leak (h : Shared s (strFile :: s.uses)) :
    Shared (s.leak strFile) (s.leak strFile).uses :=
  ⟨h.tallied.perm List.perm_middle.symm, h.points, h.injective, h.fresh, h.closed⟩

/-- A handle with the `Db` of its file. -/
theorem Shared.addHandle (h : Shared s (strFile :: s.uses)) {pdb : Nat}
    (hpdb : s.mapDb strFile = some pdb) :
    Shared (s.addHandle ⟨some pdb, strFile⟩) (s.addHandle ⟨some pdb, strFile⟩).uses := by
  refine ⟨h.tallied.perm (uses_addHandle s ⟨some pdb, strFile⟩).symm, fun db hdb d hd => ?_,
    h.injective, h.fresh, h.closed⟩
  rcases List.mem_append.1 hdb with hdb | hdb
  · exact h.points db hdb d hd
  · rw [List.mem_singleton.1 hdb] at hd ⊢
    obtain rfl := Option.some.inj hd
    exact hpdb

theorem Shared.nextDb (h : Shared s (strFile :: s.uses)) :
    Shared { s with nextDb := s.nextDb + 1 } (strFile :: s.uses) :=
  ⟨h.tallied, h.points, h.injective, fun f d hf => Nat.lt_succ_of_lt (h.fresh f d hf), h.closed⟩

/-- The first handle of a file creates its `Db`. -/
theorem Shared.newDb (h : Shared s (strFile :: s.uses)) (hnone : s.mapDb strFile = none) :
    Shared { s with nextDb := s.nextDb + 1,
                    mapDb := Function.update s.mapDb strFile (some s.nextDb) }
      (strFile :: s.uses) := by
  have hcases : ∀ {f d}, Function.update s.mapDb strFile (some s.nextDb) f = some d →
      f = strFile ∧ d = s.nextDb ∨ s.mapDb f = some d ∧ d < s.nextDb := by
    intro f d hd
    rw [Function.update_apply] at hd
    split at hd
    · next heq => exact .inl ⟨heq, (Option.some.inj hd).symm⟩
    · exact .inr ⟨hd, h.fresh f d hd⟩
  refine ⟨h.tallied, fun db hdb d hd => ?_, fun f g d hf hg => ?_, fun f d hf => ?_, h.closed⟩
  · have hpoints := h.points db hdb d hd
    have hne : db.strFile ≠ strFile := by
      intro heq
      rw [heq, hnone] at hpoints
      cases hpoints
    exact (Function.update_of_ne hne ..).trans hpoints
  · rcases hcases hf with ⟨rfl, rfl⟩ | ⟨hf, hlt⟩ <;> rcases hcases hg with ⟨rfl, hd⟩ | ⟨hg, hlt'⟩
    · rfl
    · exact absurd hlt' (Nat.lt_irrefl _)
    · exact absurd hlt (hd ▸ Nat.lt_irrefl _)
    · exact h.injective f g d hf hg
  · rcases hcases hf with ⟨-, rfl⟩ | ⟨-, hlt⟩
    · exact Nat.lt_succ_self _
    · exact Nat.lt_succ_of_lt hlt

theorem Shared.createDb (h : Shared s (strFile :: s.uses)) (hnone : s.mapDb strFile = none)
    (opening : DbOpening) :
    Shared (s.createDb strFile opening).2 (s.createDb strFile opening).2.uses := by
  unfold DbState.createDb
  dsimp only
  split_ifs
  · exact h.nextDb.leak
  · exact h.nextDb.lower
  · exact h.nextDb.leak
  · exact (h.newDb hnone).addHandle (Function.update_self ..)

theorem Shared.construct (h : Shared s s.uses) (pszFile : Option String) (opening : DbOpening) :
    Shared (s.construct pszFile opening).2 (s.construct pszFile opening).2.uses := by
  cases pszFile with
  | none =>
    refine ⟨h.tallied.perm (uses_addHandle s ⟨none, ""⟩).symm, fun db hdb d hd => ?_, h.injective,
      h.fresh, h.closed⟩
    rcases List.mem_append.1 hdb with hdb | hdb
    · exact h.points db hdb d hd
    · rw [List.mem_singleton.1 hdb] at hd
      cases hd
  | some strFile =>
    unfold DbState.construct
    dsimp only
    split_ifs
    · split
      · next pdb hpdb => exact (h.raise strFile).addHandle hpdb
      · next hnone => exact (h.raise strFile).createDb hnone opening
    · exact h

/-- A constructor that returns. -/
theorem construct_of_true {opening : DbOpening} {s' : DbState}
    (h : s.construct (some strFile) opening = (true, s')) :
    ∃ pdb, s'.handles = s.handles ++ [⟨some pdb, strFile⟩] ∧ s'.closing = s.closing ∧
      s'.leaked = s.leaked := by
  unfold construct at h
  dsimp only at h
  split_ifs at h
  case neg => cases h
  split at h
  · next pdb hpdb =>
    obtain rfl := (Prod.mk.inj h).2
    exact ⟨pdb, rfl, rfl, rfl⟩
  · next hnone =>
    unfold createDb at h
    dsimp only at h
    split_ifs at h
    · cases h
    · cases h
    · cases h
    · obtain rfl := (Prod.mk.inj h).2
      exact ⟨s.nextDb, rfl, rfl, rfl⟩

theorem uses_closeHandle (s : DbState) (i : Nat) : (s.closeHandle i).uses.Perm s.uses := by
  unfold closeHandle
  split
  · next pdb strFile hi =>
    obtain ⟨hlt, hget⟩ := List.getElem?_eq_some_iff.1 hi
    have hsplit : ∃ l₁ l₂, s.handles = l₁ ++ s.handles[i] :: l₂ ∧ l₁.length = i ∧
        s.handles.set i ⟨none, strFile⟩ = l₁ ++ ⟨none, strFile⟩ :: l₂ := List.exists_of_set hlt
    obtain ⟨l₁, l₂, hl, -, hset⟩ := hsplit
    unfold uses live
    dsimp only
    rw [hset, hl, hget]
    simp only [List.filter_append, List.filter_cons, Option.isSome_none, Option.isSome_some,
      Bool.false_eq_true, if_true, if_false, List.map_append, List.map_cons, List.append_assoc,
      List.cons_append]
    exact List.Perm.append_left _ List.perm_middle
  · exact List.Perm.refl _

theorem Shared.closeHandle (h : Shared s s.uses) (i : Nat) :
    Shared (s.closeHandle i) (s.closeHandle i).uses := by
  have htallied : Tallied (s.closeHandle i).mapFileUseCount (s.closeHandle i).uses := by
    refine Tallied.perm ?_ (uses_closeHandle s i).symm
    unfold DbState.closeHandle
    split <;> exact h.tallied
  unfold DbState.closeHandle at htallied ⊢
  split
  · next pdb strFile hi =>
    rw [hi] at htallied
    refine ⟨htallied, fun db hdb d hd => ?_, h.injective, h.fresh, h.closed⟩
    rcases List.mem_or_eq_of_mem_set hdb with hdb | rfl
    · exact h.points db hdb d hd
    · cases hd
  · exact h

/-- A use that ends is the one of a handle inside `Close`. -/
theorem uses_closeCount (hmem : strFile ∈ s.closing) :
    s.uses.Perm (strFile :: (s.closeCount strFile).uses) := by
  unfold closeCount
  rw [if_pos hmem]
  unfold uses
  have herase := List.perm_cons_erase hmem
  refine ((herase.append_left _).append_right _).trans ?_
  rw [List.append_assoc, List.cons_append]
  refine List.perm_middle.trans (List.Perm.cons _ ?_)
  rw [List.append_assoc]
  exact List.Perm.refl _

theorem Shared.closeCount (h : Shared s s.uses) (strFile : String) :
    Shared (s.closeCount strFile) (s.closeCount strFile).uses := by
  by_cases hmem : strFile ∈ s.closing
  · have htallied := h.tallied.perm (uses_closeCount hmem)
    unfold DbState.closeCount at htallied ⊢
    rw [if_pos hmem] at htallied ⊢
    exact ⟨htallied.lower, h.points, h.injective, h.fresh, h.closed⟩
  · unfold DbState.closeCount
    rw [if_neg hmem]
    exact h

/-! ## The maintenance -/

theorem Shared.not_mem_uses (h : Shared s s.uses) (hlt : s.uses.length < 2 ^ 32)
    (hzero : s.useCount strFile = 0) : strFile ∉ s.uses :=
  (h.tallied.eq_zero_iff hlt).1 hzero

/-- One turn of the loop of `Flush`. -/
def detachUnused (s : DbState) (mi : String × Int32) : DbState :=
  if mi.2 = 0 then s.detach mi.1 else s

theorem uses_foldl_detachUnused (l : List (String × Int32)) (s : DbState) :
    (l.foldl detachUnused s).uses = s.uses := by
  induction l generalizing s with
  | nil => rfl
  | cons mi l ih =>
    rw [List.foldl_cons, ih]
    unfold detachUnused
    split
    · exact uses_detach s mi.1
    · rfl

theorem Shared.foldl_detachUnused {l : List (String × Int32)} (h : Shared s s.uses)
    (hl : ∀ mi ∈ l, mi.2 = 0 → mi.1 ∉ s.uses) : Shared (l.foldl detachUnused s) s.uses := by
  induction l generalizing s with
  | nil => exact h
  | cons mi l ih =>
    rw [List.foldl_cons]
    have hrest : ∀ mj ∈ l, mj.2 = 0 → mj.1 ∉ s.uses := fun mj hmj =>
      hl mj (List.mem_cons_of_mem _ hmj)
    by_cases hzero : mi.2 = 0
    · have hdetach := h.detach (hl mi List.mem_cons_self hzero)
      rw [show detachUnused s mi = s.detach mi.1 from if_pos hzero]
      rw [← uses_detach s mi.1] at hdetach hrest ⊢
      exact ih hdetach hrest
    · rw [show detachUnused s mi = s from if_neg hzero]
      exact ih h hrest

theorem Flush_eq (s : DbState) (fShutdown fInit : Bool) : s.Flush fShutdown fInit =
    if fInit then
      let s := s.mapFileUseCount.toList.foldl detachUnused s
      if fShutdown && s.mapFileUseCount.isEmpty then { s with fDbEnvInit := false } else s
    else s :=
  rfl

theorem uses_Flush (s : DbState) (fShutdown fInit : Bool) :
    (s.Flush fShutdown fInit).uses = s.uses := by
  rw [Flush_eq]
  cases fInit with
  | false => rfl
  | true =>
    have huses := uses_foldl_detachUnused s.mapFileUseCount.toList s
    dsimp only
    rw [if_pos rfl]
    split
    · exact huses
    · exact huses

theorem Shared.Flush (h : Shared s s.uses) (hlt : s.uses.length < 2 ^ 32)
    (fShutdown fInit : Bool) :
    Shared (s.Flush fShutdown fInit) (s.Flush fShutdown fInit).uses := by
  rw [uses_Flush, Flush_eq]
  cases fInit with
  | false => exact h
  | true =>
    have hentries : ∀ mi ∈ s.mapFileUseCount.toList, mi.2 = 0 → mi.1 ∉ s.uses := by
      intro mi hmi hzero
      refine h.not_mem_uses hlt ?_
      unfold useCount
      rw [ExtTreeMap.getD_eq_getD_getElem?, ExtTreeMap.mem_toList_iff_getElem?_eq_some.1 hmi]
      exact hzero
    have ht := h.foldl_detachUnused hentries
    dsimp only
    rw [if_pos rfl]
    split
    · exact ⟨ht.tallied, ht.points, ht.injective, ht.fresh, ht.closed⟩
    · exact ht

theorem Shared.flushWallet (h : Shared s s.uses) (hlt : s.uses.length < 2 ^ 32)
    (strFile : String) : Shared (s.flushWallet strFile) (s.flushWallet strFile).uses := by
  unfold DbState.flushWallet
  dsimp only
  split
  · next hnone =>
    have hzero := (h.tallied.sum_eq hlt).symm.trans hnone.1
    rw [uses_detach]
    refine h.detach ?_
    rw [List.eq_nil_of_length_eq_zero ((ofNat_eq_zero_iff hlt).1 hzero)]
    exact List.not_mem_nil
  · exact h

theorem Shared.BackupWallet (h : Shared s s.uses) (hlt : s.uses.length < 2 ^ 32)
    (strWalletFile : String) :
    Shared (s.BackupWallet strWalletFile) (s.BackupWallet strWalletFile).uses := by
  unfold DbState.BackupWallet
  split
  · next hzero =>
    rw [uses_detach]
    exact h.detach (h.not_mem_uses hlt hzero)
  · exact h

/-- The handle that `Rewrite` makes for itself. -/
theorem uses_closeOwn {s' : DbState} {opening : DbOpening}
    (hnew : s.construct (some strFile) opening = (true, s')) :
    s.uses.Perm ((s'.closeHandle (s'.handles.length - 1)).closeCount strFile).uses := by
  obtain ⟨pdb, hhandles, hclosing, hleaked⟩ := construct_of_true hnew
  have hlast : s'.handles[s'.handles.length - 1]? = some ⟨some pdb, strFile⟩ := by
    rw [hhandles, List.length_append, List.length_singleton, Nat.add_sub_cancel,
      List.getElem?_concat_length]
  have hmem : strFile ∈ (s'.closeHandle (s'.handles.length - 1)).closing := by
    unfold closeHandle
    rw [hlast]
    exact List.mem_cons_self
  have huses : s'.uses.Perm (strFile :: s.uses) := by
    have hadd := uses_addHandle s ⟨some pdb, strFile⟩
    rw [if_pos (by rfl)] at hadd
    unfold addHandle uses live at hadd
    unfold uses live
    rw [hhandles, hclosing, hleaked]
    exact hadd
  exact (huses.symm.trans ((uses_closeHandle s' _).symm.trans (uses_closeCount hmem))).cons_inv

theorem Shared.Rewrite (h : Shared s s.uses) (hlt : s.uses.length < 2 ^ 32) (strFile : String)
    (opening : DbOpening) (fSuccess : Bool) :
    Shared (s.Rewrite strFile opening fSuccess) (s.Rewrite strFile opening fSuccess).uses := by
  unfold DbState.Rewrite
  split
  case isFalse => exact h
  next hzero =>
    have hnot := h.not_mem_uses hlt hzero
    have hdetach := h.detach hnot
    rw [← uses_detach s strFile] at hdetach hnot
    have hnew := hdetach.construct (some strFile) opening
    split
    · next s' heq =>
      rw [heq] at hnew
      exact hnew
    · next s' heq =>
      rw [heq] at hnew
      have hclosed := (hnew.closeHandle (s'.handles.length - 1)).closeCount strFile
      cases fSuccess with
      | false => exact hclosed
      | true =>
        rw [if_pos rfl, uses_CloseDb]
        exact hclosed.CloseDb fun hmem => hnot ((uses_closeOwn heq).mem_iff.2 hmem)

theorem Shared.step (h : Shared s s.uses) (hlt : s.uses.length < 2 ^ 32) (event : DbEvent) :
    Shared (s.step event) (s.step event).uses := by
  cases event with
  | construct pszFile opening => exact h.construct pszFile opening
  | closeHandle i => exact h.closeHandle i
  | closeCount strFile => exact h.closeCount strFile
  | Flush fShutdown fInit => exact h.Flush hlt fShutdown fInit
  | flushWallet strFile => exact h.flushWallet hlt strFile
  | BackupWallet strWalletFile => exact h.BackupWallet hlt strWalletFile
  | Rewrite strFile opening fSuccess => exact h.Rewrite hlt strFile opening fSuccess

/-! ## Runs -/

def run (fDbEnvInit fMockDb : Bool) (events : List DbEvent) : DbState :=
  events.foldl step (start fDbEnvInit fMockDb)

theorem run_append_singleton (fDbEnvInit fMockDb : Bool) (events : List DbEvent)
    (event : DbEvent) :
    run fDbEnvInit fMockDb (events ++ [event]) = (run fDbEnvInit fMockDb events).step event :=
  List.foldl_append

/-- The counters can tell the uses from none at all times. -/
def FewUses (fDbEnvInit fMockDb : Bool) (events : List DbEvent) : Prop :=
  ∀ pre, pre <+: events → (run fDbEnvInit fMockDb pre).uses.length < 2 ^ 31

theorem run_shared {fDbEnvInit fMockDb : Bool} {events : List DbEvent}
    (hfew : FewUses fDbEnvInit fMockDb events) :
    Shared (run fDbEnvInit fMockDb events) (run fDbEnvInit fMockDb events).uses := by
  apply Run.foldl_of_prefix (fun _ s => Shared s s.uses) (start_shared fDbEnvInit fMockDb) _
    (List.prefix_refl events)
  intro pre event hpre hshared
  have hless := hfew pre ((List.prefix_append pre [event]).trans hpre)
  exact hshared.step (hless.trans (by decide)) event

theorem length_liveOn_le (s : DbState) (strFile : String) :
    (s.liveOn strFile).length ≤ s.uses.count strFile :=
  calc (s.liveOn strFile).length
      = s.live.countP fun db => db.strFile = strFile := List.countP_eq_length_filter.symm
    _ = (s.live.map CDB.strFile).count strFile := by
      rw [List.count_eq_countP, List.countP_map]
      rfl
    _ ≤ s.uses.count strFile :=
      ((List.sublist_append_left _ _).trans (List.sublist_append_left _ _)).count_le _

/-- **A `Db` with a handle stays open.** In every run with fewer than 2^31 uses at a time, the count
of a file is at least the number of the live handles on it, and no `Db` was closed that a live
handle pointed to. -/
theorem useCount_spec (fDbEnvInit fMockDb : Bool) (events : List DbEvent)
    (hfew : FewUses fDbEnvInit fMockDb events) :
    (∀ strFile, ((run fDbEnvInit fMockDb events).liveOn strFile).length ≤
        ((run fDbEnvInit fMockDb events).useCount strFile).toInt) ∧
      ∀ c ∈ (run fDbEnvInit fMockDb events).closed, c.handles = [] := by
  have h := run_shared hfew
  refine ⟨fun strFile => ?_, h.closed⟩
  unfold useCount
  rw [h.tallied.toInt_eq (hfew events (List.prefix_refl _)), Int.ofNat_le]
  exact length_liveOn_le _ strFile

/-! An event adds at most one use. -/

theorem length_uses_addHandle (s : DbState) (db : CDB) :
    (s.addHandle db).uses.length ≤ s.uses.length + 1 := by
  rw [(uses_addHandle s db).length_eq]
  split
  · exact List.length_cons.le
  · exact Nat.le_succ _

theorem length_uses_leak (s : DbState) (strFile : String) :
    (s.leak strFile).uses.length = s.uses.length + 1 :=
  List.perm_middle.length_eq

theorem length_uses_construct (s : DbState) (pszFile : Option String) (opening : DbOpening) :
    (s.construct pszFile opening).2.uses.length ≤ s.uses.length + 1 := by
  cases pszFile with
  | none => exact length_uses_addHandle s ⟨none, ""⟩
  | some strFile =>
    unfold construct
    dsimp only
    split_ifs
    · split
      · next pdb _ => exact length_uses_addHandle s ⟨some pdb, strFile⟩
      · unfold createDb
        dsimp only
        split_ifs
        · exact (length_uses_leak s strFile).le
        · exact Nat.le_succ _
        · exact (length_uses_leak s strFile).le
        · exact length_uses_addHandle s ⟨some s.nextDb, strFile⟩
    · exact Nat.le_succ _

theorem length_uses_Rewrite (s : DbState) (strFile : String) (opening : DbOpening)
    (fSuccess : Bool) :
    (s.Rewrite strFile opening fSuccess).uses.length ≤ s.uses.length + 1 := by
  unfold Rewrite
  split
  case isFalse => exact Nat.le_succ _
  rw [← uses_detach s strFile]
  split
  · next s' heq =>
    have hnew := length_uses_construct (s.detach strFile) (some strFile) opening
    rw [heq] at hnew
    exact hnew
  · next s' heq =>
    rw [(uses_closeOwn heq).length_eq]
    split
    · rw [uses_CloseDb]
      exact Nat.le_succ _
    · exact Nat.le_succ _

theorem length_uses_step (s : DbState) (event : DbEvent) :
    (s.step event).uses.length ≤ s.uses.length + 1 := by
  cases event with
  | construct pszFile opening => exact length_uses_construct s pszFile opening
  | closeHandle i =>
    exact (uses_closeHandle s i).length_eq.le.trans (Nat.le_succ _)
  | closeCount strFile =>
    by_cases hmem : strFile ∈ s.closing
    · have hlen := (uses_closeCount hmem).length_eq
      rw [List.length_cons] at hlen
      exact (Nat.le_succ _).trans (hlen.ge.trans (Nat.le_succ _))
    · rw [step, show s.closeCount strFile = s from if_neg hmem]
      exact Nat.le_succ _
  | Flush fShutdown fInit =>
    rw [step, uses_Flush]
    exact Nat.le_succ _
  | flushWallet strFile =>
    rw [step, flushWallet]
    split
    · rw [uses_detach]
      exact Nat.le_succ _
    · exact Nat.le_succ _
  | BackupWallet strWalletFile =>
    rw [step, BackupWallet]
    split
    · rw [uses_detach]
      exact Nat.le_succ _
    · exact Nat.le_succ _
  | Rewrite strFile opening fSuccess => exact length_uses_Rewrite s strFile opening fSuccess

theorem length_uses_run (fDbEnvInit fMockDb : Bool) (events : List DbEvent) :
    (run fDbEnvInit fMockDb events).uses.length ≤ events.length := by
  induction events using List.reverseRecOn with
  | nil => exact Nat.le_refl _
  | append_singleton events event ih =>
    rw [run_append_singleton, List.length_append, List.length_singleton]
    exact (length_uses_step _ event).trans (Nat.succ_le_succ ih)

theorem fewUses_of_length (fDbEnvInit fMockDb : Bool) {events : List DbEvent}
    (h : events.length < 2 ^ 31) : FewUses fDbEnvInit fMockDb events := fun pre hpre =>
  (length_uses_run fDbEnvInit fMockDb pre).trans_lt (hpre.length_le.trans_lt h)

section Runs

/-- Every call succeeds. -/
def opens : DbOpening := ⟨true, 0, 0, false⟩

/-- Of two handles on one file, one is closed; a backup and a flush come before the lock of the
other's `Close`, and the file is rewritten after it. -/
def twoHandles : List DbEvent :=
  [.construct (some "wallet.dat") opens, .construct (some "wallet.dat") opens, .closeHandle 0,
    .closeCount "wallet.dat", .closeHandle 1, .BackupWallet "wallet.dat", .flushWallet "wallet.dat",
    .closeCount "wallet.dat", .Rewrite "wallet.dat" opens true]

theorem useCount_spec_twoHandles :
    (∀ strFile, ((run false false twoHandles).liveOn strFile).length ≤
        ((run false false twoHandles).useCount strFile).toInt) ∧
      ∀ c ∈ (run false false twoHandles).closed, c.handles = [] :=
  useCount_spec false false twoHandles (fewUses_of_length false false (by decide))

/-- Handles alone. -/
structure OnlyHandles (s : DbState) (strFile : String) (n : Nat) : Prop where
  shared : Shared s s.uses
  files : s.live.map CDB.strFile = List.replicate n strFile
  closing : s.closing = []
  leaked : s.leaked = []
  fMockDb : s.fMockDb = false

theorem OnlyHandles.construct {n : Nat} (h : OnlyHandles s strFile n) :
    OnlyHandles (s.construct (some strFile) opens).2 strFile (n + 1) := by
  have hnew : ∃ s', s.construct (some strFile) opens = (true, s') ∧ s'.fMockDb = false := by
    have hmock := h.fMockDb
    unfold DbState.construct
    dsimp only [setUseCount, openEnv]
    rw [if_pos (show (s.fDbEnvInit || opens.envOpens) = true from Bool.or_true _)]
    split
    · exact ⟨_, rfl, by simp [addHandle, hmock]⟩
    · unfold createDb
      simp [hmock, opens, addHandle]
  have hshared := h.shared.construct (some strFile) opens
  obtain ⟨s', heq, hmock⟩ := hnew
  obtain ⟨pdb, hhandles, hclosing, hleaked⟩ := construct_of_true heq
  rw [heq] at hshared ⊢
  refine ⟨hshared, ?_, hclosing.trans h.closing, hleaked.trans h.leaked, hmock⟩
  rw [List.replicate_succ', ← h.files]
  unfold live
  rw [hhandles, List.filter_append, List.map_append]
  rfl

theorem onlyHandles_run (strFile : String) (n : Nat) :
    OnlyHandles (run true false (List.replicate n (.construct (some strFile) opens)))
      strFile n := by
  induction n with
  | zero => exact ⟨start_shared true false, rfl, rfl, rfl, rfl⟩
  | succ n ih =>
    rw [List.replicate_succ', run_append_singleton]
    exact ih.construct

/-- With `2 ^ 31` handles on a file, its count is negative. -/
theorem useCount_overflows :
    ∃ (fDbEnvInit fMockDb : Bool) (events : List DbEvent) (strFile : String),
      ((run fDbEnvInit fMockDb events).useCount strFile).toInt <
        ((run fDbEnvInit fMockDb events).liveOn strFile).length := by
  refine ⟨true, false, List.replicate (2 ^ 31) (.construct (some "wallet.dat") opens), "wallet.dat",
    ?_⟩
  have h := onlyHandles_run "wallet.dat" (2 ^ 31)
  have hnegative : ((run true false (List.replicate (2 ^ 31)
      (.construct (some "wallet.dat") opens))).useCount "wallet.dat").toInt < 0 := by
    unfold useCount
    rw [h.shared.tallied, uses, h.closing, h.leaked, h.files, List.append_nil, List.append_nil,
      List.count_replicate_self]
    decide
  exact hnegative.trans_le (Int.natCast_nonneg _)

end Runs

end DbState

end TriTip
