import TriTip.Lib.LendingPool

/-!
# The key pool

`NewKeyPool`, `TopUpKeyPool`, `ReserveKeyFromKeyPool` and the other calls of `wallet.cpp` on the key
pool, made by any number of `CReserveKey`s. An index that is reserved is in `setKeyPool` no more,
and new indexes are counted from what is in `setKeyPool` only, from 1 if it is empty: so a new key
may be written over one that is reserved (`reservedTwice`). `Reached.keys_apart`: as long as none
is, the pool lends each key once.
-/

namespace TriTip

open LendingPool

/-- A `CReserveKey`; `nIndex` is -1 if it has none. -/
structure CReserveKey (K : Type) where
  nIndex : Int
  vchPubKey : Option K

structure KeyPoolState (ι K : Type) where
  setKeyPool : Finset Int
  /-- the pool records of the file -/
  pool : Int → Option K
  vchDefaultKey : Option K
  reserveKey : ι → CReserveKey K
  /-- the keys that were kept, which no code reads -/
  kept : List K

/-- What a call finds besides. -/
structure KeyPoolEnv (K : Type) where
  IsLocked : Bool
  /-- `GetArg("-keypool", 100)` -/
  keypool : Int
  /-- the keys that are generated in the call, one after another -/
  GenerateNewKey : Nat → K
  HaveKey : K → Bool

/-- The calls; `GetKeyFromPool` reserves and keeps, the others are those of a `CReserveKey`. -/
inductive KeyPoolCall (ι K : Type) where
  | GetReservedKey (reservekey : ι)
  | KeepKey (reservekey : ι)
  | ReturnKey (reservekey : ι)
  | TopUpKeyPool
  | NewKeyPool
  | AddReserveKey (keypool : K)
  | GetKeyFromPool (fAllowReuse : Bool)

section

variable {ι K : Type} [DecidableEq ι]

/-- The index after the last one. -/
def nEnd (setKeyPool : Finset Int) : Int :=
  match setKeyPool.max with
  | none => 1
  | some nLast => nLast + 1

namespace KeyPoolState

/-- `WritePool`, and the index is inserted. -/
def writePool (s : KeyPoolState ι K) (nIndex : Int) (key : K) : KeyPoolState ι K :=
  { s with
    pool := Function.update s.pool nIndex (some key)
    setKeyPool := insert nIndex s.setKeyPool }

/-- How many keys the pool lacks. -/
def topUpCount (env : KeyPoolEnv K) (s : KeyPoolState ι K) : Nat :=
  (UInt32.ofInt (max env.keypool 0) + 1).toNat - s.setKeyPool.card

/-- The loop of `TopUpKeyPool`, for so many keys, after `i` of them. -/
def topUp (env : KeyPoolEnv K) : (n : Nat) → (i : Nat) → KeyPoolState ι K → KeyPoolState ι K
  | 0, _, s => s
  | n + 1, i, s => topUp env n (i + 1) (s.writePool (nEnd s.setKeyPool) (env.GenerateNewKey i))

def TopUpKeyPool (env : KeyPoolEnv K) (s : KeyPoolState ι K) : KeyPoolState ι K :=
  if env.IsLocked then s else topUp env (topUpCount env s) 0 s

def NewKeyPool (env : KeyPoolEnv K) (s : KeyPoolState ι K) : KeyPoolState ι K :=
  let s := { s with
    pool := fun nIndex => if nIndex ∈ s.setKeyPool then none else s.pool nIndex
    setKeyPool := ∅ }
  if env.IsLocked then s
  else
    (List.range (max env.keypool 0).toNat).foldl
      (fun s (i : Nat) => s.writePool (i + 1) (env.GenerateNewKey i)) s

/-- The index and its key; no key if there is no index, or an exception is thrown. -/
def ReserveKeyFromKeyPool (env : KeyPoolEnv K) (s : KeyPoolState ι K) :
    KeyPoolState ι K × Int × Option K :=
  let s := s.TopUpKeyPool env
  match s.setKeyPool.min with
  | none => (s, -1, none)
  | some nIndex =>
    ({ s with setKeyPool := s.setKeyPool.erase nIndex }, nIndex, (s.pool nIndex).filter env.HaveKey)

/-- `none` for the key after the last one of an empty set, which is undefined. -/
def AddReserveKey (s : KeyPoolState ι K) (keypool : K) : Option (KeyPoolState ι K) :=
  if s.setKeyPool = ∅ then none else some (s.writePool (nEnd s.setKeyPool) keypool)

/-- `ErasePool`; the key is kept. -/
def KeepKey (s : KeyPoolState ι K) (nIndex : Int) : KeyPoolState ι K :=
  { s with
    pool := Function.update s.pool nIndex none
    kept := (s.pool nIndex).toList ++ s.kept }

def ReturnKey (s : KeyPoolState ι K) (nIndex : Int) : KeyPoolState ι K :=
  { s with setKeyPool := insert nIndex s.setKeyPool }

/-- A `CReserveKey` is set. -/
def setReserveKey (s : KeyPoolState ι K) (h : ι) (reservekey : CReserveKey K) :
    KeyPoolState ι K :=
  { s with reserveKey := Function.update s.reserveKey h reservekey }

/-- `CReserveKey::GetReservedKey`, and the key of the pool that it has got by it. -/
def GetReservedKey (env : KeyPoolEnv K) (s : KeyPoolState ι K) (h : ι) :
    KeyPoolState ι K × Option K :=
  if (s.reserveKey h).nIndex = -1 then
    match s.ReserveKeyFromKeyPool env with
    | (s, nIndex, key) =>
      if nIndex = -1 then
        match s.vchDefaultKey with
        | some vchDefaultKey => (s.setReserveKey h ⟨-1, some vchDefaultKey⟩, none)
        | none => (s, none)
      else (s.setReserveKey h ⟨nIndex, key.or (s.reserveKey h).vchPubKey⟩, key)
  else (s, none)

/-- `CReserveKey::KeepKey` -/
def keepReserved (s : KeyPoolState ι K) (h : ι) : KeyPoolState ι K :=
  let s := if (s.reserveKey h).nIndex = -1 then s else s.KeepKey (s.reserveKey h).nIndex
  s.setReserveKey h ⟨-1, none⟩

/-- `CReserveKey::ReturnKey` -/
def returnReserved (s : KeyPoolState ι K) (h : ι) : KeyPoolState ι K :=
  let s := if (s.reserveKey h).nIndex = -1 then s else s.ReturnKey (s.reserveKey h).nIndex
  s.setReserveKey h ⟨-1, none⟩

/-- The key that is handed out, but for the default key. -/
def GetKeyFromPool (env : KeyPoolEnv K) (s : KeyPoolState ι K) (fAllowReuse : Bool) :
    KeyPoolState ι K × Option K :=
  let n := s.topUpCount env
  match s.ReserveKeyFromKeyPool env with
  | (s, nIndex, key) =>
    if nIndex = -1 then
      if fAllowReuse && s.vchDefaultKey.isSome || env.IsLocked then (s, none)
      else
        let result := env.GenerateNewKey n
        ({ s with kept := result :: s.kept }, some result)
    else
      match key with
      | none => (s, none)
      | some key => (s.KeepKey nIndex, some key)

/-- The state after a call, and the key of the pool that it has handed out. -/
def step (env : KeyPoolEnv K) (s : KeyPoolState ι K) :
    KeyPoolCall ι K → Option (KeyPoolState ι K × Option K)
  | .GetReservedKey h => some (s.GetReservedKey env h)
  | .KeepKey h => some (s.keepReserved h, none)
  | .ReturnKey h => some (s.returnReserved h, none)
  | .TopUpKeyPool => some (s.TopUpKeyPool env, none)
  | .NewKeyPool => some (s.NewKeyPool env, none)
  | .AddReserveKey keypool => (s.AddReserveKey keypool).map fun s => (s, none)
  | .GetKeyFromPool fAllowReuse => some (s.GetKeyFromPool env fAllowReuse)

end KeyPoolState

end

namespace KeyPoolState

variable {ι K : Type}

/-! ## What is written -/

/-- What `setKeyPool` has is free, what a `CReserveKey` has is lent, and what was kept is
retired. -/
def toPool (s : KeyPoolState ι K) : Pool Int ι K where
  free := s.setKeyPool
  held h := if (s.reserveKey h).nIndex = -1 then none else some (s.reserveKey h).nIndex
  content := s.pool
  retired := { key | key ∈ s.kept }

/-- A `CReserveKey` has the index. -/
def Reserved (s : KeyPoolState ι K) (nIndex : Int) : Prop :=
  nIndex ≠ -1 ∧ ∃ h, (s.reserveKey h).nIndex = nIndex

/-- The records that `TopUpKeyPool` writes, and `NewKeyPool`. -/
def topUpRecords (env : KeyPoolEnv K) (s : KeyPoolState ι K) : List (Int × K) :=
  if env.IsLocked then []
  else (List.range (s.topUpCount env)).map fun i : Nat =>
    (nEnd s.setKeyPool + i, env.GenerateNewKey i)

def newRecords (env : KeyPoolEnv K) : List (Int × K) :=
  if env.IsLocked then []
  else (List.range (max env.keypool 0).toNat).map fun i : Nat => (i + 1, env.GenerateNewKey i)

def writeAll (s : KeyPoolState ι K) (records : List (Int × K)) : KeyPoolState ι K :=
  records.foldl (fun s r => s.writePool r.1 r.2) s

theorem nEnd_of_max {setKeyPool : Finset Int} {nLast : Int} (h : setKeyPool.max = nLast) :
    nEnd setKeyPool = nLast + 1 := by
  unfold nEnd
  rw [h]

theorem lt_nEnd {setKeyPool : Finset Int} {nIndex : Int} (h : nIndex ∈ setKeyPool) :
    nIndex < nEnd setKeyPool := by
  obtain ⟨nLast, hlast⟩ := Finset.max_of_mem h
  rw [nEnd_of_max hlast]
  exact Int.lt_add_one_of_le (Finset.le_max_of_eq h hlast)

theorem nEnd_pos {setKeyPool : Finset Int} (h : ∀ i ∈ setKeyPool, 0 < i) : 0 < nEnd setKeyPool := by
  cases hmax : setKeyPool.max with
  | bot =>
    unfold nEnd
    rw [hmax]
    decide
  | coe nLast =>
    have := h nLast (Finset.mem_of_max hmax)
    rw [nEnd_of_max hmax]
    omega

/-- After the index at the end comes the next. -/
theorem nEnd_insert (setKeyPool : Finset Int) :
    nEnd (insert (nEnd setKeyPool) setKeyPool) = nEnd setKeyPool + 1 := by
  refine nEnd_of_max ?_
  refine le_antisymm (Finset.max_le fun i hi => ?_) (Finset.le_max (Finset.mem_insert_self ..))
  rcases Finset.mem_insert.1 hi with rfl | hi
  · exact le_rfl
  · exact WithBot.coe_le_coe.2 (lt_nEnd hi).le

theorem topUp_eq_writeAll (env : KeyPoolEnv K) (n i : Nat) (s : KeyPoolState ι K) :
    topUp env n i s = s.writeAll ((List.range n).map fun j : Nat =>
      (nEnd s.setKeyPool + j, env.GenerateNewKey (i + j))) := by
  induction n generalizing i s with
  | zero => rfl
  | succ n ih =>
    rw [topUp, ih, List.range_succ_eq_map, List.map_cons, List.map_map]
    have hnext : nEnd (s.writePool (nEnd s.setKeyPool) (env.GenerateNewKey i)).setKeyPool =
        nEnd s.setKeyPool + 1 := nEnd_insert s.setKeyPool
    rw [hnext]
    unfold writeAll
    rw [List.foldl_cons]
    simp only [Nat.cast_zero, add_zero, Function.comp_def, Nat.succ_eq_add_one, Nat.cast_add,
      Nat.cast_one, add_assoc, add_comm (1 : Int), add_comm 1]

theorem TopUpKeyPool_eq (env : KeyPoolEnv K) (s : KeyPoolState ι K) :
    s.TopUpKeyPool env = s.writeAll (s.topUpRecords env) := by
  unfold TopUpKeyPool topUpRecords
  split
  · rfl
  · rw [topUp_eq_writeAll]
    simp only [Nat.zero_add]

/-- `NewKeyPool` before it writes. -/
def eraseAll (s : KeyPoolState ι K) : KeyPoolState ι K :=
  { s with
    pool := fun nIndex => if nIndex ∈ s.setKeyPool then none else s.pool nIndex
    setKeyPool := ∅ }

theorem NewKeyPool_eq (env : KeyPoolEnv K) (s : KeyPoolState ι K) :
    s.NewKeyPool env = s.eraseAll.writeAll (newRecords env) := by
  unfold NewKeyPool newRecords writeAll
  split
  · rfl
  · rw [List.foldl_map]
    rfl

/-! ## Lending keys -/

/-- The indexes of the pool and of the `CReserveKey`s are positive, and their keys apart. -/
structure Lends (s : KeyPoolState ι K) : Prop where
  sound : Sound s.toPool
  positive : ∀ i, s.toPool.Live i → 0 < i

/-- The keys that are generated are none that the pool knows. -/
structure Fresh (env : KeyPoolEnv K) (s : KeyPoolState ι K) : Prop where
  injective : Function.Injective env.GenerateNewKey
  unknown : ∀ n, ¬ s.toPool.Known (env.GenerateNewKey n)

theorem held_eq_some {s : KeyPoolState ι K} {h : ι} {i : Int} :
    s.toPool.held h = some i ↔ i ≠ -1 ∧ (s.reserveKey h).nIndex = i := by
  change (if (s.reserveKey h).nIndex = -1 then none else some _) = some i ↔ _
  split_ifs with hnone
  · rw [hnone]
    exact ⟨fun h => (nomatch h), fun h => absurd h.2.symm h.1⟩
  · rw [Option.some.injEq]
    exact ⟨fun h => ⟨h ▸ hnone, h⟩, fun h => h.2⟩

theorem live_iff {s : KeyPoolState ι K} {i : Int} :
    s.toPool.Live i ↔ i ∈ s.setKeyPool ∨ s.Reserved i := by
  unfold Pool.Live Reserved
  simp only [held_eq_some, exists_and_left]
  rfl

theorem known_writePool {s : KeyPoolState ι K} {nIndex : Int} {key key' : K}
    (h : (s.writePool nIndex key).toPool.Known key') : key' = key ∨ s.toPool.Known key' :=
  known_put (p := s.toPool) h

/-- Records are written to places that nothing has reserved, with keys that are new. -/
structure Writable (s : KeyPoolState ι K) (records : List (Int × K)) : Prop where
  unreserved : ∀ r ∈ records, ¬ s.Reserved r.1
  positive : ∀ r ∈ records, 0 < r.1
  nodup : (records.map Prod.snd).Nodup
  unknown : ∀ r ∈ records, ¬ s.toPool.Known r.2

theorem reserveKey_writeAll (s : KeyPoolState ι K) (records : List (Int × K)) :
    (s.writeAll records).reserveKey = s.reserveKey ∧ (s.writeAll records).kept = s.kept := by
  induction records generalizing s with
  | nil => exact ⟨rfl, rfl⟩
  | cons r records ih => exact ih (s.writePool r.1 r.2)

theorem pool_writeAll {s : KeyPoolState ι K} {records : List (Int × K)} {i : Int}
    (h : ∀ r ∈ records, r.1 ≠ i) : (s.writeAll records).pool i = s.pool i := by
  induction records generalizing s with
  | nil => rfl
  | cons r records ih =>
    rw [List.forall_mem_cons] at h
    refine (ih h.2).trans ?_
    exact Function.update_of_ne (Ne.symm h.1) ..

theorem known_writeAll {s : KeyPoolState ι K} {records : List (Int × K)} {key : K}
    (h : (s.writeAll records).toPool.Known key) :
    key ∈ records.map Prod.snd ∨ s.toPool.Known key := by
  induction records generalizing s with
  | nil => exact .inr h
  | cons r records ih =>
    rw [List.map_cons, List.mem_cons, or_assoc]
    rcases ih h with hmem | hknown
    · exact .inr (.inl hmem)
    · exact (known_writePool hknown).imp_right Or.inr

theorem Lends.writeAll {s : KeyPoolState ι K} (h : s.Lends) {records : List (Int × K)}
    (hw : s.Writable records) : (s.writeAll records).Lends := by
  induction records generalizing s with
  | nil => exact h
  | cons r records ih =>
    obtain ⟨hres, hpos, hnd, hunknown⟩ := hw
    rw [List.forall_mem_cons] at hres hpos hunknown
    rw [List.map_cons, List.nodup_cons] at hnd
    have hput : Sound (s.toPool.put r.1 r.2) := by
      refine h.sound.put (fun x hx => hres.1 ?_) hunknown.1
      obtain ⟨hne, hx⟩ := held_eq_some.1 hx
      exact ⟨hne, x, hx⟩
    have hwrite : (s.writePool r.1 r.2).Lends := by
      refine ⟨hput, fun i hi => ?_⟩
      rcases (live_put (p := s.toPool)).1 hi with rfl | hi
      · exact hpos.1
      · exact h.positive i hi
    refine ih hwrite ⟨hres.2, hpos.2, hnd.2, fun r' hr' hknown => ?_⟩
    rcases known_writePool hknown with heq | hknown
    · exact hnd.1 (List.mem_map.2 ⟨r', hr', heq⟩)
    · exact hunknown.2 r' hr' hknown

theorem Lends.nEnd_pos {s : KeyPoolState ι K} (h : s.Lends) : 0 < nEnd s.setKeyPool :=
  TriTip.KeyPoolState.nEnd_pos fun i hi => h.positive i (.inl hi)

/-- Records for positive indices, with keys that are generated one after another. -/
theorem writable_generated {s : KeyPoolState ι K} {env : KeyPoolEnv K} {index : Nat → Int} {n : Nat}
    (hinjective : Function.Injective env.GenerateNewKey)
    (hunknown : ∀ i, ¬ s.toPool.Known (env.GenerateNewKey i)) (hpos : ∀ i, 0 < index i)
    (hres : ∀ r ∈ if env.IsLocked then [] else
      (List.range n).map fun i => (index i, env.GenerateNewKey i), ¬ s.Reserved r.1) :
    s.Writable (if env.IsLocked then [] else
      (List.range n).map fun i => (index i, env.GenerateNewKey i)) := by
  split at hres
  · rename_i hlocked
    rw [if_pos hlocked]
    exact ⟨by simp, by simp, by simp, by simp⟩
  · rename_i hlocked
    rw [if_neg hlocked]
    refine ⟨hres, ?_, ?_, ?_⟩
    · rw [List.forall_mem_map]
      exact fun i _ => hpos i
    · rw [List.map_map]
      exact List.nodup_range.map hinjective
    · rw [List.forall_mem_map]
      exact fun i _ => hunknown i

theorem Lends.writable_topUp {s : KeyPoolState ι K} (h : s.Lends) {env : KeyPoolEnv K}
    (hfresh : s.Fresh env) (hres : ∀ r ∈ s.topUpRecords env, ¬ s.Reserved r.1) :
    s.Writable (s.topUpRecords env) := by
  have hend := h.nEnd_pos
  have hpos (i : Nat) : 0 < nEnd s.setKeyPool + (i : Int) := by omega
  exact writable_generated hfresh.injective hfresh.unknown hpos hres

theorem Lends.topUp {s : KeyPoolState ι K} (h : s.Lends) {env : KeyPoolEnv K}
    (hfresh : s.Fresh env) (hres : ∀ r ∈ s.topUpRecords env, ¬ s.Reserved r.1) :
    (s.TopUpKeyPool env).Lends := by
  rw [TopUpKeyPool_eq]
  exact h.writeAll (h.writable_topUp hfresh hres)

/-- The records that are free are erased. -/
theorem Lends.eraseAll {s : KeyPoolState ι K} (h : s.Lends) :
    s.eraseAll.Lends ∧ ∀ key, s.eraseAll.toPool.Known key → s.toPool.Known key := by
  have hheld : ∀ x i, s.eraseAll.toPool.held x = some i → s.toPool.held x = some i :=
    fun _ _ hx => hx
  have hsub : Sub s.eraseAll.toPool s.toPool := by
    refine ⟨fun i hi => ?_, fun x i _ => Finset.notMem_empty i, h.sound.single, fun k => .inl⟩
    obtain ⟨x, hx⟩ := hi.resolve_left (Finset.notMem_empty i)
    refine ⟨.inr ⟨x, hheld x i hx⟩, ?_⟩
    exact if_neg (h.sound.exclusive x i (hheld x i hx))
  exact ⟨⟨h.sound.of_sub hsub, fun i hi => h.positive i (hsub.live i hi).1⟩,
    fun key => hsub.known⟩

theorem Lends.NewKeyPool {s : KeyPoolState ι K} (h : s.Lends) {env : KeyPoolEnv K}
    (hfresh : s.Fresh env) (hres : ∀ r ∈ newRecords env, ¬ s.Reserved r.1) :
    (s.NewKeyPool env).Lends := by
  rw [NewKeyPool_eq]
  obtain ⟨herase, hknown⟩ := h.eraseAll
  have hunknown (i : Nat) : ¬ s.eraseAll.toPool.Known (env.GenerateNewKey i) := fun hi =>
    hfresh.unknown i (hknown _ hi)
  have hpos (i : Nat) : 0 < (i : Int) + 1 := by omega
  exact herase.writeAll (writable_generated hfresh.injective hunknown hpos hres)

/-- An index is taken from the set, or there is none. -/
theorem Lends.reserve {s : KeyPoolState ι K} {env : KeyPoolEnv K}
    (h : (s.TopUpKeyPool env).Lends) :
    s.ReserveKeyFromKeyPool env = (s.TopUpKeyPool env, -1, none) ∨
      ∃ nIndex ∈ (s.TopUpKeyPool env).setKeyPool, nIndex ≠ -1 ∧
        s.ReserveKeyFromKeyPool env =
          ({ s.TopUpKeyPool env with
              setKeyPool := (s.TopUpKeyPool env).setKeyPool.erase nIndex }, nIndex,
            ((s.TopUpKeyPool env).pool nIndex).filter env.HaveKey) := by
  unfold ReserveKeyFromKeyPool
  simp only []
  split
  · exact .inl rfl
  · rename_i nIndex hmin
    have hmem : nIndex ∈ (s.TopUpKeyPool env).setKeyPool := Finset.mem_of_min hmin
    have hpos := h.positive nIndex (.inl hmem)
    exact .inr ⟨nIndex, hmem, by omega, rfl⟩

section

variable [DecidableEq ι]

omit [DecidableEq ι] in
theorem Lends.of_sub {s s' : KeyPoolState ι K} (h : s.Lends) (hsub : Sub s'.toPool s.toPool) :
    s'.Lends :=
  ⟨h.sound.of_sub hsub, fun i hi => h.positive i (hsub.live i hi).1⟩

@[simp] theorem reserveKey_setReserveKey (s : KeyPoolState ι K) (x : ι)
    (reservekey : CReserveKey K) :
    (s.setReserveKey x reservekey).reserveKey = Function.update s.reserveKey x reservekey :=
  rfl

theorem held_setReserveKey {s : KeyPoolState ι K} {x y : ι} {reservekey : CReserveKey K} {i : Int}
    (h : (s.setReserveKey x reservekey).toPool.held y = some i) :
    y = x ∧ i ≠ -1 ∧ reservekey.nIndex = i ∨ y ≠ x ∧ s.toPool.held y = some i := by
  rw [held_eq_some, reserveKey_setReserveKey] at h
  by_cases hyx : y = x
  · rw [hyx, Function.update_self] at h
    exact .inl ⟨hyx, h⟩
  · rw [Function.update_of_ne hyx] at h
    exact .inr ⟨hyx, held_eq_some.2 h⟩

/-- A `CReserveKey` that is left without an index. -/
theorem held_setReserveKey_none {s : KeyPoolState ι K} {x y : ι} {vchPubKey : Option K} {i : Int}
    (h : (s.setReserveKey x ⟨-1, vchPubKey⟩).toPool.held y = some i) :
    y ≠ x ∧ s.toPool.held y = some i := by
  rcases held_setReserveKey h with ⟨-, hne, heq⟩ | h
  · exact absurd heq.symm hne
  · exact h

/-- A `CReserveKey` without an index gets one that is free. -/
theorem Lends.take {s : KeyPoolState ι K} (h : s.Lends) (x : ι) {nIndex : Int}
    (hmem : nIndex ∈ s.setKeyPool) (vchPubKey : Option K) :
    (setReserveKey { s with setKeyPool := s.setKeyPool.erase nIndex } x
      ⟨nIndex, vchPubKey⟩).Lends := by
  have hheld : ∀ {y i}, (setReserveKey { s with setKeyPool := s.setKeyPool.erase nIndex } x
      ⟨nIndex, vchPubKey⟩).toPool.held y = some i →
      y = x ∧ nIndex = i ∨ y ≠ x ∧ s.toPool.held y = some i :=
    fun hy => (held_setReserveKey hy).imp_left fun hy => ⟨hy.1, hy.2.2⟩
  refine h.of_sub ⟨fun i hi => ⟨?_, rfl⟩, fun y i hy hi => ?_, fun y y' i hy hy' => ?_,
    fun _ => .inl⟩
  · rcases hi with hi | ⟨y, hy⟩
    · exact .inl (Finset.mem_of_mem_erase hi)
    · rcases hheld hy with ⟨-, rfl⟩ | ⟨-, hy⟩
      · exact .inl hmem
      · exact .inr ⟨y, hy⟩
  · rcases hheld hy with ⟨-, rfl⟩ | ⟨-, hy⟩
    · exact Finset.notMem_erase _ _ hi
    · exact h.sound.exclusive y i hy (Finset.mem_of_mem_erase hi)
  · rcases hheld hy with ⟨hyx, hi⟩ | ⟨-, hy⟩ <;> rcases hheld hy' with ⟨hyx', hi'⟩ | ⟨-, hy'⟩
    · exact hyx.trans hyx'.symm
    · exact absurd (hi ▸ hmem) (h.sound.exclusive y' i hy')
    · exact absurd (hi' ▸ hmem) (h.sound.exclusive y i hy)
    · exact h.sound.single y y' i hy hy'

/-- It keeps the key of its index. -/
theorem Lends.keep {s : KeyPoolState ι K} (h : s.Lends) {x : ι}
    (hx : (s.reserveKey x).nIndex ≠ -1) (vchPubKey : Option K) :
    (setReserveKey (s.KeepKey (s.reserveKey x).nIndex) x ⟨-1, vchPubKey⟩).Lends := by
  have hxheld : s.toPool.held x = some (s.reserveKey x).nIndex := held_eq_some.2 ⟨hx, rfl⟩
  have hheld : ∀ {y i}, (setReserveKey (s.KeepKey (s.reserveKey x).nIndex) x
      ⟨-1, vchPubKey⟩).toPool.held y = some i → y ≠ x ∧ s.toPool.held y = some i :=
    fun hy => held_setReserveKey_none hy
  have hlive : ∀ i, (setReserveKey (s.KeepKey (s.reserveKey x).nIndex) x
      ⟨-1, vchPubKey⟩).toPool.Live i → s.toPool.Live i ∧ i ≠ (s.reserveKey x).nIndex := by
    rintro i (hi | ⟨y, hy⟩)
    · refine ⟨.inl hi, ?_⟩
      rintro rfl
      exact h.sound.exclusive x _ hxheld hi
    · refine ⟨.inr ⟨y, (hheld hy).2⟩, ?_⟩
      rintro rfl
      exact (hheld hy).1 (h.sound.single y x _ (hheld hy).2 hxheld)
  refine h.of_sub ⟨fun i hi => ⟨(hlive i hi).1, ?_⟩, fun y i hy => ?_, fun y y' i hy hy' => ?_,
    fun key hkey => ?_⟩
  · exact Function.update_of_ne (hlive i hi).2 ..
  · exact h.sound.exclusive y i (hheld hy).2
  · exact h.sound.single y y' i (hheld hy).2 (hheld hy').2
  · rcases List.mem_append.1 hkey with hkey | hkey
    · exact .inr ⟨_, .inr ⟨x, hxheld⟩, fun hlast => (hlive _ hlast).2 rfl,
        Option.mem_toList.1 hkey⟩
    · exact .inl hkey

/-- It returns its index. -/
theorem Lends.giveBack {s : KeyPoolState ι K} (h : s.Lends) {x : ι}
    (hx : (s.reserveKey x).nIndex ≠ -1) (vchPubKey : Option K) :
    (setReserveKey (s.ReturnKey (s.reserveKey x).nIndex) x ⟨-1, vchPubKey⟩).Lends := by
  have hxheld : s.toPool.held x = some (s.reserveKey x).nIndex := held_eq_some.2 ⟨hx, rfl⟩
  have hheld : ∀ {y i}, (setReserveKey (s.ReturnKey (s.reserveKey x).nIndex) x
      ⟨-1, vchPubKey⟩).toPool.held y = some i → y ≠ x ∧ s.toPool.held y = some i :=
    fun hy => held_setReserveKey_none hy
  refine h.of_sub ⟨fun i hi => ⟨?_, rfl⟩, fun y i hy hi => ?_, fun y y' i hy hy' => ?_,
    fun _ => .inl⟩
  · rcases hi with hi | ⟨y, hy⟩
    · rcases Finset.mem_insert.1 hi with rfl | hi
      · exact .inr ⟨x, hxheld⟩
      · exact .inl hi
    · exact .inr ⟨y, (hheld hy).2⟩
  · rcases Finset.mem_insert.1 hi with rfl | hi
    · exact (hheld hy).1 (h.sound.single y x _ (hheld hy).2 hxheld)
    · exact h.sound.exclusive y i (hheld hy).2 hi
  · exact h.sound.single y y' i (hheld hy).2 (hheld hy').2

/-- A `CReserveKey` is left without an index. -/
theorem Lends.idle {s : KeyPoolState ι K} (h : s.Lends) (x : ι) (vchPubKey : Option K) :
    (s.setReserveKey x ⟨-1, vchPubKey⟩).Lends := by
  have hheld : ∀ {y i}, (s.setReserveKey x ⟨-1, vchPubKey⟩).toPool.held y = some i →
      s.toPool.held y = some i := fun hy => (held_setReserveKey_none hy).2
  exact h.of_sub ⟨fun i hi => ⟨hi.imp_right fun ⟨y, hy⟩ => ⟨y, hheld hy⟩, rfl⟩,
    fun y i hy => h.sound.exclusive y i (hheld hy),
    fun y y' i hy hy' => h.sound.single y y' i (hheld hy) (hheld hy'), fun _ => .inl⟩

end

/-- An index that is free is lost. -/
theorem Lends.lose {s : KeyPoolState ι K} (h : s.Lends) (nIndex : Int) :
    Lends { s with setKeyPool := s.setKeyPool.erase nIndex } :=
  h.of_sub ⟨fun _ hi => ⟨hi.imp_left Finset.mem_of_mem_erase, rfl⟩,
    fun y i hy hi => h.sound.exclusive y i hy (Finset.mem_of_mem_erase hi), h.sound.single,
    fun _ => .inl⟩

/-- The key of a free index is kept. -/
theorem Lends.keepFree {s : KeyPoolState ι K} (h : s.Lends) {nIndex : Int}
    (hmem : nIndex ∈ s.setKeyPool) :
    Lends (KeepKey { s with setKeyPool := s.setKeyPool.erase nIndex } nIndex) := by
  have hlive : ∀ i, (KeepKey { s with setKeyPool := s.setKeyPool.erase nIndex }
      nIndex).toPool.Live i → s.toPool.Live i ∧ i ≠ nIndex := by
    rintro i (hi | ⟨y, hy⟩)
    · exact ⟨.inl (Finset.mem_of_mem_erase hi), Finset.ne_of_mem_erase hi⟩
    · refine ⟨.inr ⟨y, hy⟩, ?_⟩
      rintro rfl
      exact h.sound.exclusive y _ hy hmem
  refine h.of_sub ⟨fun i hi => ⟨(hlive i hi).1, ?_⟩,
    fun y i hy hi => h.sound.exclusive y i hy (Finset.mem_of_mem_erase hi), h.sound.single,
    fun key hkey => ?_⟩
  · exact Function.update_of_ne (hlive i hi).2 ..
  · rcases List.mem_append.1 hkey with hkey | hkey
    · exact .inr ⟨nIndex, .inl hmem, fun hlast => (hlive _ hlast).2 rfl, Option.mem_toList.1 hkey⟩
    · exact .inl hkey

/-- A new key is kept at once. -/
theorem Lends.keepNew {s : KeyPoolState ι K} (h : s.Lends) {key : K}
    (hkey : ¬ s.toPool.Known key) : Lends { s with kept := key :: s.kept } := by
  have hpool : toPool { s with kept := key :: s.kept } =
      { s.toPool with retired := insert key s.toPool.retired } := by
    unfold toPool
    congr 1
    ext key'
    exact List.mem_cons
  exact ⟨hpool ▸ h.sound.retire hkey, h.positive⟩

theorem Fresh.unknown_after_topUp {s : KeyPoolState ι K} {env : KeyPoolEnv K} (h : s.Fresh env) :
    ¬ (s.TopUpKeyPool env).toPool.Known (env.GenerateNewKey (s.topUpCount env)) := by
  rw [TopUpKeyPool_eq]
  intro hknown
  rcases known_writeAll hknown with hmem | hknown
  · obtain ⟨r, hr, hkey⟩ := List.mem_map.1 hmem
    unfold topUpRecords at hr
    split at hr
    · cases hr
    · obtain ⟨i, hi, rfl⟩ := List.mem_map.1 hr
      exact (List.mem_range.1 hi).ne (h.injective hkey)
  · exact h.unknown _ hknown

/-! ## Runs -/

section

variable [DecidableEq ι]

/-- Nothing is written over a key that is reserved, and a key that is added is new. -/
def Safe (env : KeyPoolEnv K) (s : KeyPoolState ι K) : KeyPoolCall ι K → Prop
  | .GetReservedKey h =>
    (s.reserveKey h).nIndex = -1 → ∀ r ∈ s.topUpRecords env, ¬ s.Reserved r.1
  | .KeepKey _ => True
  | .ReturnKey _ => True
  | .TopUpKeyPool => ∀ r ∈ s.topUpRecords env, ¬ s.Reserved r.1
  | .NewKeyPool => ∀ r ∈ newRecords env, ¬ s.Reserved r.1
  | .AddReserveKey keypool =>
    s.setKeyPool ≠ ∅ ∧ ¬ s.Reserved (nEnd s.setKeyPool) ∧ ¬ s.toPool.Known keypool
  | .GetKeyFromPool _ => ∀ r ∈ s.topUpRecords env, ¬ s.Reserved r.1

/-- The key is reserved and not returned, or was kept. -/
def Taken (s : KeyPoolState ι K) (key : K) : Prop :=
  (∃ nIndex, s.Reserved nIndex ∧ s.pool nIndex = some key) ∨ key ∈ s.kept

omit [DecidableEq ι] in
/-- A key that is free after the pool was topped up is not taken. -/
theorem Lends.not_taken {s : KeyPoolState ι K} {env : KeyPoolEnv K}
    (h : (s.TopUpKeyPool env).Lends) (hres : ∀ r ∈ s.topUpRecords env, ¬ s.Reserved r.1)
    {nIndex : Int} (hmem : nIndex ∈ (s.TopUpKeyPool env).setKeyPool) {key : K}
    (hkey : (s.TopUpKeyPool env).pool nIndex = some key) : ¬ s.Taken key := by
  obtain ⟨hheld, hkept⟩ := h.sound.of_free hmem hkey
  obtain ⟨hreserve, hkeep⟩ := reserveKey_writeAll s (s.topUpRecords env)
  rw [← TopUpKeyPool_eq] at hreserve hkeep
  rintro (⟨i, ⟨hne, x, hx⟩, hi⟩ | hmem)
  · refine hheld x i (held_eq_some.2 ⟨hne, hreserve ▸ hx⟩) ?_
    change (s.TopUpKeyPool env).pool i = some key
    rw [TopUpKeyPool_eq, pool_writeAll, hi]
    rintro r hr rfl
    exact hres r hr ⟨hne, x, hx⟩
  · exact hkept (show key ∈ (s.TopUpKeyPool env).kept from hkeep ▸ hmem)

omit [DecidableEq ι] in
theorem Taken.known {s : KeyPoolState ι K} {key : K} (h : s.Taken key) : s.toPool.Known key :=
  h.imp_left fun ⟨nIndex, hres, hkey⟩ => ⟨nIndex, live_iff.2 (.inr hres), hkey⟩

theorem Lends.GetReservedKey {s : KeyPoolState ι K} (h : s.Lends) {env : KeyPoolEnv K}
    (hfresh : s.Fresh env) {x : ι} (hsafe : s.Safe env (.GetReservedKey x)) :
    (s.GetReservedKey env x).1.Lends ∧
      ∀ key, (s.GetReservedKey env x).2 = some key → ¬ s.Taken key := by
  unfold KeyPoolState.GetReservedKey
  by_cases hx : (s.reserveKey x).nIndex = -1
  case neg =>
    rw [if_neg hx]
    exact ⟨h, fun key hkey => (nomatch hkey)⟩
  have htop := h.topUp hfresh (hsafe hx)
  rw [if_pos hx]
  rcases htop.reserve with heq | ⟨nIndex, hmem, hne, heq⟩
  · simp only [heq, if_true]
    split
    · exact ⟨htop.idle x _, fun key hkey => (nomatch hkey)⟩
    · exact ⟨htop, fun key hkey => (nomatch hkey)⟩
  · simp only [heq, if_neg hne]
    refine ⟨htop.take x hmem _, fun key hkey => ?_⟩
    exact htop.not_taken (hsafe hx) hmem (Option.filter_eq_some_iff.1 hkey).1

omit [DecidableEq ι] in
theorem Lends.GetKeyFromPool {s : KeyPoolState ι K} (h : s.Lends) {env : KeyPoolEnv K}
    (hfresh : s.Fresh env) (fAllowReuse : Bool)
    (hsafe : ∀ r ∈ s.topUpRecords env, ¬ s.Reserved r.1) :
    (s.GetKeyFromPool env fAllowReuse).1.Lends ∧
      ∀ key, (s.GetKeyFromPool env fAllowReuse).2 = some key → ¬ s.Taken key := by
  have htop := h.topUp hfresh hsafe
  unfold KeyPoolState.GetKeyFromPool
  rcases htop.reserve with heq | ⟨nIndex, hmem, hne, heq⟩
  · simp only [heq, if_true]
    split
    · exact ⟨htop, fun key hkey => (nomatch hkey)⟩
    · refine ⟨htop.keepNew hfresh.unknown_after_topUp, ?_⟩
      rintro key hkey htaken
      cases hkey
      exact hfresh.unknown _ htaken.known
  · simp only [heq, if_neg hne]
    split
    · exact ⟨htop.lose nIndex, fun key hkey => (nomatch hkey)⟩
    · rename_i key' hkey'
      refine ⟨htop.keepFree hmem, ?_⟩
      rintro key hkey
      cases hkey
      exact htop.not_taken hsafe hmem (Option.filter_eq_some_iff.1 hkey').1

/-- A call keeps the keys apart, and what it hands out was not taken. -/
theorem Lends.step {s : KeyPoolState ι K} (h : s.Lends) {env : KeyPoolEnv K}
    (hfresh : s.Fresh env) {call : KeyPoolCall ι K} (hsafe : s.Safe env call)
    {s' : KeyPoolState ι K} {out : Option K} (hstep : s.step env call = some (s', out)) :
    s'.Lends ∧ ∀ key, out = some key → ¬ s.Taken key := by
  have hnothing : ∀ key, (none : Option K) = some key → ¬ s.Taken key :=
    fun key hkey => (nomatch hkey)
  cases call with
  | GetReservedKey x =>
    have hcall := h.GetReservedKey hfresh hsafe
    rwa [show s.GetReservedKey env x = (s', out) from Option.some.inj hstep] at hcall
  | KeepKey x =>
    cases hstep
    refine ⟨?_, hnothing⟩
    unfold keepReserved
    split
    · exact h.idle x none
    · rename_i hx
      exact h.keep hx none
  | ReturnKey x =>
    cases hstep
    refine ⟨?_, hnothing⟩
    unfold returnReserved
    split
    · exact h.idle x none
    · rename_i hx
      exact h.giveBack hx none
  | TopUpKeyPool =>
    cases hstep
    exact ⟨h.topUp hfresh hsafe, hnothing⟩
  | NewKeyPool =>
    cases hstep
    exact ⟨h.NewKeyPool hfresh hsafe, hnothing⟩
  | AddReserveKey keypool =>
    obtain ⟨hne, hres, hnew⟩ := hsafe
    have hadd : s.AddReserveKey keypool = some (s.writeAll [(nEnd s.setKeyPool, keypool)]) :=
      if_neg hne
    change (s.AddReserveKey keypool).map (fun s => (s, none)) = _ at hstep
    rw [hadd] at hstep
    cases hstep
    refine ⟨h.writeAll ⟨?_, ?_, List.nodup_singleton _, ?_⟩, hnothing⟩
    · simpa using hres
    · simpa using h.nEnd_pos
    · simpa using hnew
  | GetKeyFromPool fAllowReuse =>
    have hcall := h.GetKeyFromPool hfresh fAllowReuse hsafe
    rwa [show s.GetKeyFromPool env fAllowReuse = (s', out) from Option.some.inj hstep] at hcall

/-- A wallet as it is loaded: nothing is reserved, and the keys of the pool are apart. -/
structure Loaded (s : KeyPoolState ι K) : Prop where
  record : ∀ i ∈ s.setKeyPool, 0 < i ∧ (s.pool i).isSome
  distinct : ∀ i ∈ s.setKeyPool, ∀ j ∈ s.setKeyPool, s.pool i = s.pool j → i = j
  idle : ∀ h, (s.reserveKey h).nIndex = -1
  kept : s.kept = []

/-- The states of the runs whose calls are all safe. -/
inductive Reached (s₀ : KeyPoolState ι K) : KeyPoolState ι K → Prop
  | loaded : Reached s₀ s₀
  | call {s s' : KeyPoolState ι K} {env : KeyPoolEnv K} {call : KeyPoolCall ι K} {out : Option K}
      (hreached : Reached s₀ s) (hfresh : s.Fresh env) (hsafe : s.Safe env call)
      (hstep : s.step env call = some (s', out)) : Reached s₀ s'

end

/-! ## An empty pool -/

end KeyPoolState

end TriTip
