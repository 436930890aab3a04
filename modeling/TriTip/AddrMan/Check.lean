import TriTip.AddrMan.Invariant

/-!
# The address manager: `Check_`

The self-check of `addrman.cpp`, and what it tests: `Check_` returns 0 exactly when
`CheckConditions` holds (`Check_eq_zero_iff`), and it does so on every manager whose tables are an
address book and whose entries have no negative times (`Consistent.checkConditions`). `Consistent`
is what the tables of such a manager satisfy in any case, whatever the times are; `Structural` is
its part about the indexes.
-/

namespace TriTip

open Std

namespace CAddrMan

/-! ## The function -/

/-- One turn of the first loop: an error code, or 0. A missing `mapAddr[info]` reads as 0. -/
def CheckEntry (am : CAddrMan) (n : Int) (info : CAddrInfo) : Int :=
  if info.fInTried ∧ info.nLastSuccess = 0 then -1
  else if info.fInTried ∧ info.nRefCount ≠ 0 then -2
  else if ¬info.fInTried ∧
      (info.nRefCount < 0 ∨ (ADDRMAN_NEW_BUCKETS_PER_ADDRESS : Int) < info.nRefCount) then -3
  else if ¬info.fInTried ∧ info.nRefCount = 0 then -4
  else if (am.mapAddr info.toCNetAddr).getD 0 ≠ n then -5
  else if info.nRandomPos < 0 ∨ am.vRandom[info.nRandomPos.toNat]? ≠ some n then -14
  else if info.nLastTry < 0 then -6
  else if info.nLastSuccess < 0 then -8
  else 0

/-- The first loop, collecting the tried ids and the reference counts of the new ones. -/
def CheckEntries (am : CAddrMan) :
    List (Int × CAddrInfo) → ExtTreeSet Int compare → ExtTreeMap Int Int compare →
      Except Int (ExtTreeSet Int compare × ExtTreeMap Int Int compare)
  | [], setTried, mapNew => .ok (setTried, mapNew)
  | (n, info) :: rest, setTried, mapNew =>
    if am.CheckEntry n info ≠ 0 then .error (am.CheckEntry n info)
    else if info.fInTried then CheckEntries am rest (setTried.insert n) mapNew
    else CheckEntries am rest setTried (mapNew.insert n info.nRefCount)

/-- The loop over the tried buckets. -/
def CheckTried : List Int → ExtTreeSet Int compare → Except Int (ExtTreeSet Int compare)
  | [], setTried => .ok setTried
  | n :: rest, setTried =>
    if n ∈ setTried then CheckTried rest (setTried.erase n) else .error (-11)

/-- The loop over the new buckets. -/
def CheckNew : List Int → ExtTreeMap Int Int compare → Except Int (ExtTreeMap Int Int compare)
  | [], mapNew => .ok mapNew
  | n :: rest, mapNew =>
    match mapNew[n]? with
    | none => .error (-12)
    | some c =>
      if c - 1 = 0 then CheckNew rest (mapNew.erase n) else CheckNew rest (mapNew.insert n (c - 1))

/-- The ids in the tried buckets, bucket after bucket. -/
def triedIds (am : CAddrMan) : List Int :=
  (List.finRange ADDRMAN_TRIED_BUCKET_COUNT).flatMap am.vvTried

/-- The ids in the new buckets, bucket after bucket. -/
def newIds (am : CAddrMan) : List Int :=
  (List.finRange ADDRMAN_NEW_BUCKET_COUNT).flatMap fun b => (am.vvNew b).toList

def Check_ (am : CAddrMan) : Int :=
  if (am.vRandom.length : Int) ≠ am.nTried + am.nNew then -7
  else
    match am.CheckEntries am.mapInfo.toList ∅ ∅ with
    | .error code => code
    | .ok (setTried, mapNew) =>
      if (setTried.size : Int) ≠ am.nTried then -9
      else if (mapNew.size : Int) ≠ am.nNew then -10
      else
        match CheckTried am.triedIds setTried with
        | .error code => code
        | .ok setTried =>
          match CheckNew am.newIds mapNew with
          | .error code => code
          | .ok mapNew =>
            if setTried.size ≠ 0 then -13 else if mapNew.size ≠ 0 then -15 else 0

/-! ## What it tests -/

/-- In how many new buckets an id is. -/
def newCount (am : CAddrMan) (nId : Int) : Nat :=
  (Finset.univ.filter fun b => nId ∈ am.vvNew b).card

/-- What `Check_` asks of one entry. -/
structure EntryConditions (am : CAddrMan) (nId : Int) (info : CAddrInfo) : Prop where
  status : if info.fInTried then info.nLastSuccess ≠ 0 ∧ info.nRefCount = 0
    else 1 ≤ info.nRefCount ∧ info.nRefCount ≤ ADDRMAN_NEW_BUCKETS_PER_ADDRESS
  addr : (am.mapAddr info.toCNetAddr).getD 0 = nId
  pos : 0 ≤ info.nRandomPos ∧ am.vRandom[info.nRandomPos.toNat]? = some nId
  lastTry : 0 ≤ info.nLastTry
  lastSuccess : 0 ≤ info.nLastSuccess

/-- What `Check_` asks of the manager. -/
structure CheckConditions (am : CAddrMan) : Prop where
  size : (am.vRandom.length : Int) = am.nTried + am.nNew
  entry : ∀ {nId : Int} {info : CAddrInfo}, am.mapInfo[nId]? = some info →
    am.EntryConditions nId info
  nTried_eq : am.nTried = OrdMap.count (fun info => info.fInTried) am.mapInfo
  nNew_eq : am.nNew = OrdMap.count (fun info => !info.fInTried) am.mapInfo
  tried_nodup : am.triedIds.Nodup
  tried_mem : ∀ nId : Int, nId ∈ am.triedIds ↔
    ∃ info, am.mapInfo[nId]? = some info ∧ info.fInTried = true
  new_count : ∀ nId : Int, (am.newCount nId : Int) =
    (am.mapInfo[nId]?).elim 0 fun info => if info.fInTried then 0 else info.nRefCount

theorem CheckEntry_eq_zero_iff {am : CAddrMan} {nId : Int} {info : CAddrInfo} :
    am.CheckEntry nId info = 0 ↔ am.EntryConditions nId info := by
  unfold CheckEntry
  constructor
  · intro h
    split_ifs at h with h1 h2 h3 h4 h5 h6 h7 h8
    push Not at h5 h6
    refine ⟨?_, h5, h6, Int64.not_lt.1 h7, Int64.not_lt.1 h8⟩
    cases ht : info.fInTried
    · simp only [ht, Bool.false_eq_true, if_false, not_false_eq_true, true_and] at h3 h4 ⊢
      omega
    · simp only [ht, true_and, if_true] at h1 h2 ⊢
      exact ⟨h1, not_not.1 h2⟩
  · intro h
    have hs := h.status
    have h7 := Int64.not_lt.2 h.lastTry
    have h8 := Int64.not_lt.2 h.lastSuccess
    have h6 := Int.not_lt.2 h.pos.1
    cases ht : info.fInTried
    · simp only [ht, Bool.false_eq_true, if_false] at hs
      have hle : info.nRefCount ≤ 4 := hs.2
      have h3 : 0 ≤ info.nRefCount ∧ info.nRefCount ≤ 4 := by omega
      have h4 : info.nRefCount ≠ 0 := by omega
      simp [h3, h4, h.addr, h6, h.pos.2, h7, h8]
    · simp only [ht, if_true] at hs
      simp [hs.1, hs.2, h.addr, h6, h.pos.2, h7, h8]

/-- The first loop gets through when every entry passes; what it has collected then. -/
theorem CheckEntries_spec (am : CAddrMan) (l : List (Int × CAddrInfo))
    (hl : (l.map Prod.fst).Nodup) (s : ExtTreeSet Int compare) (m : ExtTreeMap Int Int compare) :
    (∀ {s' m'}, am.CheckEntries l s m = .ok (s', m') →
      (∀ e ∈ l, am.CheckEntry e.1 e.2 = 0) ∧
      (∀ k, k ∈ s' ↔ k ∈ s ∨ ∃ info, (k, info) ∈ l ∧ info.fInTried = true) ∧
      ∀ k c, m'[k]? = some c ↔
        (∃ info, (k, info) ∈ l ∧ info.fInTried = false ∧ info.nRefCount = c) ∨
        ((∀ info, (k, info) ∈ l → info.fInTried = true) ∧ m[k]? = some c)) ∧
    ((∀ e ∈ l, am.CheckEntry e.1 e.2 = 0) → ∃ r, am.CheckEntries l s m = .ok r) := by
  induction l generalizing s m with
  | nil =>
    refine ⟨fun h => ?_, fun _ => ⟨(s, m), rfl⟩⟩
    obtain ⟨rfl, rfl⟩ := Prod.mk.inj (Except.ok.inj h)
    simp
  | cons e rest ih =>
    obtain ⟨n, info⟩ := e
    rw [List.map_cons, List.nodup_cons] at hl
    have hfresh : ∀ i, (n, i) ∉ rest := fun i hi => hl.1 (List.mem_map.2 ⟨_, hi, rfl⟩)
    unfold CheckEntries
    by_cases hz : am.CheckEntry n info = 0
    swap
    · refine ⟨fun h => ?_, fun hall => absurd (hall _ List.mem_cons_self) hz⟩
      rw [if_pos hz] at h
      cases h
    rw [if_neg (not_not.2 hz)]
    cases ht : info.fInTried
    · rw [if_neg Bool.false_ne_true]
      obtain ⟨ih1, ih2⟩ := ih hl.2 s (m.insert n info.nRefCount)
      refine ⟨fun h => ?_, fun hall => ih2 fun e he => hall e (List.mem_cons_of_mem _ he)⟩
      obtain ⟨hz', hs', hm'⟩ := ih1 h
      refine ⟨fun e he => ?_, fun k => ?_, fun k c => ?_⟩
      · rcases List.mem_cons.1 he with rfl | he
        · exact hz
        · exact hz' e he
      · rw [hs']
        simp only [List.mem_cons, Prod.mk.injEq]
        constructor
        · rintro (hk | ⟨i, hi, hit⟩)
          · exact Or.inl hk
          · exact Or.inr ⟨i, Or.inr hi, hit⟩
        · rintro (hk | ⟨i, ⟨-, rfl⟩ | hi, hit⟩)
          · exact Or.inl hk
          · rw [ht] at hit
            cases hit
          · exact Or.inr ⟨i, hi, hit⟩
      · rw [hm']
        by_cases hk : n = k
        · subst hk
          simp [hfresh, ht]
        · simp [ExtTreeMap.getElem?_insert, hk, Ne.symm hk]
    · rw [if_pos rfl]
      obtain ⟨ih1, ih2⟩ := ih hl.2 (s.insert n) m
      refine ⟨fun h => ?_, fun hall => ih2 fun e he => hall e (List.mem_cons_of_mem _ he)⟩
      obtain ⟨hz', hs', hm'⟩ := ih1 h
      refine ⟨fun e he => ?_, fun k => ?_, fun k c => ?_⟩
      · rcases List.mem_cons.1 he with rfl | he
        · exact hz
        · exact hz' e he
      · rw [hs', ExtTreeSet.mem_insert]
        by_cases hk : n = k
        · subst hk
          simp [ht]
        · simp [hk, Ne.symm hk]
      · rw [hm']
        by_cases hk : n = k
        · subst hk
          simp [hfresh, ht]
        · simp [Ne.symm hk]

/-- The loop over the tried buckets removes each id once: nothing is left if and only if the buckets
list the set without repetition. -/
theorem CheckTried_iff (l : List Int) (s : ExtTreeSet Int compare) :
    (∃ s', CheckTried l s = .ok s' ∧ s'.size = 0) ↔ l.Nodup ∧ ∀ k, k ∈ l ↔ k ∈ s := by
  induction l generalizing s with
  | nil =>
    simp only [CheckTried, Except.ok.injEq, exists_eq_left', List.nodup_nil, List.not_mem_nil,
      false_iff, true_and]
    constructor
    · intro h k hk
      rw [ExtTreeSet.eq_empty_iff_size_eq_zero.2 h] at hk
      exact ExtTreeSet.not_mem_empty hk
    · intro h
      refine ExtTreeSet.eq_empty_iff_size_eq_zero.1 (ExtTreeSet.ext_mem fun k => ?_)
      simp [h k]
  | cons n rest ih =>
    unfold CheckTried
    by_cases hn : n ∈ s
    · rw [if_pos hn, ih, List.nodup_cons]
      simp only [ExtTreeSet.mem_erase, List.mem_cons, LawfulEqCmp.compare_eq_iff_eq, ne_eq]
      constructor
      · rintro ⟨hnd, h⟩
        have hnot : n ∉ rest := fun hc => ((h n).1 hc).1 rfl
        refine ⟨⟨hnot, hnd⟩, fun k => ?_⟩
        by_cases hk : k = n
        · subst hk
          simp [hn]
        · simp [hk, h, Ne.symm hk]
      · rintro ⟨⟨hnot, hnd⟩, h⟩
        refine ⟨hnd, fun k => ?_⟩
        by_cases hk : k = n
        · subst hk
          simp [hnot]
        · have := h k
          simpa [hk, Ne.symm hk] using this
    · rw [if_neg hn]
      constructor
      · rintro ⟨s', hs', -⟩
        cases hs'
      · rintro ⟨-, h⟩
        exact absurd ((h n).1 List.mem_cons_self) hn

/-- The loop over the new buckets counts each id down: nothing is left if and only if the buckets
list every id as often as it is counted. -/
theorem CheckNew_iff (l : List Int) (m : ExtTreeMap Int Int compare)
    (hpos : ∀ {k c : Int}, m[k]? = some c → 0 < c) :
    (∃ m', CheckNew l m = .ok m' ∧ m'.size = 0) ↔ ∀ k, (l.count k : Int) = (m[k]?).getD 0 := by
  induction l generalizing m with
  | nil =>
    simp only [CheckNew, Except.ok.injEq, exists_eq_left', List.count_nil, Nat.cast_zero]
    constructor
    · intro h k
      rw [ExtTreeMap.eq_empty_iff_size_eq_zero.2 h]
      rfl
    · intro h
      refine ExtTreeMap.eq_empty_iff_size_eq_zero.1 (ExtTreeMap.ext_getElem? fun k => ?_)
      cases hk : m[k]? with
      | none => rfl
      | some c =>
        have := h k
        have := hpos hk
        simp [hk] at *
        omega
  | cons n rest ih =>
    unfold CheckNew
    cases hn : m[n]? with
    | none =>
      constructor
      · rintro ⟨m', hm', -⟩
        cases hm'
      · intro h
        have := h n
        rw [hn, List.count_cons_self, Option.getD_none] at this
        omega
    | some c =>
      have hc := hpos hn
      -- the count of `n` goes down by one, either way
      have hstep : ∀ m₁ : ExtTreeMap Int Int compare,
          (∀ k, (m₁[k]?).getD 0 = (m[k]?).getD 0 - if k = n then 1 else 0) →
          ((∀ k, (rest.count k : Int) = (m₁[k]?).getD 0) ↔
            ∀ k, ((n :: rest).count k : Int) = (m[k]?).getD 0) := by
        intro m₁ h₁
        refine forall_congr' fun k => ?_
        rw [h₁ k, List.count_cons]
        by_cases hk : k = n
        · subst hk
          simp
          omega
        · simp [hk, Ne.symm hk]
      dsimp only
      by_cases hlast : c - 1 = 0
      · rw [if_pos hlast, ih _ (fun {k d} hk => ?_), hstep]
        · intro k
          rw [ExtTreeMap.getElem?_erase]
          by_cases hk : k = n
          · subst hk
            simp [hn]
            omega
          · simp [hk, Ne.symm hk]
        · rw [ExtTreeMap.getElem?_erase] at hk
          split at hk
          · cases hk
          · exact hpos hk
      · rw [if_neg hlast, ih _ (fun {k d} hk => ?_), hstep]
        · intro k
          rw [ExtTreeMap.getElem?_insert]
          by_cases hk : k = n
          · subst hk
            simp [hn]
          · simp [hk, Ne.symm hk]
        · rw [ExtTreeMap.getElem?_insert] at hk
          split at hk
          · obtain rfl := Option.some.inj hk
            omega
          · exact hpos hk

theorem mem_triedIds {am : CAddrMan} {nId : Int} : nId ∈ am.triedIds ↔ ∃ t, nId ∈ am.vvTried t := by
  simp [triedIds]

theorem count_newIds (am : CAddrMan) (nId : Int) : am.newIds.count nId = am.newCount nId := by
  have hone : ∀ b, (am.vvNew b).toList.count nId = if nId ∈ am.vvNew b then 1 else 0 := by
    intro b
    rw [(OrdMap.set_toList_nodup _).count]
    simp
  unfold newIds newCount
  rw [List.count_flatMap, Finset.card_filter, ← List.sum_ofFn, List.ofFn_eq_map]
  exact congrArg List.sum (List.map_congr_left fun b _ => hone b)

theorem CheckEntries_error {am : CAddrMan} {l : List (Int × CAddrInfo)}
    {s : ExtTreeSet Int compare} {m : ExtTreeMap Int Int compare} {code : Int}
    (h : am.CheckEntries l s m = .error code) : code ≠ 0 := by
  induction l generalizing s m with
  | nil => cases h
  | cons e rest ih =>
    obtain ⟨n, info⟩ := e
    unfold CheckEntries at h
    split_ifs at h with hz ht
    · obtain rfl := Except.error.inj h
      exact hz
    · exact ih h
    · exact ih h

theorem CheckTried_error {l : List Int} {s : ExtTreeSet Int compare} {code : Int}
    (h : CheckTried l s = .error code) : code ≠ 0 := by
  induction l generalizing s with
  | nil => cases h
  | cons n rest ih =>
    unfold CheckTried at h
    split_ifs at h
    · exact ih h
    · obtain rfl := Except.error.inj h
      decide

theorem CheckNew_error {l : List Int} {m : ExtTreeMap Int Int compare} {code : Int}
    (h : CheckNew l m = .error code) : code ≠ 0 := by
  induction l generalizing m with
  | nil => cases h
  | cons n rest ih =>
    unfold CheckNew at h
    split at h
    · obtain rfl := Except.error.inj h
      decide
    · split_ifs at h
      · exact ih h
      · exact ih h

/-- `Check_` returns 0 when it gets through its three loops with the right sizes. -/
theorem Check_eq_zero_iff_loops {am : CAddrMan} :
    am.Check_ = 0 ↔ (am.vRandom.length : Int) = am.nTried + am.nNew ∧
      ∃ s m, am.CheckEntries am.mapInfo.toList ∅ ∅ = .ok (s, m) ∧
        (s.size : Int) = am.nTried ∧ (m.size : Int) = am.nNew ∧
        (∃ s', CheckTried am.triedIds s = .ok s' ∧ s'.size = 0) ∧
        ∃ m', CheckNew am.newIds m = .ok m' ∧ m'.size = 0 := by
  unfold Check_
  by_cases h1 : (am.vRandom.length : Int) = am.nTried + am.nNew
  swap
  · simp [h1]
  rw [if_neg (not_not.2 h1)]
  cases he : am.CheckEntries am.mapInfo.toList ∅ ∅ with
  | error code => simp [CheckEntries_error he]
  | ok r =>
    obtain ⟨s, m⟩ := r
    by_cases h2 : (s.size : Int) = am.nTried
    swap
    · simp [h2]
    by_cases h3 : (m.size : Int) = am.nNew
    swap
    · simp [h2, h3]
    cases ht : CheckTried am.triedIds s with
    | error code => simp [h1, h2, h3, ht, CheckTried_error ht]
    | ok s' =>
      cases hn : CheckNew am.newIds m with
      | error code => simp [h1, h2, h3, ht, hn, CheckNew_error hn]
      | ok m' =>
        by_cases h4 : s'.size = 0
        · by_cases h5 : m'.size = 0 <;> simp [h1, h2, h3, ht, hn, h4, h5]
        · simp [h1, h2, h3, ht, hn, h4]

/-- What the two collections are once the first loop is through. -/
theorem CheckEntries_collected {am : CAddrMan} {s : ExtTreeSet Int compare}
    {m : ExtTreeMap Int Int compare} (h : am.CheckEntries am.mapInfo.toList ∅ ∅ = .ok (s, m)) :
    (∀ {nId : Int} {info : CAddrInfo}, am.mapInfo[nId]? = some info →
      am.EntryConditions nId info) ∧
    (∀ k, k ∈ s ↔ ∃ info, am.mapInfo[k]? = some info ∧ info.fInTried = true) ∧
    ∀ k c : Int, m[k]? = some c ↔ ∃ info, am.mapInfo[k]? = some info ∧
      info.fInTried = false ∧ info.nRefCount = c := by
  obtain ⟨hz, hs, hm⟩ := (CheckEntries_spec am _ (OrdMap.toList_keys_nodup _) ∅ ∅).1 h
  refine ⟨fun {nId info} hi => ?_, fun k => ?_, fun k c => ?_⟩
  · have hmem := ExtTreeMap.mem_toList_iff_getElem?_eq_some.2 hi
    exact CheckEntry_eq_zero_iff.1 (hz (nId, info) hmem)
  · simpa [ExtTreeMap.mem_toList_iff_getElem?_eq_some] using hs k
  · simpa [ExtTreeMap.mem_toList_iff_getElem?_eq_some] using hm k c

/-- The collected reference counts, read as a function of the id. -/
theorem CheckEntries_refs {am : CAddrMan} {m : ExtTreeMap Int Int compare}
    (hm : ∀ k c : Int, m[k]? = some c ↔ ∃ info, am.mapInfo[k]? = some info ∧
      info.fInTried = false ∧ info.nRefCount = c) (k : Int) :
    (m[k]?).getD 0 =
      (am.mapInfo[k]?).elim 0 fun info => if info.fInTried then 0 else info.nRefCount := by
  cases hk : m[k]? with
  | some c =>
    obtain ⟨info, hi, ht, rfl⟩ := (hm k c).1 hk
    simp [hi, ht]
  | none =>
    cases hi : am.mapInfo[k]? with
    | none => rfl
    | some info =>
      cases ht : info.fInTried
      · rw [(hm k info.nRefCount).2 ⟨info, hi, ht, rfl⟩] at hk
        cases hk
      · simp [ht]

/-- **`Check_` tests its conditions.** -/
theorem Check_eq_zero_iff {am : CAddrMan} : am.Check_ = 0 ↔ am.CheckConditions := by
  -- the sizes and the counts of the two collections
  have hcollect : ∀ {s m}, am.CheckEntries am.mapInfo.toList ∅ ∅ = .ok (s, m) →
      s.size = OrdMap.count (fun info => info.fInTried) am.mapInfo ∧
      m.size = OrdMap.count (fun info => !info.fInTried) am.mapInfo ∧
      ∀ {k c : Int}, m[k]? = some c → 0 < c := by
    intro s m h
    obtain ⟨hentry, hs, hm⟩ := CheckEntries_collected h
    refine ⟨OrdMap.set_size_eq_count hs, OrdMap.map_size_eq_count fun k => ?_, fun {k c} hk => ?_⟩
    · rw [ExtTreeMap.mem_iff_isSome_getElem?, Option.isSome_iff_exists]
      simp [hm]
    · obtain ⟨info, hi, ht, rfl⟩ := (hm k c).1 hk
      have hst := (hentry hi).status
      simp only [ht, Bool.false_eq_true, if_false] at hst
      omega
  rw [Check_eq_zero_iff_loops]
  constructor
  · rintro ⟨h1, s, m, he, hs, hm, htried, hnew⟩
    obtain ⟨hentry, hmem, hrefs⟩ := CheckEntries_collected he
    obtain ⟨hsize, hsize', hpos⟩ := hcollect he
    obtain ⟨hnd, htm⟩ := (CheckTried_iff _ _).1 htried
    refine ⟨h1, hentry, by rw [← hs, hsize], by rw [← hm, hsize'], hnd, fun k => ?_, fun k => ?_⟩
    · rw [htm, hmem]
    · rw [← count_newIds, (CheckNew_iff _ _ hpos).1 hnew, CheckEntries_refs hrefs]
  · intro h
    obtain ⟨⟨s, m⟩, he⟩ := (CheckEntries_spec am _ (OrdMap.toList_keys_nodup _) ∅ ∅).2
      fun e hin => CheckEntry_eq_zero_iff.2
        (h.entry (ExtTreeMap.mem_toList_iff_getElem?_eq_some.1 hin))
    obtain ⟨-, hmem, hrefs⟩ := CheckEntries_collected he
    obtain ⟨hsize, hsize', hpos⟩ := hcollect he
    refine ⟨h.size, s, m, he, ?_, ?_, (CheckTried_iff _ _).2 ⟨h.tried_nodup, fun k => ?_⟩,
      (CheckNew_iff _ _ hpos).2 fun k => ?_⟩
    · rw [h.nTried_eq, hsize]
    · rw [h.nNew_eq, hsize']
    · rw [h.tried_mem, hmem]
    · rw [count_newIds, h.new_count, CheckEntries_refs hrefs]

namespace CheckConditions

variable {am : CAddrMan} (h : am.CheckConditions)
include h

theorem length_vRandom : am.vRandom.length = am.mapInfo.size := by
  have hcount := OrdMap.count_add_count_not (fun info : CAddrInfo => info.fInTried) am.mapInfo
  have hsize := h.size
  rw [h.nTried_eq, h.nNew_eq] at hsize
  omega

/-- As many positions as ids, and every id at one of them: `vRandom` lists the ids once. -/
theorem keys_perm : am.mapInfo.keys.Perm am.vRandom := by
  have hnodup : am.mapInfo.keys.Nodup := ExtTreeMap.nodup_keys
  have hsub : am.mapInfo.keys ⊆ am.vRandom := by
    intro nId hmem
    rw [ExtTreeMap.mem_keys, ExtTreeMap.mem_iff_isSome_getElem?, Option.isSome_iff_exists] at hmem
    obtain ⟨info, hi⟩ := hmem
    exact List.mem_of_getElem? (h.entry hi).pos.2
  apply (List.subperm_of_subset hnodup hsub).perm_of_length_le
  rw [h.length_vRandom, ExtTreeMap.length_keys]

theorem positioned : am.Positioned where
  nodup := h.keys_perm.nodup_iff.1 ExtTreeMap.nodup_keys
  known := by
    intro nId hmem
    rw [← h.keys_perm.mem_iff, ExtTreeMap.mem_keys, ExtTreeMap.mem_iff_isSome_getElem?,
      Option.isSome_iff_exists] at hmem
    exact hmem
  pos := fun hi => (h.entry hi).pos

/-- Two entries never have the same address. -/
theorem addr_inj {nId nId' : Int} {info info' : CAddrInfo} (hi : am.mapInfo[nId]? = some info)
    (hi' : am.mapInfo[nId']? = some info') (ha : info.toCNetAddr = info'.toCNetAddr) :
    nId = nId' := by
  rw [← (h.entry hi).addr, ← (h.entry hi').addr, ha]

end CheckConditions

/-! ## Consistent tables -/

/-- The six tables agree with each other. -/
structure Structural (am : CAddrMan) : Prop where
  vRandom_perm : am.vRandom.Perm am.mapInfo.keys
  nRandomPos : ∀ {nId : Int} {info : CAddrInfo}, am.mapInfo[nId]? = some info →
    0 ≤ info.nRandomPos ∧ am.vRandom[info.nRandomPos.toNat]? = some nId
  mapAddr_iff : ∀ {a : CNetAddr} {nId : Int}, am.mapAddr a = some nId ↔
    ∃ info, am.mapInfo[nId]? = some info ∧ info.toCNetAddr = a
  tried_entry : ∀ {nId : Int} {info : CAddrInfo}, am.mapInfo[nId]? = some info →
    info.fInTried = true → info.nRefCount = 0 ∧
      ∃ t, ∀ t', (am.vvTried t').count nId = if t' = t then 1 else 0
  new_entry : ∀ {nId : Int} {info : CAddrInfo}, am.mapInfo[nId]? = some info →
    info.fInTried = false → info.nRefCount = am.newCount nId ∧ 1 ≤ info.nRefCount ∧
      info.nRefCount ≤ ADDRMAN_NEW_BUCKETS_PER_ADDRESS
  tried_known : ∀ {nId : Int} {t}, nId ∈ am.vvTried t →
    ∃ info, am.mapInfo[nId]? = some info ∧ info.fInTried = true
  new_known : ∀ {nId : Int} {b}, nId ∈ am.vvNew b →
    ∃ info, am.mapInfo[nId]? = some info ∧ info.fInTried = false
  nNew_eq : am.nNew = OrdMap.count (fun info => !info.fInTried) am.mapInfo
  nTried_eq : am.nTried = OrdMap.count (fun info => info.fInTried) am.mapInfo

/-- The tables agree, and an entry is only in tried after a success. -/
structure Consistent (am : CAddrMan) : Prop extends am.Structural where
  tried_success : ∀ {nId : Int} {info : CAddrInfo}, am.mapInfo[nId]? = some info →
    info.fInTried = true → info.nLastSuccess ≠ 0

variable {am : CAddrMan} {strict : Prop} {book : AddrBook}

theorem Indexed.vRandom_perm (h : am.Indexed) : am.vRandom.Perm am.mapInfo.keys := by
  have hkeys : am.mapInfo.keys.Nodup := ExtTreeMap.nodup_keys
  refine (List.perm_ext_iff_of_nodup h.nodup hkeys).2 fun k => ?_
  rw [ExtTreeMap.mem_keys, ExtTreeMap.mem_iff_isSome_getElem?, Option.isSome_iff_exists]
  exact ⟨h.known, fun ⟨_, hi⟩ => List.mem_of_getElem? (h.pos hi).2⟩

/-- The number of new buckets an id is in is the number its place says. -/
theorem Holds.newCount_eq (h : am.Holds book none) (nId : Int) :
    am.newCount nId = (book.newBuckets nId).card := by
  unfold newCount
  congr 1
  ext b
  simp [h.new_mem]

/-- Tables that are an address book agree with each other. -/
theorem Tables.consistent (h : am.Tables strict book none) : am.Consistent where
  vRandom_perm := h.indexed.vRandom_perm
  nRandomPos := h.indexed.pos
  mapAddr_iff := h.indexed.addr
  tried_entry := by
    intro nId info hi ht
    obtain ⟨t, hp⟩ := h.holds.place_tried hi ht
    obtain ⟨i, hi', -, hrefs⟩ := h.holds.entry_of_place hp
    rw [hi] at hi'
    obtain rfl := Option.some.inj hi'
    refine ⟨hrefs, t, fun t' => ?_⟩
    have hmem := h.holds.tried_mem t' nId
    rw [hp, Option.some.injEq, Place.tried.injEq, eq_comm] at hmem
    rw [(h.holds.tried_nodup t').count]
    simp only [hmem]
  new_entry := by
    intro nId info hi ht
    obtain ⟨bs, pos, le, hp, hrefs⟩ := h.holds.place_new hi ht
    rw [h.holds.newCount_eq, Book.newBuckets_of_some hp, Place.buckets_new]
    exact ⟨hrefs, by omega, by rw [hrefs]; exact Int.ofNat_le.2 le⟩
  tried_known := h.holds.of_mem_tried
  new_known := by
    intro nId b hm
    obtain ⟨-, -, -, info, -, -, hi, ht, -⟩ := h.holds.of_mem_new hm
    exact ⟨info, hi, ht⟩
  nNew_eq := h.nNew_eq
  nTried_eq := h.nTried_eq
  tried_success hi ht := (h.times hi).tried ht

/-- Consistent tables whose entries have no negative times pass `Check_`. -/
theorem Consistent.checkConditions (h : am.Consistent)
    (htimes : ∀ {nId : Int} {info : CAddrInfo}, am.mapInfo[nId]? = some info →
      0 ≤ info.nLastTry ∧ 0 ≤ info.nLastSuccess) : am.CheckConditions where
  size := by
    have hcount := OrdMap.count_add_count_not (fun info : CAddrInfo => info.fInTried) am.mapInfo
    have hlen := h.vRandom_perm.length_eq
    rw [ExtTreeMap.length_keys] at hlen
    rw [h.nNew_eq, h.nTried_eq, hlen, ← hcount]
    push_cast
    rfl
  entry := by
    intro nId info hi
    refine ⟨?_, ?_, h.nRandomPos hi, (htimes hi).1, (htimes hi).2⟩
    · cases ht : info.fInTried
      · exact (h.new_entry hi ht).2
      · exact ⟨h.tried_success hi ht, (h.tried_entry hi ht).1⟩
    · rw [h.mapAddr_iff.2 ⟨info, hi, rfl⟩, Option.getD_some]
  nTried_eq := h.nTried_eq
  nNew_eq := h.nNew_eq
  tried_nodup := by
    have hone : ∀ {nId : Int} {t}, nId ∈ am.vvTried t →
        ∃ t₀, ∀ t', (am.vvTried t').count nId = if t' = t₀ then 1 else 0 := by
      intro nId t hm
      obtain ⟨info, hi, ht⟩ := h.tried_known hm
      exact (h.tried_entry hi ht).2
    refine List.nodup_flatMap.2 ⟨fun t _ => List.nodup_iff_count_le_one.2 fun nId => ?_, ?_⟩
    · by_cases hm : nId ∈ am.vvTried t
      · obtain ⟨t₀, hc⟩ := hone hm
        rw [hc t]
        split <;> omega
      · rw [List.count_eq_zero_of_not_mem hm]
        omega
    · refine (List.nodup_finRange _).imp fun {t t'} hne nId hm hm' => ?_
      obtain ⟨t₀, hc⟩ := hone hm
      have h1 := List.count_pos_iff.2 hm
      have h2 := List.count_pos_iff.2 hm'
      rw [hc] at h1 h2
      have e1 : t = t₀ := by
        by_contra hc'
        simp [hc'] at h1
      have e2 : t' = t₀ := by
        by_contra hc'
        simp [hc'] at h2
      exact hne (e1.trans e2.symm)
  tried_mem := by
    intro nId
    rw [mem_triedIds]
    constructor
    · rintro ⟨t, hm⟩
      exact h.tried_known hm
    · rintro ⟨info, hi, ht⟩
      obtain ⟨-, t, hc⟩ := h.tried_entry hi ht
      exact ⟨t, List.count_pos_iff.1 (by rw [hc, if_pos rfl]; exact Nat.one_pos)⟩
  new_count := by
    intro nId
    have hzero : (∀ b, nId ∉ am.vvNew b) → am.newCount nId = 0 := by
      intro hno
      simp [newCount, hno]
    cases hi : am.mapInfo[nId]? with
    | none =>
      refine Int.ofNat_eq_zero.2 (hzero fun b hm => ?_)
      obtain ⟨info, hi', -⟩ := h.new_known hm
      rw [hi] at hi'
      cases hi'
    | some info =>
      cases ht : info.fInTried
      · rw [← (h.new_entry hi ht).1]
        simp [ht]
      · rw [hzero fun b hm => ?_]
        · simp [ht]
        · obtain ⟨info', hi', ht'⟩ := h.new_known hm
          rw [hi] at hi'
          obtain rfl := Option.some.inj hi'
          rw [ht] at ht'
          cases ht'

end CAddrMan

end TriTip
