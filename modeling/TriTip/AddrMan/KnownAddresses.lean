import TriTip.AddrMan.Shuffles

/-!
# The address manager: which addresses it knows

Only `Add_` makes an address known, and only to make room in a full new bucket does it forget one,
which was in no other bucket. The other calls move entries between the tables and keep all of them;
after `Good_` the entry is in the tried bucket that its hash gives. This is said of every state that
passes `Check_` (`knownAddresses_frame`), with the two facts that `Check_` does not test where they
are needed: that tried entries are in the buckets their hashes give, and that the next id is not in
use. Every reachable state has them (`reachable_hashed`).

The lemmas say what a function does to each entry, by its address and its table (`placeOf`).
-/

namespace TriTip

open Std

namespace CAddrMan

variable {am : CAddrMan} {nId : Int} {info : CAddrInfo}

/-- The service of an entry, and whether it is in the tried table. -/
def placeOf (am : CAddrMan) (nId : Int) : Option (CService × Bool) :=
  (am.mapInfo[nId]?).map fun info => (info.toCService, info.fInTried)

/-- The network addresses that have an entry. -/
def knownAddresses (am : CAddrMan) : Set CNetAddr :=
  {a | ∃ (nId : Int) (info : CAddrInfo), am.mapInfo[nId]? = some info ∧ info.toCNetAddr = a}

/-- Every tried entry is in the bucket that its hash gives. -/
def Hashed (H : BucketHash) (am : CAddrMan) : Prop :=
  ∀ (nId : Int) (info : CAddrInfo), am.mapInfo[nId]? = some info → info.fInTried = true →
    nId ∈ am.vvTried (info.GetTriedBucket H am.nKey)

/-- The next id has no entry. -/
def NextIdUnused (am : CAddrMan) : Prop := am.mapInfo[am.nIdCount]? = none

/-- What the functions rely on: positions, the address index, and buckets of known ids that are
counted. -/
structure Filed (am : CAddrMan) : Prop extends am.Positioned where
  addr : ∀ {nId : Int} {info : CAddrInfo}, am.mapInfo[nId]? = some info →
    (am.mapAddr info.toCNetAddr).getD 0 = nId
  tried_known : ∀ {nId : Int} {t}, nId ∈ am.vvTried t →
    ∃ info, am.mapInfo[nId]? = some info ∧ info.fInTried = true
  new_known : ∀ {nId : Int} {b}, nId ∈ am.vvNew b →
    ∃ info, am.mapInfo[nId]? = some info ∧ info.fInTried = false
  new_count : ∀ {nId : Int} {info : CAddrInfo}, am.mapInfo[nId]? = some info →
    info.fInTried = false → info.nRefCount = am.newCount nId ∧ 0 < am.newCount nId

theorem Consistent.filed (h : am.Consistent) : am.Filed where
  nodup := h.vRandom_perm.nodup_iff.2 ExtTreeMap.nodup_keys
  known := by
    intro nId hmem
    rw [h.vRandom_perm.mem_iff, ExtTreeMap.mem_keys, ExtTreeMap.mem_iff_isSome_getElem?,
      Option.isSome_iff_exists] at hmem
    exact hmem
  pos := h.nRandomPos
  addr := by
    intro nId info hi
    rw [h.mapAddr_iff.2 ⟨info, hi, rfl⟩, Option.getD_some]
  tried_known := h.tried_known
  new_known := h.new_known
  new_count := by
    intro nId info hi ht
    obtain ⟨hcount, hpos, -⟩ := h.new_entry hi ht
    exact ⟨hcount, by omega⟩

theorem newCount_pos_iff : 0 < am.newCount nId ↔ ∃ b, nId ∈ am.vvNew b := by
  unfold newCount
  rw [Finset.card_pos]
  constructor
  · rintro ⟨b, hb⟩
    exact ⟨b, (Finset.mem_filter.1 hb).2⟩
  · rintro ⟨b, hb⟩
    exact ⟨b, Finset.mem_filter.2 ⟨Finset.mem_univ b, hb⟩⟩

/-- An id that is in one new bucket. -/
theorem mem_vvNew_iff_of_newCount (h : am.newCount nId = 1) {b : Fin ADDRMAN_NEW_BUCKET_COUNT}
    (hb : nId ∈ am.vvNew b) (b' : Fin ADDRMAN_NEW_BUCKET_COUNT) : nId ∈ am.vvNew b' ↔ b' = b := by
  refine ⟨fun hb' => ?_, fun heq => heq ▸ hb⟩
  unfold newCount at h
  exact Finset.card_le_one.1 h.le b' (Finset.mem_filter.2 ⟨Finset.mem_univ b', hb'⟩) b
    (Finset.mem_filter.2 ⟨Finset.mem_univ b, hb⟩)

theorem CheckConditions.filed (h : am.CheckConditions) : am.Filed where
  toPositioned := h.positioned
  addr := fun hi => (h.entry hi).addr
  tried_known := fun hm => (h.tried_mem _).1 (mem_triedIds.2 ⟨_, hm⟩)
  new_known := by
    intro nId b hm
    have hpos := newCount_pos_iff.2 ⟨b, hm⟩
    have hcount := h.new_count nId
    cases hi : am.mapInfo[nId]? with
    | none =>
      rw [hi, Option.elim_none] at hcount
      omega
    | some info =>
      rw [hi, Option.elim_some] at hcount
      cases ht : info.fInTried with
      | false => exact ⟨info, rfl, ht⟩
      | true =>
        rw [ht, if_pos rfl] at hcount
        omega
  new_count := by
    intro nId info hi ht
    have hcount := h.new_count nId
    have hstatus := (h.entry hi).status
    rw [hi, Option.elim_some, ht, if_neg Bool.false_ne_true] at hcount
    rw [ht, if_neg Bool.false_ne_true] at hstatus
    exact ⟨hcount.symm, by omega⟩

/-! ## Entries that keep their places -/

theorem placeOf_of_some (h : am.mapInfo[nId]? = some info) :
    am.placeOf nId = some (info.toCService, info.fInTried) := by
  unfold placeOf
  rw [h, Option.map_some]

theorem placeOf_eq_some_iff {s : CService} {fInTried : Bool} :
    am.placeOf nId = some (s, fInTried) ↔
      ∃ info, am.mapInfo[nId]? = some info ∧ info.toCService = s ∧ info.fInTried = fInTried := by
  unfold placeOf
  rw [Option.map_eq_some_iff]
  simp only [Prod.mk.injEq]

theorem mem_knownAddresses {a : CNetAddr} :
    a ∈ am.knownAddresses ↔ ∃ nId s, (am.placeOf nId).map Prod.fst = some s ∧ s.toCNetAddr = a := by
  constructor
  · rintro ⟨nId, info, hi, ha⟩
    exact ⟨nId, info.toCService, by rw [placeOf_of_some hi, Option.map_some], ha⟩
  · rintro ⟨nId, s, hp, ha⟩
    obtain ⟨⟨s', fInTried⟩, hplace, rfl⟩ := Option.map_eq_some_iff.1 hp
    obtain ⟨info, hi, rfl, -⟩ := placeOf_eq_some_iff.1 hplace
    exact ⟨nId, info, hi, ha⟩

/-- The known addresses do not depend on the tables. -/
theorem knownAddresses_congr {am' : CAddrMan}
    (h : ∀ nId, (am'.placeOf nId).map Prod.fst = (am.placeOf nId).map Prod.fst) :
    am'.knownAddresses = am.knownAddresses := by
  ext a
  simp only [mem_knownAddresses, h]

theorem hashed_iff {H : BucketHash} :
    am.Hashed H ↔
      ∀ nId s, am.placeOf nId = some (s, true) → nId ∈ am.vvTried (H.tried am.nKey s) := by
  constructor
  · intro h nId s hp
    obtain ⟨info, hi, rfl, ht⟩ := placeOf_eq_some_iff.1 hp
    exact h nId info hi ht
  · intro h nId info hi ht
    exact h nId _ (ht ▸ placeOf_of_some hi)

theorem placeOf_setInfo (k : Int) : (am.setInfo nId info).placeOf k =
    if nId = k then some (info.toCService, info.fInTried) else am.placeOf k := by
  unfold placeOf
  rw [setInfo_mapInfo]
  split <;> rfl

/-- A write that keeps service and table. -/
theorem placeOf_setInfo_same {info' : CAddrInfo} (hi : am.mapInfo[nId]? = some info)
    (hs : info'.toCService = info.toCService) (ht : info'.fInTried = info.fInTried) (k : Int) :
    (am.setInfo nId info').placeOf k = am.placeOf k := by
  rw [placeOf_setInfo]
  split
  · next heq => rw [← heq, placeOf_of_some hi, hs, ht]
  · rfl

/-- The addresses and the places stay. -/
structure Keeps (am am' : CAddrMan) : Prop where
  nKey : am'.nKey = am.nKey
  placeOf : ∀ nId, am'.placeOf nId = am.placeOf nId
  vvTried : am'.vvTried = am.vvTried

theorem Keeps.knownAddresses {am' : CAddrMan} (h : am.Keeps am') :
    am'.knownAddresses = am.knownAddresses :=
  knownAddresses_congr fun nId => by rw [h.placeOf]

theorem Keeps.hashed {am' : CAddrMan} {H : BucketHash} (h : am.Keeps am') (hH : am.Hashed H) :
    am'.Hashed H := by
  rw [hashed_iff] at hH ⊢
  simpa only [h.placeOf, h.vvTried, h.nKey] using hH

theorem keeps_refl (am : CAddrMan) : am.Keeps am := ⟨rfl, fun _ => rfl, rfl⟩

theorem keeps_setInfo {info' : CAddrInfo} (hi : am.mapInfo[nId]? = some info)
    (hs : info'.toCService = info.toCService) (ht : info'.fInTried = info.fInTried) :
    am.Keeps (am.setInfo nId info') :=
  ⟨rfl, placeOf_setInfo_same hi hs ht, rfl⟩

/-- An entry that keeps its place is in the same table. -/
theorem Keeps.entry {am' : CAddrMan} (h : am.Keeps am') (hi : am.mapInfo[nId]? = some info) :
    ∃ info', am'.mapInfo[nId]? = some info' ∧ info'.fInTried = info.fInTried := by
  have hplace := (h.placeOf nId).trans (placeOf_of_some hi)
  obtain ⟨info', hi', -, ht⟩ := placeOf_eq_some_iff.1 hplace
  exact ⟨info', hi', ht⟩

/-- A write that keeps the service, the table, the position and the count. -/
theorem Filed.setInfo (h : am.Filed) (hi : am.mapInfo[nId]? = some info) {info' : CAddrInfo}
    (hs : info'.toCService = info.toCService) (ht : info'.fInTried = info.fInTried)
    (hpos : info'.nRandomPos = info.nRandomPos) (href : info'.nRefCount = info.nRefCount) :
    (am.setInfo nId info').Filed := by
  have hkeeps : am.Keeps (am.setInfo nId info') := keeps_setInfo hi hs ht
  refine ⟨h.toPositioned.setInfo hi hpos, ?_, ?_, ?_, ?_⟩
  · intro k i hik
    rw [setInfo_mapInfo] at hik
    split at hik
    · next heq =>
      obtain rfl := Option.some.inj hik
      have haddr := h.addr hi
      rw [← heq, hs]
      exact haddr
    · exact h.addr hik
  · intro k t hk
    obtain ⟨i, hik, hit⟩ := h.tried_known hk
    exact (hkeeps.entry hik).imp fun i' hi' => ⟨hi'.1, hi'.2.trans hit⟩
  · intro k b hk
    obtain ⟨i, hik, hit⟩ := h.new_known hk
    exact (hkeeps.entry hik).imp fun i' hi' => ⟨hi'.1, hi'.2.trans hit⟩
  · intro k i hik hit
    rw [setInfo_mapInfo] at hik
    split at hik
    · next heq =>
      obtain rfl := Option.some.inj hik
      have hcount := h.new_count hi (ht.symm.trans hit)
      rw [← heq, href]
      exact hcount
    · exact h.new_count hik hit

/-- Ids that are known stay known. -/
theorem exists_setInfo {k : Int} (info : CAddrInfo) (h : ∃ i, am.mapInfo[k]? = some i) :
    ∃ i, (am.setInfo nId info).mapInfo[k]? = some i := by
  rw [setInfo_mapInfo]
  split
  · exact ⟨_, rfl⟩
  · exact h

/-- What `Find` finds has an entry. -/
theorem mapInfo_of_Find {a : CNetAddr} (h : am.Find a = some (nId, info)) :
    am.mapInfo[nId]? = some info := by
  unfold Find at h
  split at h
  · cases h
  · obtain ⟨info', hi, heq⟩ := Option.map_eq_some_iff.1 h
    obtain ⟨rfl, rfl⟩ := Prod.mk.inj heq
    exact hi

theorem Attempt_keeps (am : CAddrMan) (addr : CService) (nTime : Int64) :
    am.Keeps (am.Attempt_ addr nTime) := by
  unfold Attempt_
  split
  · exact keeps_refl am
  · next hf =>
    split
    · exact keeps_refl am
    · exact keeps_setInfo (mapInfo_of_Find hf) rfl rfl

theorem Connected_keeps (am : CAddrMan) (addr : CService) (nTime : Int64) :
    am.Keeps (am.Connected_ addr nTime) := by
  unfold Connected_
  split
  · exact keeps_refl am
  · next hf =>
    split_ifs
    · exact keeps_refl am
    · exact keeps_setInfo (mapInfo_of_Find hf) rfl rfl
    · exact keeps_refl am

/-- Positions do not matter. -/
theorem Moved.placeOf {m : ExtTreeMap Int CAddrInfo compare} {f : Int → Int → Int}
    (h : Moved am.mapInfo m f) {am' : CAddrMan} (hm : am'.mapInfo = m) (k : Int) :
    am'.placeOf k = am.placeOf k := by
  unfold CAddrMan.placeOf
  rw [hm, h k, Option.map_map]
  rfl

theorem GetAddr_keeps (h : am.Positioned) (rnd : Nat → Nat) :
    ∃ am' vAddr, am.GetAddr_ rnd = .ok (am', vAddr) ∧ am.Keeps am' := by
  obtain ⟨m, f, addrs, hrun, hm, -, -⟩ := GetAddrLoop_eq rnd am.vRandom (if ADDRMAN_GETADDR_MAX <
      ADDRMAN_GETADDR_MAX_PCT * am.vRandom.length / 100 then ADDRMAN_GETADDR_MAX
    else ADDRMAN_GETADDR_MAX_PCT * am.vRandom.length / 100) 0 h rfl (by
      simp only [ADDRMAN_GETADDR_MAX, ADDRMAN_GETADDR_MAX_PCT]
      split_ifs <;> omega) []
  exact ⟨_, _, hrun, rfl, hm.placeOf rfl, rfl⟩

/-! ## `Good_` -/

/-- `nId` has moved to the tried bucket `t`; of the others, an entry stays where it is in the tried
table unless it has left it. -/
structure Promoted (am : CAddrMan) (nId : Int) (t : Fin ADDRMAN_TRIED_BUCKET_COUNT)
    (am' : CAddrMan) : Prop where
  nKey : am'.nKey = am.nKey
  self : ∃ s, am.placeOf nId = some (s, false) ∧ am'.placeOf nId = some (s, true)
  mem : nId ∈ am'.vvTried t
  other : ∀ k ≠ nId, (am'.placeOf k = am.placeOf k ∧ ∀ t', k ∈ am.vvTried t' → k ∈ am'.vvTried t') ∨
    ∃ s, am.placeOf k = some (s, true) ∧ am'.placeOf k = some (s, false)

theorem Promoted.knownAddresses {t : Fin ADDRMAN_TRIED_BUCKET_COUNT} {am' : CAddrMan}
    (h : am.Promoted nId t am') : am'.knownAddresses = am.knownAddresses := by
  refine knownAddresses_congr fun k => ?_
  by_cases hk : k = nId
  · obtain ⟨s, h₁, h₂⟩ := h.self
    rw [hk, h₁, h₂]
    rfl
  · rcases h.other k hk with ⟨heq, -⟩ | ⟨s, h₁, h₂⟩
    · rw [heq]
    · rw [h₁, h₂]
      rfl

theorem Keeps.promoted {am₁ am' : CAddrMan} (hkeeps : am.Keeps am₁)
    {t : Fin ADDRMAN_TRIED_BUCKET_COUNT} (h : am₁.Promoted nId t am') : am.Promoted nId t am' where
  nKey := h.nKey.trans hkeeps.nKey
  self := by simpa only [hkeeps.placeOf] using h.self
  mem := h.mem
  other := by simpa only [hkeeps.placeOf, hkeeps.vvTried] using h.other

theorem Promoted.hashed {H : BucketHash} {s : CService} {am' : CAddrMan}
    (h : am.Promoted nId (H.tried am.nKey s) am') (hs : (am.placeOf nId).map Prod.fst = some s)
    (hH : am.Hashed H) : am'.Hashed H := by
  rw [hashed_iff] at hH ⊢
  rw [h.nKey]
  intro k s' hk
  by_cases hne : k = nId
  · obtain ⟨s'', h₁, h₂⟩ := h.self
    rw [h₁] at hs
    rw [hne, h₂] at hk
    obtain rfl := congrArg Prod.fst (Option.some.inj hk)
    obtain rfl := Option.some.inj hs
    rw [hne]
    exact h.mem
  · rcases h.other k hne with ⟨heq, hmem⟩ | ⟨s'', -, h₂⟩
    · exact hmem _ (hH k s' (heq ▸ hk))
    · rw [h₂] at hk
      cases hk

/-- `nId` is where `nIdOld` was in the tried bucket `t`, which was reordered before. -/
structure Replaced (am : CAddrMan) (nId : Int) (s : CService) (t : Fin ADDRMAN_TRIED_BUCKET_COUNT)
    (nIdOld : Int) (am' : CAddrMan) : Prop where
  nKey : am'.nKey = am.nKey
  old : ∃ sOld, am.placeOf nIdOld = some (sOld, true) ∧
    ∀ k, am'.placeOf k = if nId = k then some (s, true)
      else if nIdOld = k then some (sOld, false) else am.placeOf k
  bucket : ∃ v' : List Int, v'.Perm (am.vvTried t) ∧ ∃ n, v'[n]? = some nIdOld ∧
    am'.vvTried = Function.update am.vvTried t (v'.set n nId)

/-- An entry of a full tried bucket is replaced. -/
theorem ReplaceTried_replaces (H : BucketHash) (info : CAddrInfo) (nId : Int)
    {t : Fin ADDRMAN_TRIED_BUCKET_COUNT}
    (hknown : ∀ k ∈ am.vvTried t, ∃ i, am.mapInfo[k]? = some i ∧ i.fInTried = true)
    (hne : 0 < (am.vvTried t).length) (nOrigin : Fin ADDRMAN_NEW_BUCKET_COUNT) (rnd : Nat → Nat) :
    ∃ am' nIdOld, am.ReplaceTried H info nId nOrigin t rnd = .ok am' ∧
      am.Replaced nId info.toCService t nIdOld am' := by
  obtain ⟨v', r, hsel, hperm, hr0, hrlt⟩ := SelectTried_spec rnd
    (fun k hk => (hknown k hk).imp fun i hi => hi.1) hne
  have hlt : r.toNat < v'.length := by
    rw [hperm.length_eq]
    omega
  have hat : v'[r.toNat]? = some v'[r.toNat] := List.getElem?_eq_getElem hlt
  obtain ⟨infoOld, hiOld, htOld⟩ := hknown _ (hperm.mem_iff.1 (List.getElem_mem hlt))
  set nIdOld := v'[r.toNat]
  have hread : readAt ((am.setTried t v').vvTried t) r .outOfRange = .ok nIdOld := by
    have h := readAt_of_getElem? hat .outOfRange
    rw [Int.toNat_of_nonneg hr0] at h
    unfold setTried
    dsimp only
    rw [Function.update_self, h]
  have hinfo : (am.setTried t v').getInfo nIdOld .makeTriedEvicted = .ok infoOld :=
    getInfo_of_getElem? hiOld _
  unfold ReplaceTried
  rw [hsel]
  dsimp only [bind, Except.bind]
  rw [hread]
  dsimp only
  rw [hinfo]
  refine ⟨_, nIdOld, rfl, rfl, ⟨infoOld.toCService, ?_, fun k => ?_⟩, v', hperm, r.toNat, hat, ?_⟩
  · rw [placeOf_of_some hiOld, htOld]
  · rw [placeOf_setInfo]
    split
    · rfl
    · exact placeOf_setInfo k
  · simp only [CAddrMan.setInfo, insertNew, setTried, Function.update_self, Function.update_idem]

/-- What is not at the place that is overwritten stays in the table. -/
theorem Replaced.mem {s : CService} {t : Fin ADDRMAN_TRIED_BUCKET_COUNT} {nIdOld : Int}
    {am' : CAddrMan} (h : am.Replaced nId s t nIdOld am') {k : Int} (hk : nIdOld ≠ k)
    {t' : Fin ADDRMAN_TRIED_BUCKET_COUNT} (hmem : k ∈ am.vvTried t') : k ∈ am'.vvTried t' := by
  obtain ⟨v', hperm, n, hat, htried⟩ := h.bucket
  rw [htried]
  by_cases htt : t' = t
  · subst htt
    rw [Function.update_self]
    obtain ⟨j, hj⟩ := List.mem_iff_getElem?.1 (hperm.mem_iff.2 hmem)
    have hjn : n ≠ j := by
      rintro rfl
      exact hk (Option.some.inj (hat.symm.trans hj))
    exact List.mem_iff_getElem?.2 ⟨j, by rw [List.getElem?_set_ne hjn, hj]⟩
  · rw [Function.update_of_ne htt]
    exact hmem

theorem Replaced.promoted {s : CService} {t : Fin ADDRMAN_TRIED_BUCKET_COUNT} {nIdOld : Int}
    {am' : CAddrMan} (h : am.Replaced nId s t nIdOld am') (hs : am.placeOf nId = some (s, false)) :
    am.Promoted nId t am' := by
  obtain ⟨sOld, hold, hplace⟩ := h.old
  refine ⟨h.nKey, ⟨s, hs, by rw [hplace, if_pos rfl]⟩, ?_, fun k hk => ?_⟩
  · obtain ⟨v', -, n, hat, htried⟩ := h.bucket
    rw [htried, Function.update_self]
    exact List.mem_set (List.getElem?_eq_some_iff.1 hat).1 nId
  · rw [hplace, if_neg (Ne.symm hk)]
    by_cases hkOld : nIdOld = k
    · exact .inr ⟨sOld, hkOld ▸ hold, if_pos hkOld⟩
    · exact .inl ⟨if_neg hkOld, fun t' hmem => h.mem hkOld hmem⟩

theorem length_filter_finRange {n : Nat} (p : Fin n → Prop) [DecidablePred p] :
    ((List.finRange n).filter fun b => p b).length = (Finset.univ.filter p).card := by
  rw [Fin.univ_def]
  rfl

/-- An entry that is in new buckets, as often as it is counted, moves to its tried bucket. -/
theorem MakeTried_promotes (H : BucketHash) (h : am.Filed) (hi : am.mapInfo[nId]? = some info)
    {nOrigin : Fin ADDRMAN_NEW_BUCKET_COUNT} (hm : nId ∈ am.vvNew nOrigin) (rnd : Nat → Nat) :
    ∃ am', am.MakeTried H info nId nOrigin rnd = .ok am' ∧
      am.Promoted nId (info.GetTriedBucket H am.nKey) am' := by
  obtain ⟨info', hi', ht⟩ := h.new_known hm
  obtain rfl := Option.some.inj (hi.symm.trans hi')
  obtain ⟨hcount, -⟩ := h.new_count hi ht
  have hzero : info.nRefCount - (((List.finRange ADDRMAN_NEW_BUCKET_COUNT).filter
      fun b => nId ∈ am.vvNew b).length : Int) = 0 := by
    rw [length_filter_finRange (fun b => nId ∈ am.vvNew b), hcount]
    exact Int.sub_self _
  unfold MakeTried require LeaveNew
  rw [if_pos hm]
  dsimp only [bind, Except.bind]
  rw [hzero, if_pos rfl]
  dsimp only
  split
  · refine ⟨_, rfl, rfl, ⟨info.toCService, ?_, ?_⟩, ?_, ?_⟩
    · rw [placeOf_of_some hi, ht]
    · exact (placeOf_setInfo _).trans (if_pos rfl)
    · change nId ∈ Function.update am.vvTried (info.GetTriedBucket H am.nKey)
        (am.vvTried (info.GetTriedBucket H am.nKey) ++ [nId]) (info.GetTriedBucket H am.nKey)
      rw [Function.update_self]
      exact List.mem_append_right _ (List.mem_singleton.2 rfl)
    · intro k hk
      refine .inl ⟨?_, fun t' hmem => ?_⟩
      · apply ((placeOf_setInfo _).trans (if_neg (Ne.symm hk))).trans
        exact (placeOf_setInfo _).trans (if_neg (Ne.symm hk))
      · change k ∈ Function.update am.vvTried _ _ t'
        rw [Function.update_apply]
        split
        · next heq => exact List.mem_append_left _ (heq ▸ hmem)
        · exact hmem
  · next hfull =>
    set am₁ : CAddrMan := { am.setInfo nId { info with nRefCount := 0 } with
      vvNew := fun b => (am.vvNew b).erase nId
      nNew := am.nNew - 1 } with ham₁
    have hset : am.Keeps (am.setInfo nId { info with nRefCount := 0 }) := keeps_setInfo hi rfl rfl
    have hkeeps : am.Keeps am₁ := ⟨rfl, hset.placeOf, rfl⟩
    have hknown : ∀ k ∈ am₁.vvTried (info.GetTriedBucket H am.nKey),
        ∃ i, am₁.mapInfo[k]? = some i ∧ i.fInTried = true := by
      intro k hk
      obtain ⟨i, hik, hit⟩ := h.tried_known (show k ∈ am.vvTried _ from hk)
      exact (hkeeps.entry hik).imp fun i' hi' => ⟨hi'.1, hi'.2.trans hit⟩
    have hself : am₁.placeOf nId = some (info.toCService, false) :=
      (hkeeps.placeOf nId).trans (ht ▸ placeOf_of_some hi)
    obtain ⟨am', nIdOld, hok, hreplaced⟩ := ReplaceTried_replaces H { info with nRefCount := 0 } nId
      hknown (Nat.lt_of_lt_of_le (Nat.succ_pos 63) (Nat.not_lt.1 hfull)) nOrigin rnd
    exact ⟨am', hok, hkeeps.promoted (hreplaced.promoted hself)⟩

/-- The search of `Good_` goes through all buckets. -/
theorem FindNewBucket_isSome (h : ∃ b, nId ∈ am.vvNew b) (nRnd : Nat) :
    ∃ b, am.FindNewBucket nId nRnd = some b := by
  obtain ⟨b, hb⟩ := h
  rw [← Option.isSome_iff_exists]
  unfold FindNewBucket
  rw [List.find?_isSome]
  refine ⟨b, List.mem_map.2 ⟨(b.val + ADDRMAN_NEW_BUCKET_COUNT - nRnd % ADDRMAN_NEW_BUCKET_COUNT) %
    ADDRMAN_NEW_BUCKET_COUNT, List.mem_range.2 (Nat.mod_lt _ (by decide)), ?_⟩, by simpa using hb⟩
  ext
  have hlt := b.isLt
  simp only [Fin.ofNat, ADDRMAN_NEW_BUCKET_COUNT] at hlt ⊢
  omega

/-- What `Good_` does. -/
theorem Good_cases (H : BucketHash) (h : am.Filed) (addr : CService) (nTime : Int64)
    (rnd : Nat → Nat) :
    ∃ am', am.Good_ H addr nTime rnd = .ok am' ∧ am'.nKey = am.nKey ∧
      am'.knownAddresses = am.knownAddresses ∧ (am.Hashed H → am'.Hashed H) ∧
      ∀ {nId : Int} {info : CAddrInfo}, am.Find addr.toCNetAddr = some (nId, info) →
        info.toCService = addr →
        (info.fInTried = true → nId ∈ am.vvTried (info.GetTriedBucket H am.nKey)) →
        am'.placeOf nId = some (addr, true) ∧ nId ∈ am'.vvTried (H.tried am.nKey addr) := by
  unfold Good_
  cases hf : am.Find addr.toCNetAddr with
  | none => exact ⟨am, rfl, rfl, rfl, id, fun hf' => by cases hf'⟩
  | some e =>
    obtain ⟨nId, info⟩ := e
    have hi := mapInfo_of_Find hf
    dsimp only
    by_cases hs : info.toCService ≠ addr
    · rw [if_pos hs]
      refine ⟨am, rfl, rfl, rfl, id, fun hf' hs' => ?_⟩
      obtain ⟨rfl, rfl⟩ := Prod.mk.inj (Option.some.inj hf')
      exact absurd hs' hs
    rw [if_neg hs]
    rw [not_not] at hs
    set info' : CAddrInfo := { info with
      nLastSuccess := nTime
      nLastTry := nTime
      nTime := nTime.toUInt64.toUInt32
      nAttempts := 0 } with hinfo'
    have hkeeps : am.Keeps (am.setInfo nId info') := keeps_setInfo hi rfl rfl
    by_cases ht : info.fInTried = true
    · rw [if_pos ht]
      refine ⟨_, rfl, rfl, hkeeps.knownAddresses, hkeeps.hashed, fun hf' _ hin => ?_⟩
      obtain ⟨rfl, rfl⟩ := Prod.mk.inj (Option.some.inj hf')
      refine ⟨by rw [hkeeps.placeOf, placeOf_of_some hi, hs, ht], ?_⟩
      have hmem := hin ht
      rwa [CAddrInfo.GetTriedBucket, hs] at hmem
    · rw [if_neg ht]
      rw [Bool.not_eq_true] at ht
      have hfiled : (am.setInfo nId info').Filed := h.setInfo hi rfl rfl rfl rfl
      have hfound : ∃ b, (am.setInfo nId info').FindNewBucket nId
          (GetRandInt (rnd 0) ADDRMAN_NEW_BUCKET_COUNT) = some b :=
        FindNewBucket_isSome (newCount_pos_iff.1 (h.new_count hi ht).2) _
      obtain ⟨b, hb⟩ := hfound
      rw [hb]
      dsimp only
      obtain ⟨am', hok, hmade⟩ := MakeTried_promotes H hfiled (setInfo_mapInfo_self am nId info')
        (FindNewBucket_spec hb) fun k => rnd (k + 1)
      rw [CAddrInfo.GetTriedBucket, show info'.toCService = addr from hs] at hmade
      have hpromoted : am.Promoted nId (H.tried am.nKey addr) am' := hkeeps.promoted hmade
      have hplace : am.placeOf nId = some (addr, info.fInTried) := hs ▸ placeOf_of_some hi
      refine ⟨am', hok, hpromoted.nKey, hpromoted.knownAddresses,
        hpromoted.hashed (by rw [hplace, Option.map_some]), fun hf' _ _ => ?_⟩
      obtain ⟨rfl, rfl⟩ := Prod.mk.inj (Option.some.inj hf')
      obtain ⟨s, h₁, h₂⟩ := hpromoted.self
      obtain rfl := congrArg Prod.fst (Option.some.inj (hplace.symm.trans h₁))
      exact ⟨h₂, hpromoted.mem⟩

/-! ## `Add_` -/

/-- The entry of `nId` has lost a reference; it is gone if that was the only one. -/
structure Dropped (am : CAddrMan) (nId : Int) (am' : CAddrMan) : Prop where
  nKey : am'.nKey = am.nKey
  vvTried : am'.vvTried = am.vvTried
  other : ∀ k ≠ nId, am'.placeOf k = am.placeOf k
  self : am'.placeOf nId = am.placeOf nId ∨ am'.placeOf nId = none ∧
    ∃ info, am.mapInfo[nId]? = some info ∧ info.nRefCount = 1

theorem DropReference_cases (h : am.Positioned) (hi : am.mapInfo[nId]? = some info)
    (b : Fin ADDRMAN_NEW_BUCKET_COUNT) :
    ∃ am', am.DropReference b nId info = .ok am' ∧ am.Dropped nId am' := by
  have hkeeps : am.Keeps (am.setInfo nId { info with nRefCount := info.nRefCount - 1 }) :=
    keeps_setInfo hi rfl rfl
  unfold DropReference
  by_cases hlast : info.nRefCount - 1 = 0
  · obtain ⟨hpos0, hposAt⟩ := h.pos hi
    have hlen := (List.getElem?_eq_some_iff.1 hposAt).1
    obtain ⟨last, hl⟩ : ∃ last, am.vRandom[am.vRandom.length - 1]? = some last :=
      ⟨_, List.getElem?_eq_getElem (by omega)⟩
    have hpositioned : (am.setInfo nId { info with nRefCount := info.nRefCount - 1 }).Positioned :=
      h.setInfo hi rfl
    obtain ⟨m, hswap, hmoved⟩ := SwapRandom_spec hpositioned hposAt hl
    have hcast : (info.nRandomPos.toNat : Int) = info.nRandomPos := Int.toNat_of_nonneg hpos0
    have hcast' : ((am.vRandom.length - 1 : Nat) : Int) = (am.vRandom.length : Int) - 1 := by omega
    rw [hcast, hcast'] at hswap
    simp only [hlast, if_true] at hswap ⊢
    rw [setInfo_vRandom, hswap]
    refine ⟨_, rfl, rfl, rfl, fun k hk => ?_, .inr ⟨?_, info, hi, by omega⟩⟩
    · have hm : ({ am with mapInfo := m } : CAddrMan).placeOf k = am.placeOf k :=
        (hmoved.placeOf rfl k).trans (hkeeps.placeOf k)
      unfold CAddrMan.placeOf at hm ⊢
      rw [eraseNew_mapInfo, ExtTreeMap.getElem?_erase, if_neg (by simpa using Ne.symm hk)]
      exact hm
    · unfold CAddrMan.placeOf
      rw [eraseNew_mapInfo, ExtTreeMap.getElem?_erase_self]
      rfl
  · simp only [hlast, if_false]
    exact ⟨_, rfl, rfl, rfl, fun k _ => hkeeps.placeOf k, .inl (hkeeps.placeOf nId)⟩

/-- `nId` gets a reference in the bucket `b`. That makes room in a full bucket only, and the entry
that is forgotten then, if any, had its only reference there. -/
inductive Referred (am : CAddrMan) (nId : Int) (b : Fin ADDRMAN_NEW_BUCKET_COUNT) :
    CAddrMan → Prop
  | keeps {am' : CAddrMan} : am.Keeps am' → Referred am nId b am'
  | forgets {am' : CAddrMan} {k : Int} {info : CAddrInfo} : am.mapInfo[k]? = some info →
      info.nRefCount = 1 → k ∈ am.vvNew b → k ≠ nId →
      (am.vvNew b).size = ADDRMAN_NEW_BUCKET_SIZE → am.Dropped k am' → am'.placeOf k = none →
      Referred am nId b am'

theorem AddReference_cases (H : BucketHash) (h : am.Positioned)
    (hknown : ∀ {k : Int} {b}, k ∈ am.vvNew b → ∃ i, am.mapInfo[k]? = some i)
    (hi : am.mapInfo[nId]? = some info) (source : CNetAddr) (now : Nat → Int64)
    (rnd : Nat → Nat) :
    ∃ am', am.AddReference H nId info source now rnd = .ok am' ∧
      am.Referred nId (info.GetNewBucket H am.nKey source) am' := by
  unfold AddReference
  dsimp only
  by_cases hin : nId ∈ am.vvNew (info.GetNewBucket H am.nKey source)
  · rw [if_pos hin]
    exact ⟨am, rfl, .keeps (keeps_refl am)⟩
  rw [if_neg hin]
  have hkeeps : am.Keeps (am.setInfo nId { info with nRefCount := info.nRefCount + 1 }) :=
    keeps_setInfo hi rfl rfl
  by_cases hfull :
      (am.vvNew (info.GetNewBucket H am.nKey source)).size = ADDRMAN_NEW_BUCKET_SIZE
  · have hknown' : ∀ k ∈ am.vvNew (info.GetNewBucket H am.nKey source), ∃ i,
        (am.setInfo nId { info with nRefCount := info.nRefCount + 1 }).mapInfo[k]? = some i :=
      fun k hk => exists_setInfo _ (hknown hk)
    have hroom : 0 < ((am.setInfo nId { info with nRefCount := info.nRefCount + 1 }).vvNew
        (info.GetNewBucket H am.nKey source)).size := by
      rw [setInfo_vvNew, hfull]
      decide
    obtain ⟨k, infok, r, hk, hik, hshrink⟩ := ShrinkNew_drops hknown' hroom now rnd
    have hpositioned : (am.setInfo nId { info with nRefCount := info.nRefCount + 1 }).Positioned :=
      h.setInfo hi rfl
    obtain ⟨am', hdrop, hdropped⟩ := DropReference_cases hpositioned hik
      (info.GetNewBucket H am.nKey source)
    have hne : k ≠ nId := fun heq => hin (heq ▸ hk)
    have hik' : am.mapInfo[k]? = some infok :=
      (setInfo_mapInfo_of_ne _ _ _ (Ne.symm hne)).symm.trans hik
    rw [if_pos hfull, hshrink, hdrop]
    refine ⟨_, rfl, ?_⟩
    have hother : ∀ k' ≠ k, am'.placeOf k' = am.placeOf k' :=
      fun k' hk' => (hdropped.other k' hk').trans (hkeeps.placeOf k')
    rcases hdropped.self with hself | ⟨hnone, i, hi', href⟩
    · refine .keeps ⟨hdropped.nKey, fun k' => ?_, hdropped.vvTried⟩
      by_cases hk' : k' = k
      · rw [hk']
        exact hself.trans (hkeeps.placeOf k)
      · exact hother k' hk'
    · obtain rfl := Option.some.inj (hik.symm.trans hi')
      exact .forgets hik' href hk hne hfull
        ⟨hdropped.nKey, hdropped.vvTried, hother, .inr ⟨hnone, infok, hik', href⟩⟩ hnone
  · rw [if_neg hfull]
    exact ⟨_, rfl, .keeps ⟨hkeeps.nKey, hkeeps.placeOf, hkeeps.vvTried⟩⟩

/-- The new bucket that `Add_` chooses for an address that `source` told of. -/
def chosenBucket (H : BucketHash) (am : CAddrMan) (addr source : CNetAddr) :
    Fin ADDRMAN_NEW_BUCKET_COUNT :=
  match am.Find addr with
  | some (_, info) => info.GetNewBucket H am.nKey source
  | none => H.new am.nKey addr source

/-- The one entry with the address `a` is that of `k`, which is not in the tried table and is in
no new bucket but `b`, which is full. -/
structure LastReference (am : CAddrMan) (b : Fin ADDRMAN_NEW_BUCKET_COUNT) (k : Int)
    (a : CNetAddr) : Prop where
  entry : ∃ info, am.mapInfo[k]? = some info ∧ info.toCNetAddr = a ∧ info.fInTried = false
  unique : ∀ {k' : Int} {info : CAddrInfo}, am.mapInfo[k']? = some info → info.toCNetAddr = a →
    k' = k
  full : (am.vvNew b).size = ADDRMAN_NEW_BUCKET_SIZE
  bucket : ∀ b', k ∈ am.vvNew b' ↔ b' = b

/-- The state `am'` knows no address that `am` does not but `addr`; of the others it has forgotten
at most one. -/
structure Learns (am : CAddrMan) (b : Fin ADDRMAN_NEW_BUCKET_COUNT) (addr : CNetAddr)
    (am' : CAddrMan) : Prop where
  nKey : am'.nKey = am.nKey
  hashed : ∀ {H : BucketHash}, am.Hashed H → am'.Hashed H
  known : am'.knownAddresses ⊆ insert addr am.knownAddresses
  forgotten : ∃ k, ∀ a ∈ am.knownAddresses \ am'.knownAddresses, a ≠ addr ∧ am.LastReference b k a

theorem Keeps.learns {am' : CAddrMan} (h : am.Keeps am') (b : Fin ADDRMAN_NEW_BUCKET_COUNT)
    (addr : CNetAddr) : am.Learns b addr am' where
  nKey := h.nKey
  hashed := h.hashed
  known := by
    rw [h.knownAddresses]
    exact Set.subset_insert _ _
  forgotten := ⟨0, fun a ha => absurd (h.knownAddresses ▸ ha.1) ha.2⟩

/-- A dropped entry leaves the others where they are. -/
theorem Dropped.hashed {am' : CAddrMan} {k : Int} {H : BucketHash} (h : am.Dropped k am')
    (hnone : am'.placeOf k = none) (hH : am.Hashed H) : am'.Hashed H := by
  rw [hashed_iff] at hH ⊢
  intro k' s hk'
  have hne : k' ≠ k := by
    rintro rfl
    rw [hnone] at hk'
    cases hk'
  rw [h.other k' hne] at hk'
  rw [h.vvTried, h.nKey]
  exact hH k' s hk'

theorem Dropped.knownAddresses_subset {am' : CAddrMan} {k : Int} (h : am.Dropped k am')
    (hnone : am'.placeOf k = none) : am'.knownAddresses ⊆ am.knownAddresses := by
  intro a ha
  rw [mem_knownAddresses] at ha ⊢
  obtain ⟨k', s, hk', has⟩ := ha
  have hne : k' ≠ k := by
    rintro rfl
    rw [hnone] at hk'
    cases hk'
  exact ⟨k', s, h.other k' hne ▸ hk', has⟩

/-- Only the address of the dropped entry is forgotten. -/
theorem Dropped.forgotten {am' : CAddrMan} {k : Int} (h : am.Dropped k am')
    (hi : am.mapInfo[k]? = some info) {a : CNetAddr}
    (ha : a ∈ am.knownAddresses \ am'.knownAddresses) : info.toCNetAddr = a := by
  obtain ⟨k', s, hk', has⟩ := mem_knownAddresses.1 ha.1
  by_cases hne : k' = k
  · rw [hne, placeOf_of_some hi, Option.map_some] at hk'
    rw [← has, ← Option.some.inj hk']
  · exact absurd (mem_knownAddresses.2 ⟨k', s, by rw [h.other k' hne]; exact hk', has⟩) ha.2

theorem Referred.placeOf_self {b : Fin ADDRMAN_NEW_BUCKET_COUNT} {am' : CAddrMan}
    (h : am.Referred nId b am') : am'.placeOf nId = am.placeOf nId := by
  cases h with
  | keeps hkeeps => exact hkeeps.placeOf nId
  | forgets _ _ _ hne _ hdropped _ => exact hdropped.other nId (Ne.symm hne)

/-- `am₁` is `am` with the entry of `nId` made or updated. -/
theorem Referred.learns {b : Fin ADDRMAN_NEW_BUCKET_COUNT} {addr : CNetAddr} {am₁ am' : CAddrMan}
    (h : am₁.Referred nId b am') (hfiled : am.Filed) (hkey : am₁.nKey = am.nKey)
    (hhashed : ∀ {H : BucketHash}, am.Hashed H → am₁.Hashed H)
    (hsub : am.knownAddresses ⊆ am₁.knownAddresses)
    (hknown : am₁.knownAddresses ⊆ insert addr am.knownAddresses) (hnew : am₁.vvNew = am.vvNew)
    (hother : ∀ k ≠ nId, am₁.mapInfo[k]? = am.mapInfo[k]?)
    (hself : addr ∈ am.knownAddresses →
      ∃ info, am₁.mapInfo[nId]? = some info ∧ info.toCNetAddr = addr) :
    am.Learns b addr am' := by
  have hkept : ∀ a ∈ am.knownAddresses \ am'.knownAddresses, a ≠ addr := by
    rintro a ⟨ha, hna⟩ rfl
    obtain ⟨info, hi, rfl⟩ := hself ha
    refine hna (mem_knownAddresses.2 ⟨nId, info.toCService, ?_, rfl⟩)
    rw [h.placeOf_self, placeOf_of_some hi, Option.map_some]
  cases h with
  | keeps hkeeps =>
    refine ⟨hkeeps.nKey.trans hkey, fun hH => hkeeps.hashed (hhashed hH), ?_, 0, fun a ha => ?_⟩
    · rwa [hkeeps.knownAddresses]
    · rw [hkeeps.knownAddresses] at ha
      exact absurd (hsub ha.1) ha.2
  | @forgets k info hi href hk hne hfull hdropped hnone =>
    refine ⟨hdropped.nKey.trans hkey, fun hH => hdropped.hashed hnone (hhashed hH),
      (hdropped.knownAddresses_subset hnone).trans hknown, k, fun a ha => ⟨hkept a ha, ?_⟩⟩
    rw [hnew] at hk hfull
    rw [hother k hne] at hi
    obtain ⟨info', hi', ht⟩ := hfiled.new_known hk
    obtain rfl := Option.some.inj (hi.symm.trans hi')
    have haddr := hdropped.forgotten ((hother k hne).trans hi) ⟨hsub ha.1, ha.2⟩
    refine ⟨⟨info, hi, haddr, ht⟩, fun hi' haddr' => ?_, hfull, ?_⟩
    · have hk' := hfiled.addr hi'
      rw [haddr', ← haddr, hfiled.addr hi] at hk'
      exact hk'.symm
    · obtain ⟨hcount, -⟩ := hfiled.new_count hi ht
      exact mem_vvNew_iff_of_newCount (by omega) hk

/-- The known address that `Find` looks for is that of the entry found. -/
theorem Filed.address_of_Find (h : am.Filed) {a : CNetAddr} (hf : am.Find a = some (nId, info))
    (ha : a ∈ am.knownAddresses) : info.toCNetAddr = a := by
  obtain ⟨k, i, hi, rfl⟩ := ha
  have haddr := h.addr hi
  unfold Find at hf
  split at hf
  · cases hf
  · next hm =>
    obtain ⟨i', hi', heq⟩ := Option.map_eq_some_iff.1 hf
    obtain ⟨rfl, rfl⟩ := Prod.mk.inj heq
    rw [hm, Option.getD_some] at haddr
    subst haddr
    rw [hi] at hi'
    rw [Option.some.inj hi']

/-- A new entry. -/
theorem knownAddresses_enter {am₁ : CAddrMan} (hnone : am.mapInfo[nId]? = none) {s : CService}
    {fInTried : Bool}
    (hplace : ∀ k, am₁.placeOf k = if nId = k then some (s, fInTried) else am.placeOf k) :
    am₁.knownAddresses = insert s.toCNetAddr am.knownAddresses := by
  ext a
  rw [Set.mem_insert_iff, mem_knownAddresses, mem_knownAddresses]
  constructor
  · rintro ⟨k, s', hk, rfl⟩
    rw [hplace] at hk
    split at hk
    · rw [Option.map_some, Option.some.injEq] at hk
      exact .inl (hk ▸ rfl)
    · exact .inr ⟨k, s', hk, rfl⟩
  · rintro (rfl | ⟨k, s', hk, rfl⟩)
    · exact ⟨nId, s, by rw [hplace, if_pos rfl, Option.map_some], rfl⟩
    · have hne : nId ≠ k := by
        rintro rfl
        rw [placeOf, hnone] at hk
        cases hk
      exact ⟨k, s', by rw [hplace, if_neg hne]; exact hk, rfl⟩

/-- A known address gains a reference. -/
theorem Filed.addReference_known (H : BucketHash) (h : am.Filed) {a : CNetAddr}
    (hf : am.Find a = some (nId, info)) {info' : CAddrInfo}
    (hs : info'.toCService = info.toCService) (ht : info'.fInTried = info.fInTried)
    (hpos : info'.nRandomPos = info.nRandomPos) (source : CNetAddr) (now : Nat → Int64)
    (rnd : Nat → Nat) :
    ∃ am', (am.setInfo nId info').AddReference H nId info' source now rnd = .ok am' ∧
      am.Learns (info'.GetNewBucket H am.nKey source) a am' := by
  have hi := mapInfo_of_Find hf
  have hkeeps : am.Keeps (am.setInfo nId info') := keeps_setInfo hi hs ht
  have hknown : ∀ {k : Int} {b}, k ∈ (am.setInfo nId info').vvNew b →
      ∃ i, (am.setInfo nId info').mapInfo[k]? = some i :=
    fun hk => exists_setInfo _ ((h.new_known hk).imp fun i hik => hik.1)
  obtain ⟨am', hok, href⟩ := AddReference_cases H (h.toPositioned.setInfo hi hpos) hknown
    (setInfo_mapInfo_self _ _ _) source now rnd
  refine ⟨am', hok, href.learns h rfl hkeeps.hashed hkeeps.knownAddresses.symm.subset ?_ rfl
    (fun k hk => setInfo_mapInfo_of_ne _ _ _ (Ne.symm hk)) fun ha => ?_⟩
  · rw [hkeeps.knownAddresses]
    exact Set.subset_insert _ _
  · have haddr := h.address_of_Find hf ha
    exact ⟨_, setInfo_mapInfo_self _ _ _, by rw [hs, haddr]⟩

/-- A new entry gets its reference. -/
theorem Filed.addReference_new (H : BucketHash) (h : am.Filed) (hunused : am.NextIdUnused)
    {am₁ : CAddrMan} (hmap : am₁.mapInfo = am.mapInfo.insert am.nIdCount info)
    (hrandom : am₁.vRandom = am.vRandom ++ [am.nIdCount]) (hkey : am₁.nKey = am.nKey)
    (htried : am₁.vvTried = am.vvTried) (hnew : am₁.vvNew = am.vvNew)
    (hpos : info.nRandomPos = am.vRandom.length) (ht : info.fInTried = false) (source : CNetAddr)
    (now : Nat → Int64) (rnd : Nat → Nat) :
    ∃ am', am₁.AddReference H am.nIdCount info source now rnd = .ok am' ∧
      am.Learns (info.GetNewBucket H am.nKey source) info.toCNetAddr am' := by
  have hget : ∀ k : Int, am₁.mapInfo[k]? =
      if am.nIdCount = k then some info else am.mapInfo[k]? := by
    intro k
    rw [hmap]
    exact setInfo_mapInfo am am.nIdCount info k
  have hknown : ∀ {k : Int} {b}, k ∈ am₁.vvNew b → ∃ i, am₁.mapInfo[k]? = some i := by
    intro k b hk
    rw [hmap]
    rw [hnew] at hk
    exact exists_setInfo info ((h.new_known hk).imp fun i hik => hik.1)
  have hplace : ∀ k, am₁.placeOf k =
      if am.nIdCount = k then some (info.toCService, false) else am.placeOf k := by
    intro k
    unfold placeOf
    rw [hget]
    split
    · rw [Option.map_some, ht]
    · rfl
  have haddrs := knownAddresses_enter hunused hplace
  have hi : am₁.mapInfo[am.nIdCount]? = some info := by rw [hget, if_pos rfl]
  obtain ⟨am', hok, href⟩ :=
    AddReference_cases H (h.toPositioned.enter hunused hpos am₁ hmap hrandom) hknown hi source now
      rnd
  rw [hkey] at href
  refine ⟨am', hok, href.learns h hkey (fun hH => ?_) ?_ haddrs.subset hnew (fun k hk => ?_)
    fun _ => ⟨info, hi, rfl⟩⟩
  · rw [hashed_iff] at hH ⊢
    intro k s hk
    rw [hplace] at hk
    split at hk
    · cases hk
    · rw [htried, hkey]
      exact hH k s hk
  · rw [haddrs]
    exact Set.subset_insert _ _
  · rw [hget, if_neg (Ne.symm hk)]

/-- What `Add_` does. -/
theorem Add_cases (H : BucketHash) (h : am.Filed) (hunused : am.NextIdUnused) (addr : CAddress)
    (source : CNetAddr) (nTimePenalty : Int64) (now : Nat → Int64) (rnd : Nat → Nat) :
    ∃ am' r, am.Add_ H addr source nTimePenalty now rnd = .ok (am', r) ∧
      am.Learns (am.chosenBucket H addr.toCNetAddr source) addr.toCNetAddr am' := by
  obtain hadd | ⟨nId, info, hf, hadd | ⟨-, -, hadd⟩⟩ | ⟨hf, hadd⟩ :=
    Add_outcomes H am addr source nTimePenalty now rnd
  · exact ⟨am, false, hadd, (keeps_refl am).learns _ _⟩
  · have hkeeps : am.Keeps (am.setInfo nId (UpdateKnown info addr nTimePenalty (now 0))) :=
      keeps_setInfo (mapInfo_of_Find hf) rfl rfl
    exact ⟨_, false, hadd, hkeeps.learns _ _⟩
  · have hservice : (UpdateKnown info addr nTimePenalty (now 0)).toCService = info.toCService := rfl
    obtain ⟨am', hok, hlearns⟩ := h.addReference_known H hf hservice rfl rfl source
      (fun k => now (k + 1)) fun k => rnd (k + 1)
    rw [hadd, hok, chosenBucket, hf]
    exact ⟨am', false, rfl, hlearns⟩
  · -- an unknown address: a new entry, with one reference
    have hmap : (am.withNewInfo addr source nTimePenalty).mapInfo =
        am.mapInfo.insert am.nIdCount (am.newInfo addr source nTimePenalty) :=
      OrdMap.insert_insert_self am.mapInfo am.nIdCount (am.Create addr source).2.2 _
    obtain ⟨am', hok, hlearns⟩ := h.addReference_new H hunused hmap rfl rfl rfl rfl rfl rfl source
      (fun k => now (k + 1)) fun k => rnd (k + 1)
    rw [hadd, hok, chosenBucket, hf]
    exact ⟨am', true, rfl, hlearns⟩

/-! ## Every call -/

def Op.isAdd : Op → Bool
  | .add .. => true
  | _ => false

/-- The other calls forget nothing and learn nothing. -/
theorem step_knownAddresses (H : BucketHash) (h : am.Filed) {op : Op} (hop : op.isAdd = false) :
    ∃ am', am.step H op = .ok am' ∧ am'.knownAddresses = am.knownAddresses ∧
      (am.Hashed H → am'.Hashed H) := by
  cases op with
  | add => cases hop
  | good addr nTime rnd =>
    obtain ⟨am', hok, -, hknown, hhashed, -⟩ := Good_cases H h addr nTime rnd
    exact ⟨am', hok, hknown, hhashed⟩
  | attempt addr nTime =>
    have hkeeps := Attempt_keeps am addr nTime
    exact ⟨_, rfl, hkeeps.knownAddresses, hkeeps.hashed⟩
  | connected addr nTime =>
    have hkeeps := Connected_keeps am addr nTime
    exact ⟨_, rfl, hkeeps.knownAddresses, hkeeps.hashed⟩
  | getAddr rnd =>
    obtain ⟨am', vAddr, hok, hkeeps⟩ := GetAddr_keeps h.toPositioned rnd
    exact ⟨am', by simp only [step, hok, bind, Except.bind], hkeeps.knownAddresses, hkeeps.hashed⟩
  | select fUseTried rounds =>
    obtain ⟨r, hok⟩ := Select_ok (fun hk => (h.tried_known hk).imp fun _ hi => hi.1)
      (fun hk => (h.new_known hk).imp fun _ hi => hi.1) fUseTried rounds
    exact ⟨am, by simp only [step, hok, bind, Except.bind], rfl, id⟩

/-- **What is known, call by call.** From a state that passes `Check_`: the calls other than `Add`
keep the known addresses. After `Good` on a known address with its port, which is new or in the
tried bucket that its hash gives, it is in that bucket. If the next id is not in use, `Add` makes
only its address known and forgets at most one other, which was not tried and whose last reference
was in the chosen bucket, which was full. -/
theorem knownAddresses_frame (H : BucketHash) (h : am.Check_ = 0) :
    (∀ op : Op, op.isAdd = false →
      ∃ am', am.step H op = .ok am' ∧ am'.knownAddresses = am.knownAddresses) ∧
    (∀ addr nTime rnd nId info, am.Find addr.toCNetAddr = some (nId, info) →
      info.toCService = addr →
      (info.fInTried = true → nId ∈ am.vvTried (info.GetTriedBucket H am.nKey)) →
      ∃ am' info', am.step H (.good addr nTime rnd) = .ok am' ∧ am'.mapInfo[nId]? = some info' ∧
        info'.toCService = addr ∧ info'.fInTried = true ∧
        nId ∈ am'.vvTried (info'.GetTriedBucket H am'.nKey)) ∧
    (am.NextIdUnused → ∀ addr source nTimePenalty now rnd,
      ∃ am', am.step H (.add addr source nTimePenalty now rnd) = .ok am' ∧
        am'.knownAddresses ⊆ insert addr.toCNetAddr am.knownAddresses ∧
        (am.knownAddresses \ am'.knownAddresses).Subsingleton ∧
        ∀ a ∈ am.knownAddresses \ am'.knownAddresses, a ≠ addr.toCNetAddr ∧
          ∃ k, am.LastReference (am.chosenBucket H addr.toCNetAddr source) k a) := by
  have hfiled := (Check_eq_zero_iff.1 h).filed
  refine ⟨fun op hop => ?_, fun addr nTime rnd nId info hf hs hin => ?_,
    fun hunused addr source nTimePenalty now rnd => ?_⟩
  · obtain ⟨am', hok, hknown, -⟩ := step_knownAddresses H hfiled hop
    exact ⟨am', hok, hknown⟩
  · obtain ⟨am', hok, hkey, -, -, hgood⟩ := Good_cases H hfiled addr nTime rnd
    obtain ⟨hplace, hmem⟩ := hgood hf hs hin
    obtain ⟨info', hi', hs', ht'⟩ := placeOf_eq_some_iff.1 hplace
    refine ⟨am', info', hok, hi', hs', ht', ?_⟩
    rw [CAddrInfo.GetTriedBucket, hs', hkey]
    exact hmem
  · obtain ⟨am', r, hok, hlearns⟩ := Add_cases H hfiled hunused addr source nTimePenalty now rnd
    obtain ⟨k, hforgotten⟩ := hlearns.forgotten
    refine ⟨am', by simp only [step, hok, bind, Except.bind], hlearns.known, ?_, fun a ha => ?_⟩
    · intro a ha a' ha'
      obtain ⟨info, hi, rfl, -⟩ := (hforgotten a ha).2.entry
      obtain ⟨info', hi', rfl, -⟩ := (hforgotten a' ha').2.entry
      rw [Option.some.inj (hi.symm.trans hi')]
    · exact ⟨(hforgotten a ha).1, k, (hforgotten a ha).2⟩

theorem knownAddresses_frame_tenTried :
    (∀ op : Op, op.isAdd = false → ∃ am', tenTried.step .oneBucket op = .ok am' ∧
      am'.knownAddresses = tenTried.knownAddresses) ∧
    (∀ addr nTime rnd nId info, tenTried.Find addr.toCNetAddr = some (nId, info) →
      info.toCService = addr →
      (info.fInTried = true →
        nId ∈ tenTried.vvTried (info.GetTriedBucket .oneBucket tenTried.nKey)) →
      ∃ am' info', tenTried.step .oneBucket (.good addr nTime rnd) = .ok am' ∧
        am'.mapInfo[nId]? = some info' ∧ info'.toCService = addr ∧ info'.fInTried = true ∧
        nId ∈ am'.vvTried (info'.GetTriedBucket .oneBucket am'.nKey)) ∧
    (tenTried.NextIdUnused → ∀ addr source nTimePenalty now rnd,
      ∃ am', tenTried.step .oneBucket (.add addr source nTimePenalty now rnd) = .ok am' ∧
        am'.knownAddresses ⊆ insert addr.toCNetAddr tenTried.knownAddresses ∧
        (tenTried.knownAddresses \ am'.knownAddresses).Subsingleton ∧
        ∀ a ∈ tenTried.knownAddresses \ am'.knownAddresses, a ≠ addr.toCNetAddr ∧
          ∃ k, tenTried.LastReference
            (tenTried.chosenBucket .oneBucket addr.toCNetAddr source) k a) :=
  knownAddresses_frame .oneBucket (by decide +kernel)

theorem mem_knownAddresses_iff_toList {a : CNetAddr} :
    a ∈ am.knownAddresses ↔ ∃ e ∈ am.mapInfo.toList, e.2.toCNetAddr = a := by
  constructor
  · rintro ⟨nId, info, hi, ha⟩
    exact ⟨(nId, info), ExtTreeMap.mem_toList_iff_getElem?_eq_some.2 hi, ha⟩
  · rintro ⟨⟨nId, info⟩, he, ha⟩
    exact ⟨nId, info, ExtTreeMap.mem_toList_iff_getElem?_eq_some.1 he, ha⟩

theorem eq_ok_of_isSome {ε α : Type} {r : Except ε α} {d : α} (h : r.toOption.isSome = true) :
    r = .ok (r.toOption.getD d) := by
  cases r with
  | ok a => rfl
  | error e => cases h

/-- One tried entry, in bucket 0. -/
def oneTried : CAddrMan := oneTriedBucket 1 fun _ => 1400000000

/-- The same with an id that is handed out again. -/
def idInUse : CAddrMan := { oneTried with nIdCount := 0 }

/-- Everything hashes to bucket 1. -/
def bucketOne : BucketHash := ⟨fun _ _ => 1, fun _ _ _ => 1⟩

/-- Two things that `Check_` does not test. A tried entry may be in another bucket than its hash
gives: `Good` leaves it there. The next id may be in use: `Add` overwrites its entry. -/
theorem Check_passes_misfiled :
    (oneTried.Check_ = 0 ∧
      oneTried.Find (triedEntryAt 0 1400000000).toCNetAddr =
        some (0, triedEntryAt 0 1400000000) ∧
      ∃ am', oneTried.step bucketOne
          (.good (triedEntryAt 0 1400000000).toCService 1400000001 fun _ => 0) = .ok am' ∧
        0 ∉ am'.vvTried (bucketOne.tried am'.nKey (triedEntryAt 0 1400000000).toCService)) ∧
    idInUse.Check_ = 0 ∧
      idInUse.Find (triedEntryAt 0 1400000000).toCNetAddr = some (0, triedEntryAt 0 1400000000) ∧
      ∃ am', idInUse.step .oneBucket
          (.add peer peer.toCNetAddr 0 (fun _ => 1400000000) fun _ => 0) = .ok am' ∧
        (triedEntryAt 0 1400000000).toCNetAddr ∈ idInUse.knownAddresses \ am'.knownAddresses := by
  have hfindOne : oneTried.Find (triedEntryAt 0 1400000000).toCNetAddr =
      some (0, triedEntryAt 0 1400000000) := by decide +kernel
  have hfindInUse : idInUse.Find (triedEntryAt 0 1400000000).toCNetAddr =
      some (0, triedEntryAt 0 1400000000) := by decide +kernel
  refine ⟨⟨by decide +kernel, hfindOne, _, eq_ok_of_isSome (d := oneTried) (by decide +kernel), ?_⟩,
    by decide +kernel, hfindInUse, _, eq_ok_of_isSome (d := oneTried) (by decide +kernel), ?_, ?_⟩
  · decide +kernel
  · exact ⟨0, _, mapInfo_of_Find hfindInUse, rfl⟩
  · rw [mem_knownAddresses_iff_toList]
    decide +kernel

/-- The two conditions stay. -/
theorem step_hashed (H : BucketHash) {book : AddrBook} (h : am.Inv False book none)
    (hH : am.Hashed H) {op : Op} (hop : op.GoodTime) :
    ∃ am', am.step H op = .ok am' ∧ (∃ book' : AddrBook, am'.Inv False book' none) ∧
      am'.Hashed H := by
  have hfiled := h.consistent.filed
  obtain ⟨am', book', hok, hinv, -⟩ := step_spec H h hop False.elim
  refine ⟨am', hok, ⟨book', hinv⟩, ?_⟩
  cases hadd : op.isAdd with
  | false =>
    obtain ⟨am'', hok', -, hhashed⟩ := step_knownAddresses H hfiled hadd
    obtain rfl := Except.ok.inj (hok.symm.trans hok')
    exact hhashed hH
  | true =>
    cases op with
    | add addr source nTimePenalty now rnd =>
      obtain ⟨am'', r, hok', hlearns⟩ := Add_cases H hfiled h.fresh addr source nTimePenalty now rnd
      have hstep : am.step H (.add addr source nTimePenalty now rnd) = .ok am'' := by
        simp only [step, hok', bind, Except.bind]
      obtain rfl := Except.ok.inj (hok.symm.trans hstep)
      exact hlearns.hashed hH
    | _ => cases hadd

/-- They hold in every reachable state. -/
theorem reachable_hashed (H : BucketHash) (nKey : List UInt8) (ops : List Op)
    (hgood : ∀ op ∈ ops, op.GoodTime) :
    ∃ am, Run.run (step H) (.empty nKey) ops = .ok am ∧ am.Hashed H ∧ am.NextIdUnused := by
  have hempty : (empty nKey).Hashed H := by
    intro nId info hi
    cases hi
  have hrun : ∃ am, Run.run (step H) (.empty nKey) ops = .ok am ∧
      (∃ book : AddrBook, am.Inv False book none) ∧ am.Hashed H :=
    Run.run_of_invariant (fun am : CAddrMan => (∃ book : AddrBook, am.Inv False book none) ∧
      am.Hashed H) Op.GoodTime (fun am op ⟨⟨book, hinv⟩, hH⟩ hop => step_hashed H hinv hH hop)
      ops _ ⟨⟨_, Inv.empty False nKey⟩, hempty⟩ hgood
  obtain ⟨am, hok, ⟨book, hinv⟩, hhashed⟩ := hrun
  exact ⟨am, hok, hhashed, hinv.fresh⟩

end CAddrMan

end TriTip
