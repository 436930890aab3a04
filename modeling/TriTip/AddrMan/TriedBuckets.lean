import TriTip.AddrMan.Invariant

/-!
# The address manager: the tried buckets

`SelectTried`, `MakeTried` and `Good_` keep the invariant and do not fail. `MakeTried` is a
`promote` of the book and, when the tried bucket is full, an `evict` as well. `SelectTried` only
reorders a bucket, and returns a position inside it.
-/

namespace TriTip

open Std

namespace CAddrMan

variable {am : CAddrMan} {strict : Prop} {book : AddrBook} {nId : Int} {info : CAddrInfo}

/-! ## `SelectTried` -/

/-- The loop only exchanges elements of the bucket. Once it has looked at one element, the
position it returns is in the bucket. -/
theorem SelectTriedLoop_spec (rnd : Nat → Nat) (todo i : Nat) {vTried : List Int}
    {nOldest : Int} (nOldestPos : Int) (hv : ∀ k ∈ vTried, ∃ info, am.mapInfo[k]? = some info)
    (hold : nOldest = -1 ∨ ∃ info, am.mapInfo[nOldest]? = some info) :
    ∃ v' r, am.SelectTriedLoop rnd todo i vTried nOldest nOldestPos = .ok (v', r) ∧
      v'.Perm vTried ∧
      ((0 ≤ nOldestPos ∧ nOldestPos < vTried.length) ∨
        (0 < todo ∧ i < vTried.length ∧ nOldest = -1) → 0 ≤ r ∧ r < vTried.length) := by
  induction todo generalizing i vTried nOldest nOldestPos with
  | zero =>
    refine ⟨vTried, nOldestPos, rfl, .refl _, ?_⟩
    rintro (h | ⟨h, -, -⟩)
    · exact h
    · exact absurd h (Nat.lt_irrefl 0)
  | succ todo ih =>
    unfold SelectTriedLoop
    by_cases hlt : i < vTried.length
    swap
    · rw [if_neg hlt]
      refine ⟨vTried, nOldestPos, rfl, .refl _, ?_⟩
      rintro (h | ⟨-, h, -⟩)
      · exact h
      · exact absurd h hlt
    rw [if_pos hlt]
    set nPos := GetRandInt (rnd i) (vTried.length - i) + i with hnPos
    have hpos : nPos < vTried.length := by
      have := GetRandInt_lt (rnd i) (Nat.sub_pos_of_lt hlt)
      omega
    have htemp : vTried[nPos]? = some vTried[nPos] := List.getElem?_eq_getElem hpos
    have hvi : vTried[i]? = some vTried[i] := List.getElem?_eq_getElem hlt
    have hperm : ((vTried.set nPos vTried[i]).set i vTried[nPos]).Perm vTried :=
      Positions.exchange_perm htemp hvi
    have hlen : ((vTried.set nPos vTried[i]).set i vTried[nPos]).length = vTried.length :=
      hperm.length_eq
    have hv' : ∀ k ∈ (vTried.set nPos vTried[i]).set i vTried[nPos],
        ∃ info, am.mapInfo[k]? = some info := fun k hk => hv k (hperm.mem_iff.1 hk)
    obtain ⟨info, hi⟩ := hv _ (List.getElem_mem hpos)
    -- the rest of the loop, with the new and with the old candidate
    obtain ⟨v₁, r₁, hr₁, hp₁, hb₁⟩ := ih (i + 1) nPos hv' (Or.inr ⟨info, hi⟩)
    obtain ⟨v₂, r₂, hr₂, hp₂, hb₂⟩ := ih (i + 1) nOldestPos hv' hold
    rw [hlen] at hb₁ hb₂
    have hin₁ : 0 ≤ r₁ ∧ r₁ < vTried.length := hb₁ (Or.inl ⟨by omega, by omega⟩)
    dsimp only
    rw [readAt_of_getElem? htemp, readAt_of_getElem? hvi]
    dsimp only [bind, Except.bind]
    by_cases hneg : nOldest = -1
    · exact ⟨v₁, r₁, by rw [if_pos hneg, hr₁], hp₁.trans hperm, fun _ => hin₁⟩
    · obtain ⟨infoOldest, ho⟩ := hold.resolve_left hneg
      rw [if_neg hneg, getInfo_of_getElem? hi, getInfo_of_getElem? ho]
      dsimp only
      by_cases holder : info.nLastSuccess < infoOldest.nLastSuccess
      · exact ⟨v₁, r₁, by rw [if_pos holder, hr₁], hp₁.trans hperm, fun _ => hin₁⟩
      · refine ⟨v₂, r₂, by rw [if_neg holder, hr₂], hp₂.trans hperm, ?_⟩
        rintro (h | ⟨-, -, h⟩)
        · exact hb₂ (Or.inl h)
        · exact absurd h hneg

/-- `SelectTried` of a bucket that holds something returns one of its positions. -/
theorem SelectTried_spec {t : Fin ADDRMAN_TRIED_BUCKET_COUNT} (rnd : Nat → Nat)
    (hv : ∀ k ∈ am.vvTried t, ∃ info, am.mapInfo[k]? = some info)
    (hne : 0 < (am.vvTried t).length) :
    ∃ v' r, am.SelectTried t rnd = .ok (am.setTried t v', r) ∧ v'.Perm (am.vvTried t) ∧
      0 ≤ r ∧ r < (am.vvTried t).length := by
  obtain ⟨v', r, hr, hperm, hb⟩ := SelectTriedLoop_spec rnd ADDRMAN_TRIED_ENTRIES_INSPECT_ON_EVICT 0
    (-1) hv (Or.inl rfl)
  refine ⟨v', r, ?_, hperm, hb (Or.inr ⟨by decide, hne, rfl⟩)⟩
  unfold SelectTried
  rw [hr]
  rfl

/-! ## `MakeTried` -/

/-- Only one tried bucket changes, and of its ids only one. -/
theorem Tables.tried_update (h : am.Tables strict book none) (n : Int)
    (q : Place (Fin ADDRMAN_TRIED_BUCKET_COUNT) (Fin ADDRMAN_NEW_BUCKET_COUNT)
      ADDRMAN_NEW_BUCKETS_PER_ADDRESS)
    (t : Fin ADDRMAN_TRIED_BUCKET_COUNT) {l : List Int} (hl : l.Nodup)
    (hmem : ∀ k, k ∈ l ↔ if k = n then q = .tried t else k ∈ am.vvTried t)
    (hother : ∀ t', t' ≠ t → q ≠ .tried t' ∧ book n ≠ some (.tried t')) :
    (∀ t' k, k ∈ Function.update am.vvTried t l t' ↔
      if k = n then q = .tried t' else k ∈ am.vvTried t') ∧
    ∀ t', (Function.update am.vvTried t l t').Nodup := by
  constructor
  · intro t' k
    rw [Function.update_apply]
    by_cases ht : t' = t
    · rw [if_pos ht, ht, hmem]
    · obtain ⟨hq, hbook⟩ := hother t' ht
      rw [if_neg ht]
      by_cases hk : k = n
      · simp [hk, hq, h.holds.tried_mem, hbook]
      · rw [if_neg hk]
  · intro t'
    rw [Function.update_apply]
    split
    · exact hl
    · exact h.holds.tried_nodup t'

/-- An entry leaves its new buckets for the tried bucket `t`, whose new content is `l`. -/
theorem Tables.promote (h : am.Tables strict book none) {bs pos le}
    (hp : book nId = some (.new bs pos le))
    (hi : am.mapInfo[nId]? = some info) (info' : CAddrInfo)
    (haddr : info'.toCNetAddr = info.toCNetAddr) (hpos : info'.nRandomPos = info.nRandomPos)
    (hs : info'.status = (true, 0)) (htimes : info'.TimesOk strict)
    {t : Fin ADDRMAN_TRIED_BUCKET_COUNT} {l : List Int} (hl : l.Nodup)
    (hmem : ∀ k, k ∈ l ↔ k = nId ∨ k ∈ am.vvTried t) :
    ({ am.setInfo nId info' with
        vvNew := fun b => (am.vvNew b).erase nId
        nNew := am.nNew - 1
        vvTried := Function.update am.vvTried t l
        nTried := am.nTried + 1 } : CAddrMan).Tables strict
      (Function.update book nId (some (.tried t))) none := by
  obtain ⟨i, hi', hold, -⟩ := h.holds.entry_of_place hp
  rw [hi] at hi'
  obtain rfl := Option.some.inj hi'
  rw [Place.isTried_new] at hold
  obtain ⟨htried, hrefs⟩ := Prod.mk.inj hs
  obtain ⟨hupdate, hnodup⟩ := h.tried_update nId (.tried t) t hl
    (fun k => by rw [hmem]; by_cases hk : k = nId <;> simp [hk])
    fun t' ht => ⟨by simp [Ne.symm ht], by simp [hp]⟩
  refine h.move hi haddr hpos (hs.trans ?_) htimes rfl rfl rfl rfl ?_ ?_ ?_ ?_ ?_
    ?_
  · rfl
  · exact hupdate
  · exact hnodup
  · exact fun k b _ => Iff.rfl
  · intro b k
    dsimp only
    rw [ExtTreeSet.mem_erase]
    by_cases hk : k = nId
    · simp [hk]
    · simp [hk, Ne.symm hk]
  · simp [hold, htried]
  · simp [hold, htried]

/-- A tried entry moves to the new bucket `b`; `l` is what its tried bucket keeps. -/
theorem Tables.evict (h : am.Tables strict book none) {t : Fin ADDRMAN_TRIED_BUCKET_COUNT}
    (hp : book nId = some (.tried t)) (hi : am.mapInfo[nId]? = some info) (info' : CAddrInfo)
    (haddr : info'.toCNetAddr = info.toCNetAddr) (hpos : info'.nRandomPos = info.nRandomPos)
    (hs : info'.status = (false, 1)) (htimes : info'.TimesOk strict)
    (b : Fin ADDRMAN_NEW_BUCKET_COUNT) {l : List Int} (hl : l.Nodup)
    (hmem : ∀ k, k ∈ l ↔ k ≠ nId ∧ k ∈ am.vvTried t) :
    ({ (am.setInfo nId info').insertNew b nId with
        nNew := am.nNew + 1
        vvTried := Function.update am.vvTried t l
        nTried := am.nTried - 1 } : CAddrMan).Tables strict
      (Function.update book nId (some (.single b))) none := by
  obtain ⟨i, hi', hold, -⟩ := h.holds.entry_of_place hp
  rw [hi] at hi'
  obtain rfl := Option.some.inj hi'
  rw [Place.isTried_tried] at hold
  obtain ⟨htried, hrefs⟩ := Prod.mk.inj hs
  have hnot : ∀ b', nId ∉ am.vvNew b' := by
    intro b' hm
    obtain ⟨_, _, _, _, hp', -⟩ := h.holds.of_mem_new hm
    rw [hp] at hp'
    cases hp'
  obtain ⟨hupdate, hnodup⟩ := h.tried_update nId (.single b) t hl
    (fun k => by rw [hmem]; by_cases hk : k = nId <;> simp [hk, Place.single])
    fun t' ht => ⟨by simp [Place.single], by simp [hp, Ne.symm ht]⟩
  refine h.move hi haddr hpos (hs.trans ?_) htimes rfl rfl rfl rfl ?_ ?_ ?_ ?_ ?_ ?_
  · simp [Place.status]
  · exact hupdate
  · exact hnodup
  · exact fun k b _ => Iff.rfl
  · intro b' k
    refine (mem_insertNew _ _ _).trans ?_
    by_cases hk : k = nId
    · subst hk
      simp [hnot b']
    · simp [hk]
  · simp [hold, htried]
  · simp [hold, htried]

/-- `LeaveNew` counts the new buckets of the entry. -/
theorem countNew_eq (h : am.Holds book none) {bs pos le} (hp : book nId = some (.new bs pos le)) :
    ((List.finRange ADDRMAN_NEW_BUCKET_COUNT).filter fun b => nId ∈ am.vvNew b).length =
      bs.card := by
  have hperm : ((List.finRange ADDRMAN_NEW_BUCKET_COUNT).filter fun b => nId ∈ am.vvNew b).Perm
      bs.toList := by
    refine (List.perm_ext_iff_of_nodup ((List.nodup_finRange _).filter _) bs.nodup_toList).2 ?_
    intro b
    simp [h.new_mem, Book.newBuckets_of_some hp]
  rw [hperm.length_eq, Finset.length_toList]

/-- After `LeaveNew` the entry has no reference left. -/
theorem LeaveNew_eq (h : am.Inv strict book none) {bs pos le}
    (hp : book nId = some (.new bs pos le))
    (hi : am.mapInfo[nId]? = some info) :
    am.LeaveNew info nId = ({ am.setInfo nId { info with nRefCount := 0 } with
      vvNew := fun b => (am.vvNew b).erase nId
      nNew := am.nNew - 1 }, { info with nRefCount := 0 }) := by
  obtain ⟨i, hi', -, hrefs⟩ := h.holds.entry_of_place hp
  rw [hi] at hi'
  obtain rfl := Option.some.inj hi'
  have hzero : info.nRefCount - (((List.finRange ADDRMAN_NEW_BUCKET_COUNT).filter
      fun b => nId ∈ am.vvNew b).length : Int) = 0 := by
    rw [countNew_eq h.holds hp, hrefs, Place.refs_new, Int.sub_self]
  unfold LeaveNew
  dsimp only
  rw [hzero]

/-- The end of `MakeTried` when the tried bucket has room. -/
theorem Inv.appendTried (h : am.Inv strict book none) {bs pos le}
    (hp : book nId = some (.new bs pos le))
    (hi : am.mapInfo[nId]? = some info) (hsucc : info.nLastSuccess ≠ 0)
    {t : Fin ADDRMAN_TRIED_BUCKET_COUNT}
    (hroom : (am.vvTried t).length < ADDRMAN_TRIED_BUCKET_SIZE) :
    ({ am.setInfo nId { info with nRefCount := 0, fInTried := true } with
        vvNew := fun b => (am.vvNew b).erase nId
        nNew := am.nNew - 1
        vvTried := Function.update am.vvTried t (am.vvTried t ++ [nId])
        nTried := am.nTried + 1 } : CAddrMan).Inv strict
      (Function.update book nId (some (.tried t))) none := by
  have hnot : nId ∉ am.vvTried t := by
    intro hmt
    rw [h.holds.tried_mem, hp] at hmt
    cases hmt
  have hl : (am.vvTried t ++ [nId]).Nodup := by
    rw [List.nodup_append_comm]
    exact List.nodup_cons.2 ⟨hnot, h.holds.tried_nodup t⟩
  refine ⟨h.toTables.promote hp hi { info with nRefCount := 0, fInTried := true } rfl rfl rfl
    ⟨(h.times hi).1, fun _ => hsucc, (h.times hi).3⟩ hl ?_, ?_, ?_⟩
  · intro k
    rw [List.mem_append, List.mem_singleton, or_comm]
  · exact fun b => Nat.le_trans ExtTreeSet.size_erase_le (h.new_size b)
  · intro t'
    dsimp only
    rw [Function.update_apply]
    split
    · rw [List.length_append]
      exact hroom
    · exact h.tried_size t'

/-- `ReplaceTried` after `LeaveNew` does not fail: the entry is promoted and an entry of the full
bucket evicted. -/
theorem ReplaceTried_spec (H : BucketHash) (h : am.Inv strict book none) {bs pos le}
    (hp : book nId = some (.new bs pos le)) {nOrigin : Fin ADDRMAN_NEW_BUCKET_COUNT}
    (hm : nId ∈ am.vvNew nOrigin) (hi : am.mapInfo[nId]? = some info)
    (hsucc : info.nLastSuccess ≠ 0) {t : Fin ADDRMAN_TRIED_BUCKET_COUNT}
    (hne : 0 < (am.vvTried t).length) (rnd : Nat → Nat) {am₁ : CAddrMan}
    (ham₁ : am₁ = { am.setInfo nId { info with nRefCount := 0 } with
      vvNew := fun b => (am.vvNew b).erase nId
      nNew := am.nNew - 1 }) :
    ∃ am' book', am₁.ReplaceTried H { info with nRefCount := 0 } nId nOrigin t rnd = .ok am' ∧
      am'.Inv strict book' none ∧ book.Steps book' ∧ am'.nKey = am.nKey := by
  have hvt : am₁.vvTried = am.vvTried := by rw [ham₁]; rfl
  have hget : ∀ k : Int, k ≠ nId → am₁.mapInfo[k]? = am.mapInfo[k]? := by
    intro k hk
    rw [ham₁]
    exact setInfo_mapInfo_of_ne _ _ _ (Ne.symm hk)
  have hnot : nId ∉ am.vvTried t := by
    intro hmt
    rw [h.holds.tried_mem, hp] at hmt
    cases hmt
  have hother : ∀ k ∈ am.vvTried t, k ≠ nId := fun k hk heq => hnot (heq ▸ hk)
  -- the position and the entry to be evicted
  have hknown : ∀ k ∈ am₁.vvTried t, ∃ i, am₁.mapInfo[k]? = some i := by
    intro k hk
    rw [hvt] at hk
    obtain ⟨i, hki, -⟩ := h.holds.of_mem_tried hk
    exact ⟨i, by rw [hget k (hother k hk), hki]⟩
  obtain ⟨v', r, hsel, hperm, hr0, hrlt⟩ := SelectTried_spec rnd hknown (by rw [hvt]; exact hne)
  rw [hvt] at hperm hrlt
  have hlen := hperm.length_eq
  have hold : v'[r.toNat]? = some (v'.get ⟨r.toNat, by omega⟩) := List.getElem?_eq_getElem _
  set nIdOld := v'.get ⟨r.toNat, by omega⟩ with hnIdOld
  have hmOld : nIdOld ∈ am.vvTried t := hperm.mem_iff.1 (List.get_mem _ _)
  have hneOld := hother _ hmOld
  obtain ⟨infoOld, hiOld, htOld⟩ := h.holds.of_mem_tried hmOld
  have hnodup : (nId :: v').Nodup := List.nodup_cons.2
    ⟨fun hc => hnot (hperm.mem_iff.1 hc), hperm.nodup_iff.2 (h.holds.tried_nodup t)⟩
  -- first the promotion, with both entries in the bucket
  have hP := h.toTables.promote hp hi { info with nRefCount := 0, fInTried := true } rfl rfl rfl
    ⟨(h.times hi).1, fun _ => hsucc, (h.times hi).3⟩ hnodup
      fun k => by rw [List.mem_cons, hperm.mem_iff]
  have hbook : Function.update book nId (some (.tried t)) nIdOld = some (.tried t) := by
    rw [Function.update_of_ne hneOld]
    exact (h.holds.tried_mem t nIdOld).1 hmOld
  -- then the eviction, to the bucket with place
  set nUBucket := infoOld.GetNewBucket H am.nKey infoOld.source with hnUBucket
  set b := if ((am.vvNew nUBucket).erase nId).size < ADDRMAN_NEW_BUCKET_SIZE then nUBucket
    else nOrigin with hb
  have hE := hP.evict hbook ((setInfo_mapInfo_of_ne _ _ _ (Ne.symm hneOld)).trans hiOld)
    { infoOld with fInTried := false, nRefCount := 1 } rfl rfl rfl
    ⟨(h.times hiOld).1, (fun hc => by cases hc), (h.times hiOld).3⟩ b
    (Positions.set_nodup hnodup hold) (fun k => by
      dsimp only
      rw [Function.update_self, Positions.mem_set hnodup hold, List.mem_cons])
  refine ⟨_, _, ?_, ⟨hE, ?_, ?_⟩, .tail (.single (.promote t hp)) (.evict b hbook), rfl⟩
  · unfold ReplaceTried
    rw [hsel]
    have hread : readAt ((am₁.setTried t v').vvTried t) r .outOfRange = .ok nIdOld := by
      have hr := readAt_of_getElem? hold .outOfRange
      rw [Int.toNat_of_nonneg hr0] at hr
      unfold setTried
      dsimp only
      rw [Function.update_self, hr]
    have hinfo : (am₁.setTried t v').getInfo nIdOld .makeTriedEvicted = .ok infoOld :=
      getInfo_of_getElem? ((hget nIdOld hneOld).trans hiOld) _
    simp only [bind, Except.bind, hread, hinfo]
    subst ham₁
    refine congrArg Except.ok ?_
    simp only [CAddrMan.setInfo, insertNew, setTried, Function.update_self, Function.update_idem]
    rw [CAddrMan.mk.injEq]
    refine ⟨rfl, rfl, ?_, rfl, rfl, ?_, rfl, rfl, rfl⟩
    · rw [OrdMap.insert_insert_comm _ (Ne.symm hneOld), OrdMap.insert_insert_self,
        OrdMap.insert_insert_comm _ hneOld]
    · omega
  · intro b'
    have hplace : ((am.vvNew b).erase nId).size < ADDRMAN_NEW_BUCKET_SIZE := by
      rw [hb]
      split
      · assumption
      · have := OrdMap.size_erase_of_mem hm
        have := h.new_size nOrigin
        omega
    change (Function.update (fun b => (am.vvNew b).erase nId) b
      (((am.vvNew b).erase nId).insert nIdOld) b').size ≤ _
    rw [Function.update_apply]
    split
    · exact Nat.le_trans ExtTreeSet.size_insert_le hplace
    · exact Nat.le_trans ExtTreeSet.size_erase_le (h.new_size b')
  · intro t'
    dsimp only
    rw [Function.update_apply]
    split
    · rw [List.length_set, hlen]
      exact h.tried_size t
    · next hne' =>
      rw [Function.update_of_ne hne']
      exact h.tried_size t'

/-- `MakeTried` of an entry in a new bucket does not fail, and is steps of the book. -/
theorem MakeTried_spec (H : BucketHash) (h : am.Inv strict book none)
    {nOrigin : Fin ADDRMAN_NEW_BUCKET_COUNT} (hm : nId ∈ am.vvNew nOrigin)
    (hi : am.mapInfo[nId]? = some info) (hsucc : info.nLastSuccess ≠ 0) (rnd : Nat → Nat) :
    ∃ am' book', am.MakeTried H info nId nOrigin rnd = .ok am' ∧ am'.Inv strict book' none ∧
      book.Steps book' ∧ am'.nKey = am.nKey := by
  obtain ⟨bs, pos, le, -, hp, -, -, -, -⟩ := h.holds.of_mem_new hm
  unfold MakeTried require
  rw [if_pos hm, LeaveNew_eq h hp hi]
  dsimp only [bind, Except.bind]
  rw [if_pos rfl]
  dsimp only
  split
  · next hroom =>
    have hinv := h.appendTried hp hi hsucc hroom
    refine ⟨_, Function.update book nId (some (.tried (CAddrInfo.GetTriedBucket H
      { info with nRefCount := 0 } am.nKey))), rfl, ?_, .single (.promote _ hp), rfl⟩
    simpa only [CAddrMan.setInfo, setTried, OrdMap.insert_insert_self] using hinv
  · next hfull =>
    have hne := Nat.lt_of_lt_of_le (Nat.succ_pos 63) (Nat.not_lt.1 hfull)
    exact ReplaceTried_spec H h hp hm hi hsucc hne rnd rfl

/-! ## `Good_` -/

/-- The search for the entry's bucket finds one that holds it. -/
theorem FindNewBucket_spec {nRnd : Nat} {b : Fin ADDRMAN_NEW_BUCKET_COUNT}
    (hf : am.FindNewBucket nId nRnd = some b) : nId ∈ am.vvNew b := by
  have := List.find?_some hf
  simpa using this

/-- `Good_` with a time after 0 does not fail, and is steps of the book. -/
theorem Good_spec (H : BucketHash) (h : am.Inv strict book none) (addr : CService) {nTime : Int64}
    (hpos : 0 < nTime) (rnd : Nat → Nat) :
    ∃ am' book', am.Good_ H addr nTime rnd = .ok am' ∧ am'.Inv strict book' none ∧
      book.Steps book' ∧
      am'.nKey = am.nKey := by
  unfold Good_
  cases hf : am.Find addr.toCNetAddr with
  | none => exact ⟨am, book, rfl, h, .refl, rfl⟩
  | some e =>
    obtain ⟨nId, info⟩ := e
    obtain ⟨hi, -⟩ := h.indexed.find_some hf
    dsimp only
    have hne : nTime ≠ 0 := fun hc => Int64.lt_irrefl (hc ▸ hpos)
    have hupd : (am.setInfo nId { info with
        nLastSuccess := nTime, nLastTry := nTime, nTime := nTime.toUInt64.toUInt32,
        nAttempts := 0 }).Inv strict book none :=
      h.setInfo hi rfl rfl rfl ⟨Int64.le_of_lt hpos, fun _ => hne, fun _ => Int64.le_of_lt hpos⟩
    split_ifs with h1 h2
    · exact ⟨_, book, rfl, h, .refl, rfl⟩
    · exact ⟨_, book, rfl, hupd, .refl, rfl⟩
    · split
      · exact ⟨_, book, rfl, hupd, .refl, rfl⟩
      · next b hb =>
        exact MakeTried_spec H hupd (FindNewBucket_spec hb) (setInfo_mapInfo_self _ _ _) hne _

end CAddrMan

end TriTip
