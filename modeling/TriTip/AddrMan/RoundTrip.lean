import TriTip.AddrMan.Written
import TriTip.AddrMan.Reachable

/-!
# The address manager: written and read back

Ids are given anew when a file is read: an entry gets its number in the file. `Renaming` says that
two managers are the same up to such a change of ids and to what a file does not store, and
`Unserialize_Serialize` that a manager which passes `Check_` comes back as such a copy.
-/

namespace TriTip

open Std

namespace CAddrMan

/-- What the file keeps of an entry. -/
structure SameEntry (info info' : CAddrInfo) : Prop where
  address : info'.toCAddress = info.toCAddress
  source : info'.source = info.source
  nLastSuccess : info'.nLastSuccess = info.nLastSuccess
  nAttempts : info'.nAttempts = info.nAttempts
  fInTried : info'.fInTried = info.fInTried
  nRefCount : info'.nRefCount = info.nRefCount

/-- The second manager is the first with its ids renamed, up to the order of `vRandom` and of the
tried buckets. -/
structure Renaming (ρ : Int → Int) (am am' : CAddrMan) : Prop where
  injective : ∀ {k k' : Int}, k ∈ am.mapInfo → k' ∈ am.mapInfo → ρ k = ρ k' → k = k'
  onto : ∀ k' : Int, k' ∈ am'.mapInfo ↔ ∃ k ∈ am.mapInfo, ρ k = k'
  entry : ∀ {k : Int} {info : CAddrInfo}, am.mapInfo[k]? = some info →
    ∃ info', am'.mapInfo[ρ k]? = some info' ∧ SameEntry info info'
  mapAddr : ∀ {k : Int} {info : CAddrInfo}, am.mapInfo[k]? = some info →
    am'.mapAddr info.toCNetAddr = some (ρ k)
  vRandom : am'.vRandom.Perm (am.vRandom.map ρ)
  vvTried : ∀ t, (am'.vvTried t).Perm ((am.vvTried t).map ρ)
  vvNew : ∀ b (k' : Int), k' ∈ am'.vvNew b ↔ ∃ k ∈ am.vvNew b, ρ k = k'
  nKey : am'.nKey = am.nKey
  nNew : am'.nNew = am.nNew
  nTried : am'.nTried = am.nTried

section

variable {H : BucketHash} {am am' : CAddrMan} (h : am.Writable H) (hl : am.written.Loaded H am')
include h

omit h in
theorem mem_mapInfo_of_getElem? {k : Int} {info : CAddrInfo} (hi : am.mapInfo[k]? = some info) :
    k ∈ am.mapInfo := by
  rw [ExtTreeMap.mem_iff_isSome_getElem?, hi]
  rfl

omit h in
theorem getElem?_of_mem_mapInfo {k : Int} (hk : k ∈ am.mapInfo) :
    ∃ info, am.mapInfo[k]? = some info :=
  Option.isSome_iff_exists.1 (ExtTreeMap.mem_iff_isSome_getElem?.1 hk)

omit h in
theorem CheckConditions.vRandom_perm (h : am.CheckConditions) :
    am.vRandom.Perm am.mapInfo.keys := h.keys_perm.symm

omit h in
theorem CheckConditions.tried_unique (h : am.CheckConditions) {k : Int}
    {t t' : Fin ADDRMAN_TRIED_BUCKET_COUNT} (ht : k ∈ am.vvTried t) (ht' : k ∈ am.vvTried t') :
    t = t' := by
  by_contra hne
  have hpair := (List.nodup_flatMap.1 h.tried_nodup).2
  have hsymm : Std.Symm (Function.onFun List.Disjoint am.vvTried) := ⟨fun _ _ hd => hd.symm⟩
  have hdis := hpair.forall (List.mem_finRange t) (List.mem_finRange t') hne
  exact hdis ht ht'

omit h in
/-- The tried entry at a place of the file. -/
theorem fileIndex_trieds (h : am.CheckConditions) {j : Nat} {k : Int} {info : CAddrInfo}
    (hj : (am.mapInfo.toList.filter fun p => p.2.fInTried)[j]? = some (k, info)) :
    (am.fileIndex k : Int) = am.nNew + j ∧ am.mapInfo[k]? = some info ∧ info.fInTried = true := by
  obtain ⟨hi, ht⟩ := List.mem_filter.1 (List.mem_of_getElem? hj)
  refine ⟨?_, ExtTreeMap.mem_toList_iff_getElem?_eq_some.1 hi, ht⟩
  have hget : am.fileOrder[(am.mapInfo.toList.filter fun p => !p.2.fInTried).length + j]? =
      some (k, info) := by
    unfold fileOrder
    rw [List.getElem?_append_right (Nat.le_add_right _ _), Nat.add_sub_cancel_left, hj]
  rw [fileIndex_of_getElem? hget, ← h.length_news]
  push_cast
  rfl

theorem written_parsed : am.written.Parsed where
  news := by
    have := h.check.length_news
    change (List.map _ _).length = am.nNew.toNat
    rw [List.length_map]
    omega
  trieds := by
    have := h.check.length_trieds
    change (List.map _ _).length = am.nTried.toNat
    rw [List.length_map]
    omega
  lists := by
    unfold written
    rw [List.length_map, List.length_finRange, Int.toNat_natCast]
  stored := by
    intro e he
    obtain ⟨p, -, rfl⟩ := List.mem_map.1 he
    rfl

theorem news_fileIndex {k : Int} {info : CAddrInfo} (hi : am.mapInfo[k]? = some info)
    (ht : info.fInTried = false) : am.written.news[am.fileIndex k]? = some info.stored := by
  have hlt := (h.check.fileIndex_lt_iff hi).2 ht
  have hget := getElem?_fileIndex hi
  rw [← h.check.length_news] at hlt
  unfold fileOrder at hget
  rw [List.getElem?_append_left (Int.ofNat_lt.1 hlt)] at hget
  exact (List.getElem?_map ..).trans (congrArg (Option.map _) hget)

theorem kept_fileIndex {k : Int} {info : CAddrInfo} (hi : am.mapInfo[k]? = some info)
    (ht : info.fInTried = true) : ∃ j : Nat, (am.written.kept H)[j]? = some info.stored ∧
      (am.fileIndex k : Int) = am.nNew + j := by
  have hlt := (h.check.fileIndex_lt_iff hi).not.2 (by simp [ht])
  have hget := getElem?_fileIndex hi
  have hlen := h.check.length_news
  unfold fileOrder at hget
  rw [List.getElem?_append_right (by omega)] at hget
  refine ⟨_, ?_, (fileIndex_trieds h.check hget).1⟩
  rw [kept_written h]
  exact (List.getElem?_map ..).trans (congrArg (Option.map _) hget)

/-- What the file says at the number of an entry. -/
theorem mem_entries_written {k : Int} {info : CAddrInfo} (hi : am.mapInfo[k]? = some info) :
    ∃ i, ((am.fileIndex k : Int), i) ∈ am.written.entries H ∧ i.stored = info.stored ∧
      i.fInTried = info.fInTried ∧ i.nLastTry = 0 := by
  cases ht : info.fInTried
  · exact ⟨_, PeersFile.mem_entries.2 (Or.inl ⟨_, _, news_fileIndex h hi ht, rfl, rfl⟩), rfl, rfl,
      rfl⟩
  · obtain ⟨j, hj, hidx⟩ := kept_fileIndex h hi ht
    exact ⟨_, PeersFile.mem_entries.2 (Or.inr ⟨j, _, hj, hidx, rfl⟩), rfl, rfl, rfl⟩

/-- Every number of the file stands for an entry. -/
theorem mem_ids_written {k' : Int} :
    k' ∈ (am.written.entries H).map Prod.fst ↔ ∃ k ∈ am.mapInfo, (am.fileIndex k : Int) = k' := by
  have hnews := h.check.length_news
  constructor
  · intro hk
    obtain ⟨⟨k', i⟩, hi, rfl⟩ := List.mem_map.1 hk
    rcases PeersFile.mem_entries.1 hi with ⟨n, e, he, rfl, -⟩ | ⟨j, e, he, rfl, -⟩
    · obtain ⟨k, info, hki, -, rfl, -⟩ := news_written he
      exact ⟨k, mem_mapInfo_of_getElem? hki, rfl⟩
    · rw [kept_written h] at he
      have hget := (List.getElem?_map ..).symm.trans he
      obtain ⟨⟨k, info⟩, hj, -⟩ := Option.map_eq_some_iff.1 hget
      obtain ⟨hidx, hki, -⟩ := fileIndex_trieds h.check hj
      exact ⟨k, mem_mapInfo_of_getElem? hki, hidx⟩
  · rintro ⟨k, hk, rfl⟩
    obtain ⟨info, hi⟩ := getElem?_of_mem_mapInfo hk
    obtain ⟨i, hmem, -⟩ := mem_entries_written h hi
    exact List.mem_map.2 ⟨_, hmem, rfl⟩

include hl

theorem entry_loaded {k : Int} {info : CAddrInfo} (hi : am.mapInfo[k]? = some info) :
    ∃ i, am'.mapInfo[(am.fileIndex k : Int)]? = some i ∧ i.stored = info.stored ∧
      i.fInTried = info.fInTried ∧ i.nLastTry = 0 := by
  obtain ⟨i, hmem, hstored, ht, htry⟩ := mem_entries_written h hi
  exact ⟨_, hl.entry hmem, hstored, ht, htry⟩

theorem mem_mapInfo_loaded {k' : Int} :
    k' ∈ am'.mapInfo ↔ ∃ k ∈ am.mapInfo, (am.fileIndex k : Int) = k' := by
  rw [hl.mem_mapInfo, ← mem_ids_written h]
  exact ⟨fun hor => hor.elim id ((written_sound h).mem_ids (written_parsed h) k'), Or.inl⟩

/-- A bucket holds the numbers of what it held. -/
theorem mem_vvNew_loaded (b : Fin ADDRMAN_NEW_BUCKET_COUNT) (k' : Int) :
    k' ∈ am'.vvNew b ↔ ∃ k ∈ am.vvNew b, (am.fileIndex k : Int) = k' := by
  rw [hl.mem_vvNew_iff (written_parsed h) (written_sound h).indexes_native]
  constructor
  · rintro ⟨n, e, he, hb, rfl⟩
    obtain ⟨k, info, hi, ht, rfl, -⟩ := news_written he
    exact ⟨k, (mem_newBuckets_written h hi ht b).1 hb, rfl⟩
  · rintro ⟨k, hk, rfl⟩
    obtain ⟨info, hi, ht⟩ := h.check.new_known hk
    exact ⟨_, _, news_fileIndex h hi ht, (mem_newBuckets_written h hi ht b).2 hk, rfl⟩

theorem vvTried_loaded (t : Fin ADDRMAN_TRIED_BUCKET_COUNT) :
    (am'.vvTried t).Perm ((am.vvTried t).map fun k => (am.fileIndex k : Int)) := by
  have hknown : ∀ {k}, k ∈ am.vvTried t → ∃ info, am.mapInfo[k]? = some info ∧
      info.fInTried = true := fun hk => (h.check.tried_mem _).1 (mem_triedIds.2 ⟨t, hk⟩)
  have hnd : ((am.vvTried t).map fun k => (am.fileIndex k : Int)).Nodup := by
    refine ((List.nodup_flatMap.1 h.check.tried_nodup).1 t (List.mem_finRange t)).map_on ?_
    intro k hk k' hk' heq
    obtain ⟨info, hi, -⟩ := hknown hk
    obtain ⟨info', hi', -⟩ := hknown hk'
    exact fileIndex_inj (mem_mapInfo_of_getElem? hi) (mem_mapInfo_of_getElem? hi')
      (Int.ofNat_inj.1 heq)
  refine (List.perm_ext_iff_of_nodup (hl.nodup_vvTried t) hnd).2 fun k' => ?_
  rw [hl.mem_vvTried, List.mem_map]
  constructor
  · rintro ⟨j, e, he, ht, rfl⟩
    rw [kept_written h] at he
    obtain ⟨⟨k, info⟩, hj, rfl⟩ := Option.map_eq_some_iff.1 ((List.getElem?_map ..).symm.trans he)
    obtain ⟨hidx, hi, hin⟩ := fileIndex_trieds h.check hj
    have hbucket : info.GetTriedBucket H am.nKey = t := ht
    exact ⟨k, by rw [← hbucket]; exact h.hashed hi hin, hidx⟩
  · rintro ⟨k, hk, rfl⟩
    obtain ⟨info, hi, hin⟩ := hknown hk
    obtain ⟨j, hj, hidx⟩ := kept_fileIndex h hi hin
    have hb : k ∈ am.vvTried (info.GetTriedBucket H am.nKey) := h.hashed hi hin
    exact ⟨j, _, hj, h.check.tried_unique hb hk, hidx⟩

theorem vRandom_loaded : am'.vRandom.Perm (am.vRandom.map fun k => (am.fileIndex k : Int)) := by
  have hmem : ∀ {k}, k ∈ am.vRandom ↔ k ∈ am.mapInfo := by
    intro k
    rw [h.check.vRandom_perm.mem_iff, ExtTreeMap.mem_keys]
  have hkeys : am.mapInfo.keys.Nodup := ExtTreeMap.nodup_keys
  have hnd : (am.vRandom.map fun k => (am.fileIndex k : Int)).Nodup := by
    refine (h.check.vRandom_perm.nodup_iff.2 hkeys).map_on fun k hk k' hk' heq => ?_
    exact fileIndex_inj (hmem.1 hk) (hmem.1 hk') (Int.ofNat_inj.1 heq)
  rw [hl.vRandom]
  refine (List.perm_ext_iff_of_nodup hl.nodup hnd).2 fun k' => ?_
  rw [mem_ids_written h, List.mem_map]
  simp only [hmem]

theorem newCount_loaded {k : Int} (hk : k ∈ am.mapInfo) :
    am'.newCount (am.fileIndex k) = am.newCount k := by
  unfold newCount
  congr 1
  refine Finset.filter_congr fun b _ => ?_
  rw [mem_vvNew_loaded h hl]
  constructor
  · rintro ⟨k', hk', heq⟩
    obtain ⟨info, hi, -⟩ := h.check.new_known hk'
    rwa [← fileIndex_inj (mem_mapInfo_of_getElem? hi) hk (Int.ofNat_inj.1 heq)]
  · exact fun hb => ⟨k, hb, rfl⟩

/-- The manager a written file gives is a copy. -/
theorem renaming_loaded : Renaming (fun k => (am.fileIndex k : Int)) am am' := by
  have hstruct := (written_sound h).structural (written_parsed h) hl
  have hentry : ∀ {k : Int} {info : CAddrInfo}, am.mapInfo[k]? = some info →
      ∃ info', am'.mapInfo[(am.fileIndex k : Int)]? = some info' ∧ SameEntry info info' := by
    intro k info hi
    obtain ⟨i, hi', hstored, ht, -⟩ := entry_loaded h hl hi
    refine ⟨i, hi', congrArg (fun e => e.toCAddress) hstored, congrArg (fun e => e.source) hstored,
      congrArg (fun e => e.nLastSuccess) hstored, congrArg (fun e => e.nAttempts) hstored, ht, ?_⟩
    cases hin : info.fInTried
    · rw [(hstruct.new_entry hi' (ht.trans hin)).1,
        newCount_loaded h hl (mem_mapInfo_of_getElem? hi),
        (h.check.newCount_eq hi hin).1]
    · rw [(hstruct.tried_entry hi' (ht.trans hin)).1, (h.check.nRefCount_eq_zero_iff hi).2 hin]
  refine ⟨fun hk hk' heq => fileIndex_inj hk hk' (Int.ofNat_inj.1 heq),
    fun _ => mem_mapInfo_loaded h hl, hentry, ?_, vRandom_loaded h hl, vvTried_loaded h hl,
    mem_vvNew_loaded h hl, hl.nKey, hl.nNew, ?_⟩
  · intro k info hi
    obtain ⟨i, hi', hsame⟩ := hentry hi
    exact hstruct.mapAddr_iff.2 ⟨i, hi', congrArg (fun a => a.toCNetAddr) hsame.address⟩
  · rw [hl.nTried, kept_written h, sub_self, Int.sub_zero]
    rfl

theorem checkConditions_loaded : am'.CheckConditions := by
  have hstruct := (written_sound h).structural (written_parsed h) hl
  have hold : ∀ {k' : Int} {i : CAddrInfo}, am'.mapInfo[k']? = some i →
      ∃ (k : Int) (info : CAddrInfo), am.mapInfo[k]? = some info ∧
        i.nLastSuccess = info.nLastSuccess ∧ i.fInTried = info.fInTried ∧ i.nLastTry = 0 := by
    intro k' i hi'
    obtain ⟨k, hk, rfl⟩ := (mem_mapInfo_loaded h hl).1 (mem_mapInfo_of_getElem? hi')
    obtain ⟨info, hi⟩ := getElem?_of_mem_mapInfo hk
    obtain ⟨i', hi'', hstored, ht, htry⟩ := entry_loaded h hl hi
    rw [hi'] at hi''
    obtain rfl := Option.some.inj hi''
    exact ⟨k, info, hi, congrArg (fun e => e.nLastSuccess) hstored, ht, htry⟩
  have hcons : am'.Consistent := ⟨hstruct, fun hi' ht => by
    obtain ⟨k, info, hi, hsuccess, htried, -⟩ := hold hi'
    have hs := (h.check.entry hi).status
    rw [← htried, ht, if_pos rfl] at hs
    rw [hsuccess]
    exact hs.1⟩
  refine hcons.checkConditions fun hi' => ?_
  obtain ⟨k, info, hi, hsuccess, -, htry⟩ := hold hi'
  rw [htry, hsuccess]
  exact ⟨Int64.le_refl 0, (h.check.entry hi).lastSuccess⟩

end

/-- **What is written is read back.** A manager that passes `Check_`, within the bucket bounds and
with its tried entries in the buckets their hashes give, is read back into any manager as a copy
of itself that passes `Check_` too, and no tried entry is lost. -/
theorem Unserialize_Serialize {c : PeersCodec} {H : BucketHash} {am : CAddrMan} (hc : c.RoundTrips)
    (hkey : c.key.RoundTrips am.nKey) (h : am.Writable H) (s : Loading) (rest : List UInt8) :
    ∃ s', Unserialize c H s (am.Serialize c ++ rest) = (s', some ((), rest)) ∧
      s'.am.Check_ = 0 ∧ (∃ ρ, Renaming ρ am s'.am) ∧ s'.nLost = 0 := by
  have hparse := Serialize_parses h hc hkey rest
  obtain ⟨hl, -, hlost⟩ := PeersFile.load_spec H (written_parsed h) s
  refine ⟨_, (Unserialize_parses c H).succeeds hparse,
    Check_eq_zero_iff.2 (checkConditions_loaded h hl),
    ⟨_, renaming_loaded h hl⟩, ?_⟩
  rw [hlost, kept_written h, sub_self]

section Runs

/-- After a run that leaves one entry in tried and one in new. -/
def twoPeers : CAddrMan :=
  let other : CAddress := { peer with ip := (CNetAddr.ofIPv4 9 9 9 9).ip }
  (Run.run (step .oneBucket) (.empty []) (peerRun 1400000000 ++
    [.add other peer.toCNetAddr 0 (fun _ => 1400000000) fun _ => 0])).toOption.getD (.empty [])

theorem twoPeers_writable : twoPeers.Writable .oneBucket where
  check := Check_eq_zero_iff.1 (by decide +kernel)
  new_size := by decide +kernel
  tried_size := by decide +kernel
  hashed := by
    have hall : ∀ p ∈ twoPeers.mapInfo.toList, p.2.fInTried = true →
        p.1 ∈ twoPeers.vvTried (p.2.GetTriedBucket .oneBucket twoPeers.nKey) := by decide +kernel
    intro nId info hi ht
    exact hall (nId, info) (ExtTreeMap.mem_toList_iff_getElem?_eq_some.2 hi) ht

theorem Unserialize_Serialize_twoPeers :
    ∃ s', Unserialize .disk .oneBucket startLoading (twoPeers.Serialize .disk ++ []) =
        (s', some ((), [])) ∧
      s'.am.Check_ = 0 ∧ (∃ ρ, Renaming ρ twoPeers s'.am) ∧ s'.nLost = 0 :=
  Unserialize_Serialize PeersCodec.disk_roundTrips
    (PeersCodec.keyCodec_roundTrips (by decide +kernel)) twoPeers_writable startLoading []

end Runs

end CAddrMan

end TriTip
