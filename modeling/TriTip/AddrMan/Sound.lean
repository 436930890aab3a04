import TriTip.AddrMan.Loaded
import TriTip.AddrMan.DiskCodec

/-!
# The address manager: which files give a manager

The reader takes the counts and the indexes of a file as they are. `PeersFile.Sound` is what a
file has to satisfy for the tables it gives to agree with each other and to keep to their bounds,
and it is exactly that (`load_structural_iff`).
-/

namespace TriTip

open Std

namespace PeersFile

open CAddrMan

variable {H : BucketHash} {file : PeersFile} {am : CAddrMan}

/-- The new buckets the reader puts a new entry into: the ones that list it, or the one its hash
gives if the file is of another number of buckets. -/
def newBuckets (H : BucketHash) (file : PeersFile) (n : Nat) (e : CAddrInfo) : List Nat :=
  if file.Native then file.places n else [(e.GetNewBucket H file.nKey e.source).val]

/-- What makes a file safe to load. -/
structure Sound (H : BucketHash) (file : PeersFile) : Prop where
  nNew : 0 ≤ file.nNew
  nTried : 0 ≤ file.nTried
  nUBuckets : file.nUBuckets ≤ ADDRMAN_NEW_BUCKET_COUNT
  addresses : ((file.news ++ file.kept H).map fun e => e.toCNetAddr).Nodup
  indexes : ∀ k ∈ file.listing.map Prod.snd,
    0 ≤ k ∧ k < file.nNew + if file.Native then 0 else (file.kept H).length
  referred : ∀ p ∈ file.news.zipIdx, file.newBuckets H p.2 p.1 ≠ []
  distinct : ∀ p ∈ file.news.zipIdx, (file.newBuckets H p.2 p.1).Nodup
  room : ∀ b : Fin ADDRMAN_NEW_BUCKET_COUNT,
    (file.news.zipIdx.countP fun p => b.val ∈ file.newBuckets H p.2 p.1) ≤ ADDRMAN_NEW_BUCKET_SIZE

/-! ## The entries -/

theorem mem_entries {k : Int} {i : CAddrInfo} : (k, i) ∈ file.entries H ↔
    (∃ (n : Nat) (e : CAddrInfo), file.news[n]? = some e ∧ k = (n : Int) ∧
      i = newEntry file.nUBuckets n e) ∨
    ∃ (j : Nat) (e : CAddrInfo), (file.kept H)[j]? = some e ∧ k = file.nNew + j ∧
      i = triedEntry file.news.length j e := by
  unfold entries
  rw [List.mem_append, mem_newList, mem_triedList]

theorem mem_ids {k : Int} : k ∈ (file.entries H).map Prod.fst ↔
    (0 ≤ k ∧ k < file.news.length) ∨
      (file.nNew ≤ k ∧ k < file.nNew + (file.kept H).length) := by
  constructor
  · intro hk
    obtain ⟨⟨k, i⟩, hi, rfl⟩ := List.mem_map.1 hk
    rcases mem_entries.1 hi with ⟨n, e, he, rfl, -⟩ | ⟨j, e, he, rfl, -⟩
    · have := (List.getElem?_eq_some_iff.1 he).1
      exact Or.inl ⟨by dsimp only; omega, by dsimp only; omega⟩
    · have := (List.getElem?_eq_some_iff.1 he).1
      exact Or.inr ⟨by dsimp only; omega, by dsimp only; omega⟩
  · rintro (⟨h0, hlt⟩ | ⟨h0, hlt⟩)
    · have hn : k.toNat < file.news.length := by omega
      exact List.mem_map.2 ⟨_, mem_entries.2 (Or.inl ⟨k.toNat, _, List.getElem?_eq_getElem hn,
        (Int.toNat_of_nonneg h0).symm, rfl⟩), rfl⟩
    · have hj : (k - file.nNew).toNat < (file.kept H).length := by omega
      exact List.mem_map.2 ⟨_, mem_entries.2 (Or.inr ⟨_, _, List.getElem?_eq_getElem hj,
        by omega, rfl⟩), rfl⟩

theorem map_address_entries :
    (file.entries H).map (fun p => p.2.toCNetAddr) =
      (file.news ++ file.kept H).map fun e => e.toCNetAddr := by
  unfold entries newList triedList
  rw [List.map_append, List.map_map, List.map_map, List.map_append]
  congr 1
  · conv => rhs; rw [← List.zipIdx_map_fst 0 file.news, List.map_map]
    rfl
  · conv => rhs; rw [← List.zipIdx_map_fst 0 (file.kept H), List.map_map]
    rfl

/-- No tried bucket gets more entries than it has room for. -/
theorem countP_keptOf_le (H : BucketHash) (nKey : List UInt8) (ts : List CAddrInfo)
    (t : Fin ADDRMAN_TRIED_BUCKET_COUNT) :
    ((keptOf H nKey ts).countP fun e => e.GetTriedBucket H nKey = t) ≤
      ADDRMAN_TRIED_BUCKET_SIZE := by
  induction ts using List.reverseRecOn with
  | nil => exact Nat.zero_le _
  | append_singleton ts e ih =>
    rw [keptOf_snoc]
    split
    · next hroom =>
      rw [List.countP_append, List.countP_singleton]
      by_cases ht : e.GetTriedBucket H nKey = t
      · subst ht
        rw [if_pos (decide_eq_true rfl)]
        exact hroom
      · rw [if_neg (by simpa using ht)]
        exact ih
    · exact ih

/-- Tried entries for which there is room are all kept. -/
theorem keptOf_eq_self {nKey : List UInt8} {ts : List CAddrInfo}
    (h : ∀ t, (ts.countP fun e => e.GetTriedBucket H nKey = t) ≤ ADDRMAN_TRIED_BUCKET_SIZE) :
    keptOf H nKey ts = ts := by
  induction ts using List.reverseRecOn with
  | nil => rfl
  | append_singleton ts e ih =>
    have hts : keptOf H nKey ts = ts := by
      refine ih fun t => ?_
      have ht := h t
      rw [List.countP_append] at ht
      exact (Nat.le_add_right _ _).trans ht
    have hroom := h (e.GetTriedBucket H nKey)
    rw [List.countP_append, List.countP_singleton, if_pos (decide_eq_true rfl)] at hroom
    rw [keptOf_snoc, hts, if_pos (Nat.lt_of_succ_le hroom)]

/-- Every place of an index is a bucket with a list. -/
theorem lt_of_mem_places {b : Nat} {k : Int} (hb : b ∈ file.places k) : b < file.lists.length := by
  obtain ⟨⟨b, k'⟩, hmem, rfl⟩ := List.mem_map.1 (List.mem_of_mem_take hb)
  obtain ⟨⟨l, b'⟩, hl, hp⟩ := List.mem_flatMap.1 (List.mem_filter.1 hmem).1
  obtain ⟨k'', -, hp⟩ := List.mem_map.1 hp
  obtain ⟨rfl, -⟩ := Prod.mk.inj hp
  obtain ⟨hlt, -⟩ := List.getElem?_eq_some_iff.1 (List.mem_zipIdx_iff_getElem?.1 hl)
  exact hlt

theorem lt_of_mem_newBuckets (h : file.Parsed) {b n : Nat} {e : CAddrInfo}
    (hb : b ∈ file.newBuckets H n e) : b < ADDRMAN_NEW_BUCKET_COUNT := by
  unfold newBuckets at hb
  split at hb
  · next hnative =>
    have := lt_of_mem_places hb
    rw [h.lists, hnative] at this
    exact this
  · rw [List.mem_singleton.1 hb]
    exact Fin.isLt _

theorem length_newBuckets_le {n : Nat} {e : CAddrInfo} :
    (file.newBuckets H n e).length ≤ ADDRMAN_NEW_BUCKETS_PER_ADDRESS := by
  unfold newBuckets
  split
  · exact List.length_take_le _ _
  · rw [List.length_singleton]
    decide

/-! ## The manager it gives -/

namespace Loaded

/-- A new entry has as many references as the reader found buckets for it. -/
theorem new (h : file.Loaded H am) {n : Nat} {e : CAddrInfo} (he : file.news[n]? = some e) :
    ∃ i, am.mapInfo[(n : Int)]? = some i ∧ i.fInTried = false ∧ i.toCNetAddr = e.toCNetAddr ∧
      i.nRefCount = (file.newBuckets H n e).length ∧ i.nRandomPos = n := by
  refine ⟨_, h.entry (mem_entries.2 (Or.inl ⟨n, e, he, rfl, rfl⟩)), rfl, rfl, ?_, rfl⟩
  unfold newEntry refsOf newBuckets
  by_cases hnative : file.Native
  · rw [if_pos hnative, if_pos hnative, if_neg (not_not.2 hnative), Int.zero_add]
    rfl
  · rw [if_neg hnative, if_neg hnative, if_pos hnative, List.length_singleton]
    rfl

/-- A tried entry, and the references that index lists give it all the same. -/
theorem tried (h : file.Loaded H am) {j : Nat} {e : CAddrInfo} (he : (file.kept H)[j]? = some e) :
    ∃ i, am.mapInfo[file.nNew + j]? = some i ∧ i.fInTried = true ∧ i.toCNetAddr = e.toCNetAddr ∧
      i.nRefCount = refsOf file.nUBuckets file.listing (file.nNew + j) ∧
      i.nRandomPos = file.news.length + j := by
  refine ⟨_, h.entry (mem_entries.2 (Or.inr ⟨j, e, he, rfl, rfl⟩)), rfl, rfl, ?_, rfl⟩
  exact Int.zero_add _

theorem mem_vvNew (h : file.Loaded H am) {n : Nat} {e : CAddrInfo} (he : file.news[n]? = some e)
    (b : Fin ADDRMAN_NEW_BUCKET_COUNT) :
    (n : Int) ∈ am.vvNew b ↔ b.val ∈ file.newBuckets H n e := by
  rw [h.vvNew]
  unfold newBuckets
  split
  · next hnative =>
    constructor
    · rintro (⟨hc, -⟩ | ⟨-, hb⟩)
      · exact absurd hnative hc
      · exact hb
    · exact fun hb => Or.inr ⟨hnative, hb⟩
  · next hnative =>
    rw [List.mem_singleton, ← Fin.ext_iff]
    constructor
    · rintro (⟨-, n', e', he', hn, hb⟩ | ⟨hc, -⟩)
      · obtain rfl := Int.ofNat_inj.1 hn
        rw [he] at he'
        obtain rfl := Option.some.inj he'
        exact hb.symm
      · exact absurd hc hnative
    · rintro rfl
      exact Or.inl ⟨hnative, n, e, he, rfl, rfl⟩

/-- In how many buckets it is. -/
theorem newCount_eq (h : file.Loaded H am) (hp : file.Parsed) {n : Nat} {e : CAddrInfo}
    (he : file.news[n]? = some e) :
    am.newCount n = (file.newBuckets H n e).toFinset.card := by
  unfold newCount
  refine Finset.card_bij (fun b _ => b.val) ?_ ?_ ?_
  · intro b hb
    rw [List.mem_toFinset, ← h.mem_vvNew he]
    exact (Finset.mem_filter.1 hb).2
  · intro b _ b' _ hbb
    exact Fin.ext hbb
  · intro b hb
    rw [List.mem_toFinset] at hb
    refine ⟨⟨b, lt_of_mem_newBuckets hp hb⟩, ?_, rfl⟩
    exact Finset.mem_filter.2 ⟨Finset.mem_univ _, (h.mem_vvNew he _).2 hb⟩

theorem mem_vvTried (h : file.Loaded H am) {t : Fin ADDRMAN_TRIED_BUCKET_COUNT} {k : Int} :
    k ∈ am.vvTried t ↔ ∃ (j : Nat) (e : CAddrInfo), (file.kept H)[j]? = some e ∧
      e.GetTriedBucket H file.nKey = t ∧ k = file.nNew + j := by
  rw [h.vvTried]
  unfold triedBucketIds
  simp only [List.mem_map, List.mem_filter, Prod.exists, List.mem_zipIdx_iff_getElem?,
    decide_eq_true_eq]
  constructor
  · rintro ⟨e, j, ⟨he, ht⟩, rfl⟩
    exact ⟨j, e, he, ht, rfl⟩
  · rintro ⟨j, e, he, ht, rfl⟩
    exact ⟨e, j, ⟨he, ht⟩, rfl⟩

theorem nodup_vvTried (h : file.Loaded H am) (t : Fin ADDRMAN_TRIED_BUCKET_COUNT) :
    (am.vvTried t).Nodup := by
  rw [h.vvTried]
  unfold triedBucketIds
  have hsub : (((file.kept H).zipIdx.filter fun p => p.1.GetTriedBucket H file.nKey = t).map
      Prod.snd).Nodup := by
    refine List.Nodup.sublist (List.filter_sublist.map _) ?_
    rw [List.zipIdx_map_snd]
    exact List.nodup_range'
  have hinj : Function.Injective fun j : Nat => file.nNew + (j : Int) := by
    intro j j' hj
    exact Int.ofNat_inj.1 (Int.add_left_cancel hj)
  have hmap := hsub.map hinj
  rwa [List.map_map] at hmap

theorem length_vvTried_le (h : file.Loaded H am) (t : Fin ADDRMAN_TRIED_BUCKET_COUNT) :
    (am.vvTried t).length ≤ ADDRMAN_TRIED_BUCKET_SIZE := by
  rw [h.vvTried, length_triedBucketIds]
  exact countP_keptOf_le _ _ _ _

/-- An index is looked up, so it is in `mapInfo` afterwards. -/
theorem mem_mapInfo (h : file.Loaded H am) {k : Int} : k ∈ am.mapInfo ↔
    k ∈ (file.entries H).map Prod.fst ∨ k ∈ file.listing.map Prod.snd := by
  by_cases hk : k ∈ (file.entries H).map Prod.fst
  · obtain ⟨⟨k, i⟩, hi, rfl⟩ := List.mem_map.1 hk
    refine ⟨fun _ => Or.inl hk, fun _ => ?_⟩
    rw [ExtTreeMap.mem_iff_isSome_getElem?, h.entry hi]
    rfl
  · rw [h.stray hk]
    exact ⟨Or.inr, fun hor => hor.resolve_left hk⟩

theorem mem_listing_of_mem_places {b : Nat} {k : Int} (hb : b ∈ file.places k) :
    k ∈ file.listing.map Prod.snd := by
  by_contra hk
  have hnil := placesOf_eq_nil.2 hk
  unfold places at hb
  rw [hnil] at hb
  cases hb

/-- What a new bucket holds, if the lists of a native file name new entries only. -/
theorem mem_vvNew_iff (h : file.Loaded H am) (hp : file.Parsed)
    (hidx : file.Native → ∀ k ∈ file.listing.map Prod.snd, 0 ≤ k ∧ k < file.nNew)
    (b : Fin ADDRMAN_NEW_BUCKET_COUNT) (k : Int) : k ∈ am.vvNew b ↔
      ∃ (n : Nat) (e : CAddrInfo), file.news[n]? = some e ∧ b.val ∈ file.newBuckets H n e ∧
        k = (n : Int) := by
  constructor
  · intro hk
    obtain ⟨n, e, he, rfl⟩ :
        ∃ (n : Nat) (e : CAddrInfo), file.news[n]? = some e ∧ k = (n : Int) := by
      rcases (h.vvNew b k).1 hk with ⟨-, n, e, he, rfl, -⟩ | ⟨hnative, hb⟩
      · exact ⟨n, e, he, rfl⟩
      · obtain ⟨h0, hlt⟩ := hidx hnative k (mem_listing_of_mem_places hb)
        have hn : k.toNat < file.news.length := by
          rw [hp.news]
          omega
        exact ⟨k.toNat, _, List.getElem?_eq_getElem hn, (Int.toNat_of_nonneg h0).symm⟩
    exact ⟨n, e, he, (h.mem_vvNew he b).1 hk, rfl⟩
  · rintro ⟨n, e, he, hb, rfl⟩
    exact (h.mem_vvNew he b).2 hb

theorem size_vvNew (h : file.Loaded H am) (hp : file.Parsed)
    (hidx : file.Native → ∀ k ∈ file.listing.map Prod.snd, 0 ≤ k ∧ k < file.nNew)
    (b : Fin ADDRMAN_NEW_BUCKET_COUNT) : (am.vvNew b).size =
      file.news.zipIdx.countP fun p => b.val ∈ file.newBuckets H p.2 p.1 := by
  have hnd : ((file.news.zipIdx.filter fun p => b.val ∈ file.newBuckets H p.2 p.1).map
      fun p => (p.2 : Int)).Nodup := by
    have hsub : ((file.news.zipIdx.filter fun p => b.val ∈ file.newBuckets H p.2 p.1).map
        Prod.snd).Nodup := by
      refine List.Nodup.sublist (List.filter_sublist.map _) ?_
      rw [List.zipIdx_map_snd]
      exact List.nodup_range'
    have hmap := hsub.map (f := fun n : Nat => (n : Int)) fun n n' hn => Int.ofNat_inj.1 hn
    rwa [List.map_map] at hmap
  have hperm := (List.perm_ext_iff_of_nodup (OrdMap.set_toList_nodup (am.vvNew b)) hnd).2
    fun k => by
    rw [ExtTreeSet.mem_toList, h.mem_vvNew_iff hp hidx]
    simp only [List.mem_map, List.mem_filter, Prod.exists, List.mem_zipIdx_iff_getElem?,
      decide_eq_true_eq]
    constructor
    · rintro ⟨n, e, he, hb, rfl⟩
      exact ⟨e, n, ⟨he, hb⟩, rfl⟩
    · rintro ⟨e, n, ⟨he, hb⟩, rfl⟩
      exact ⟨n, e, he, hb, rfl⟩
  rw [← ExtTreeSet.length_toList, hperm.length_eq, List.length_map, List.countP_eq_length_filter]

/-- Entries of different addresses are what `mapAddr` can tell apart. -/
theorem addresses_nodup_iff (h : file.Loaded H am) :
    ((file.news ++ file.kept H).map fun e => e.toCNetAddr).Nodup ↔
      ∀ {a : CNetAddr} {k : Int} {i : CAddrInfo}, (k, i) ∈ file.entries H → i.toCNetAddr = a →
        am.mapAddr a = some k := by
  rw [← map_address_entries, List.nodup_map_iff_inj_on h.nodup.of_map]
  constructor
  · intro hinj a k i hi hia
    cases ha : am.mapAddr a with
    | none =>
      subst hia
      exact absurd ha (h.addr_none hi)
    | some k' =>
      obtain ⟨i', hi', hia'⟩ := h.addr_some ha
      have := hinj _ hi' _ hi (hia'.trans hia.symm)
      rw [(Prod.mk.inj this).1]
  · rintro hfind ⟨k, i⟩ hi ⟨k', i'⟩ hi' hia
    have hk := hfind hi rfl
    have hk' := hfind hi' hia.symm
    rw [hk] at hk'
    obtain rfl := Option.some.inj hk'
    exact List.inj_on_of_nodup_map h.nodup hi hi' rfl

/-! ## Sound files, and no others, give agreeing tables -/

/-- Without a stray index every entry is one that was read. -/
theorem entry_cases (h : file.Loaded H am)
    (hidx : ∀ k ∈ file.listing.map Prod.snd, k ∈ (file.entries H).map Prod.fst) {k : Int}
    {i : CAddrInfo} (hi : am.mapInfo[k]? = some i) :
    (∃ (n : Nat) (e : CAddrInfo), file.news[n]? = some e ∧ k = (n : Int)) ∨
      ∃ (j : Nat) (e : CAddrInfo), (file.kept H)[j]? = some e ∧ k = file.nNew + j := by
  have hk : k ∈ am.mapInfo := by
    rw [ExtTreeMap.mem_iff_isSome_getElem?, hi]
    rfl
  have hmem : k ∈ (file.entries H).map Prod.fst := (h.mem_mapInfo.1 hk).elim id (hidx k)
  obtain ⟨⟨k, i'⟩, hi', rfl⟩ := List.mem_map.1 hmem
  rcases mem_entries.1 hi' with ⟨n, e, he, hn, -⟩ | ⟨j, e, he, hj, -⟩
  · exact Or.inl ⟨n, e, he, hn⟩
  · exact Or.inr ⟨j, e, he, hj⟩

theorem sound (h : file.Loaded H am) (hp : file.Parsed)
    (hb : file.nUBuckets ≤ ADDRMAN_NEW_BUCKET_COUNT)
    (hs : am.Structural) (hsize : ∀ b, (am.vvNew b).size ≤ ADDRMAN_NEW_BUCKET_SIZE) :
    file.Sound H := by
  have hids : ∀ k ∈ file.listing.map Prod.snd, k ∈ (file.entries H).map Prod.fst := by
    intro k hk
    rw [← h.vRandom, hs.vRandom_perm.mem_iff, ExtTreeMap.mem_keys]
    exact h.mem_mapInfo.2 (Or.inr hk)
  have hnew : 0 ≤ file.nNew := by
    have := hs.nNew_eq
    rw [h.nNew] at this
    omega
  have hnews : (file.news.length : Int) = file.nNew := by
    rw [hp.news]
    exact Int.toNat_of_nonneg hnew
  -- an index of a tried entry would give it a reference
  have hidx : file.Native → ∀ k ∈ file.listing.map Prod.snd, 0 ≤ k ∧ k < file.nNew := by
    intro hnative k hk
    rcases mem_ids.1 (hids k hk) with ⟨h0, hlt⟩ | ⟨hge, hlt⟩
    · exact ⟨h0, by omega⟩
    · have hj : (k - file.nNew).toNat < (file.kept H).length := by omega
      obtain ⟨i, hi, ht, -, hrefs, -⟩ := h.tried (List.getElem?_eq_getElem hj)
      have hzero := (hs.tried_entry hi ht).1
      have hkj : file.nNew + ((k - file.nNew).toNat : Int) = k := by omega
      rw [hrefs, hkj, refsOf, if_pos hnative] at hzero
      have hnil : placesOf file.listing k = [] :=
        List.length_eq_zero_iff.1 (Int.ofNat_eq_zero.1 hzero)
      exact absurd hk (placesOf_eq_nil.1 hnil)
  have hentry : ∀ p ∈ file.news.zipIdx, file.newBuckets H p.2 p.1 ≠ [] ∧
      (file.newBuckets H p.2 p.1).Nodup := by
    rintro ⟨e, n⟩ he
    obtain ⟨i, hi, ht, -, hrefs, -⟩ := h.new (List.mem_zipIdx_iff_getElem?.1 he)
    obtain ⟨hcount, hpos, -⟩ := hs.new_entry hi ht
    rw [h.newCount_eq hp (List.mem_zipIdx_iff_getElem?.1 he), hrefs] at hcount
    refine ⟨fun hnil => ?_, ?_⟩
    · rw [hrefs, hnil] at hpos
      exact absurd hpos (by decide)
    · exact Multiset.toFinset_card_eq_card_iff_nodup.1 (Int.ofNat_inj.1 hcount).symm
  refine ⟨hnew, ?_, hb, h.addresses_nodup_iff.2 ?_, ?_, fun p hp => (hentry p hp).1,
    fun p hp => (hentry p hp).2, fun b => ?_⟩
  · -- the counters add up to the number of entries
    have hlen : am.vRandom.length = file.news.length + (file.kept H).length := by
      rw [h.vRandom, List.length_map, entries, List.length_append, length_newList,
        length_triedList]
    have hsize' := hs.vRandom_perm.length_eq
    rw [ExtTreeMap.length_keys,
      ← OrdMap.count_add_count_not (fun info : CAddrInfo => info.fInTried)] at hsize'
    have h1 := hs.nNew_eq
    have h2 := hs.nTried_eq
    rw [h.nNew] at h1
    rw [h.nTried, hp.trieds] at h2
    omega
  · intro a k i hi hia
    exact hs.mapAddr_iff.2 ⟨_, h.entry hi, hia⟩
  · intro k hk
    split
    · next hnative =>
      rw [Nat.cast_zero, Int.add_zero]
      exact hidx hnative k hk
    · rcases mem_ids.1 (hids k hk) with ⟨h0, hlt⟩ | ⟨hge, hlt⟩
      · exact ⟨h0, by omega⟩
      · exact ⟨by omega, hlt⟩
  · rw [← h.size_vvNew hp hidx]
    exact hsize b

end Loaded

/-- The indexes of a sound file are ids. -/
theorem Sound.mem_ids (h : file.Sound H) (hp : file.Parsed) :
    ∀ k ∈ file.listing.map Prod.snd, k ∈ (file.entries H).map Prod.fst := by
  intro k hk
  have hnew := h.nNew
  have hnews := hp.news
  obtain ⟨h0, hlt⟩ := h.indexes k hk
  refine PeersFile.mem_ids.2 ?_
  split at hlt
  · exact Or.inl ⟨h0, by omega⟩
  · by_cases hcase : k < file.nNew
    · exact Or.inl ⟨h0, by omega⟩
    · exact Or.inr ⟨by omega, hlt⟩

/-- A native file that is sound lists new entries only. -/
theorem Sound.indexes_native (h : file.Sound H) (hnative : file.Native) :
    ∀ k ∈ file.listing.map Prod.snd, 0 ≤ k ∧ k < file.nNew := by
  intro k hk
  have := h.indexes k hk
  rwa [if_pos hnative, Nat.cast_zero, Int.add_zero] at this

theorem Sound.refsOf_tried (h : file.Sound H) (j : Nat) :
    refsOf file.nUBuckets file.listing (file.nNew + j) = 0 := by
  unfold refsOf
  split
  · next hnative =>
    have hno : file.nNew + (j : Int) ∉ file.listing.map Prod.snd := by
      intro hk
      have := (h.indexes_native hnative _ hk).2
      omega
    rw [placesOf_eq_nil.2 hno]
    rfl
  · rfl

theorem Sound.structural (hs : file.Sound H) (hp : file.Parsed) (h : file.Loaded H am) :
    am.Structural := by
  have hnews : (file.news.length : Int) = file.nNew := by
    rw [hp.news]
    exact Int.toNat_of_nonneg hs.nNew
  have hcases := fun {k : Int} {i : CAddrInfo} => h.entry_cases (hs.mem_ids hp) (k := k) (i := i)
  have hnew : ∀ {n : Nat} {e i : CAddrInfo},
      file.news[n]? = some e → am.mapInfo[(n : Int)]? = some i →
      i.fInTried = false ∧ i.nRefCount = (file.newBuckets H n e).length := by
    intro n e i he hi
    obtain ⟨i', hi', ht, -, hr, -⟩ := h.new he
    rw [hi] at hi'
    obtain rfl := Option.some.inj hi'
    exact ⟨ht, hr⟩
  have htried : ∀ {j : Nat} {e i : CAddrInfo}, (file.kept H)[j]? = some e →
      am.mapInfo[file.nNew + j]? = some i → i.fInTried = true ∧ i.nRefCount = 0 := by
    intro j e i he hi
    obtain ⟨i', hi', ht, -, hr, -⟩ := h.tried he
    rw [hi] at hi'
    obtain rfl := Option.some.inj hi'
    exact ⟨ht, hr.trans (hs.refsOf_tried j)⟩
  have hknown : ∀ {k : Int} {i : CAddrInfo}, am.mapInfo[k]? = some i →
      ∃ i₀, (k, i₀) ∈ file.entries H ∧ i.nRandomPos = i₀.nRandomPos ∧
        i.toCNetAddr = i₀.toCNetAddr := by
    intro k i hi
    have hk : k ∈ (file.entries H).map Prod.fst := by
      refine (h.mem_mapInfo.1 ?_).elim id (hs.mem_ids hp k)
      rw [ExtTreeMap.mem_iff_isSome_getElem?, hi]
      rfl
    obtain ⟨⟨k, i₀⟩, hi₀, rfl⟩ := List.mem_map.1 hk
    rw [h.entry hi₀] at hi
    obtain rfl := Option.some.inj hi
    exact ⟨i₀, hi₀, rfl, rfl⟩
  constructor
  case vRandom_perm =>
    have hkeys : am.mapInfo.keys.Nodup := ExtTreeMap.nodup_keys
    rw [h.vRandom]
    refine (List.perm_ext_iff_of_nodup h.nodup hkeys).2 fun k => ?_
    rw [ExtTreeMap.mem_keys, h.mem_mapInfo]
    exact ⟨Or.inl, fun hor => hor.elim id (hs.mem_ids hp k)⟩
  case nRandomPos =>
    intro k i hi
    obtain ⟨i₀, hi₀, hpos, -⟩ := hknown hi
    obtain ⟨j, hj⟩ := List.mem_iff_getElem?.1 hi₀
    rw [hpos, h.pos hj, h.vRandom]
    refine ⟨Int.natCast_nonneg j, ?_⟩
    rw [Int.toNat_natCast, List.getElem?_map, hj]
    rfl
  case mapAddr_iff =>
    intro a k
    constructor
    · intro ha
      obtain ⟨i, hi, hia⟩ := h.addr_some ha
      exact ⟨_, h.entry hi, hia⟩
    · rintro ⟨i, hi, hia⟩
      obtain ⟨i₀, hi₀, -, hia₀⟩ := hknown hi
      exact h.addresses_nodup_iff.1 hs.addresses hi₀ (hia₀.symm.trans hia)
  case tried_entry =>
    intro k i hi ht
    rcases hcases hi with ⟨n, e, he, rfl⟩ | ⟨j, e, he, rfl⟩
    · rw [(hnew he hi).1] at ht
      cases ht
    · refine ⟨(htried he hi).2, e.GetTriedBucket H file.nKey, fun t => ?_⟩
      rw [(h.nodup_vvTried t).count]
      refine if_congr ?_ rfl rfl
      rw [h.mem_vvTried]
      constructor
      · rintro ⟨j', e', he', ht', hj⟩
        obtain rfl : j = j' := by omega
        rw [he] at he'
        obtain rfl := Option.some.inj he'
        exact ht'.symm
      · rintro rfl
        exact ⟨j, e, he, rfl, rfl⟩
  case new_entry =>
    intro k i hi ht
    rcases hcases hi with ⟨n, e, he, rfl⟩ | ⟨j, e, he, rfl⟩
    · have hmem : (e, n) ∈ file.news.zipIdx := List.mem_zipIdx_iff_getElem?.2 he
      rw [(hnew he hi).2, h.newCount_eq hp he,
        List.toFinset_card_of_nodup (hs.distinct _ hmem)]
      refine ⟨rfl, ?_, Int.ofNat_le.2 length_newBuckets_le⟩
      have := List.length_pos_iff.2 (hs.referred _ hmem)
      dsimp only at this
      omega
    · rw [(htried he hi).1] at ht
      cases ht
  case tried_known =>
    intro k t hk
    obtain ⟨j, e, he, -, rfl⟩ := h.mem_vvTried.1 hk
    obtain ⟨i, hi, ht, -⟩ := h.tried he
    exact ⟨i, hi, ht⟩
  case new_known =>
    intro k b hk
    obtain ⟨n, e, he, -, rfl⟩ := (h.mem_vvNew_iff hp hs.indexes_native b k).1 hk
    obtain ⟨i, hi, ht, -⟩ := h.new he
    exact ⟨i, hi, ht⟩
  case nNew_eq =>
    have hnd : ((List.range file.news.length).map fun n : Nat => (n : Int)).Nodup :=
      List.nodup_range.map fun n n' hn => Int.ofNat_inj.1 hn
    have hlen := OrdMap.length_eq_count (p := fun i => !i.fInTried) (m := am.mapInfo) hnd
      fun k => ?_
    · rw [h.nNew, ← hnews, ← hlen, List.length_map, List.length_range]
    · simp only [List.mem_map, List.mem_range, Bool.not_eq_true']
      constructor
      · rintro ⟨n, hn, rfl⟩
        obtain ⟨i, hi, ht, -⟩ := h.new (List.getElem?_eq_getElem hn)
        exact ⟨i, hi, ht⟩
      · rintro ⟨i, hi, ht⟩
        rcases hcases hi with ⟨n, e, he, rfl⟩ | ⟨j, e, he, rfl⟩
        · exact ⟨n, (List.getElem?_eq_some_iff.1 he).1, rfl⟩
        · rw [(htried he hi).1] at ht
          cases ht
  case nTried_eq =>
    have hnd : ((List.range (file.kept H).length).map fun j : Nat => file.nNew + (j : Int)).Nodup :=
      List.nodup_range.map fun j j' hj => Int.ofNat_inj.1 (Int.add_left_cancel hj)
    have hlen := OrdMap.length_eq_count (p := fun i => i.fInTried) (m := am.mapInfo) hnd fun k => ?_
    · have htrieds := hp.trieds
      have := hs.nTried
      rw [h.nTried, ← hlen, List.length_map, List.length_range]
      omega
    · simp only [List.mem_map, List.mem_range]
      constructor
      · rintro ⟨j, hj, rfl⟩
        obtain ⟨i, hi, ht, -⟩ := h.tried (List.getElem?_eq_getElem hj)
        exact ⟨i, hi, ht⟩
      · rintro ⟨i, hi, ht⟩
        rcases hcases hi with ⟨n, e, he, rfl⟩ | ⟨j, e, he, rfl⟩
        · rw [(hnew he hi).1] at ht
          cases ht
        · exact ⟨j, (List.getElem?_eq_some_iff.1 he).1, rfl⟩

theorem Sound.size_vvNew_le (hs : file.Sound H) (hp : file.Parsed) (h : file.Loaded H am)
    (b : Fin ADDRMAN_NEW_BUCKET_COUNT) : (am.vvNew b).size ≤ ADDRMAN_NEW_BUCKET_SIZE := by
  rw [h.size_vvNew hp hs.indexes_native]
  exact hs.room b

/-- The tables agree and keep to their bounds, and no bucket outside `vvNew` was reached. -/
def CleanLoad (s : Loading) : Prop :=
  s.outOfRange = false ∧ s.am.Structural ∧ (∀ b, (s.am.vvNew b).size ≤ ADDRMAN_NEW_BUCKET_SIZE) ∧
    ∀ t, (s.am.vvTried t).length ≤ ADDRMAN_TRIED_BUCKET_SIZE

/-- **Sound files are the files that load cleanly.** -/
theorem cleanLoad_iff (hp : file.Parsed) {s : Loading} (hs : s.outOfRange = false) :
    CleanLoad (file.load H s) ↔ file.Sound H := by
  obtain ⟨h, hout, -⟩ := load_spec H hp s
  have hflag : (file.load H s).outOfRange = false ↔
      file.nUBuckets ≤ (ADDRMAN_NEW_BUCKET_COUNT : Int) := by
    rw [← Bool.not_eq_true, hout, hs]
    simp
  constructor
  · rintro ⟨hno, hstruct, hsize, -⟩
    exact h.sound hp (hflag.1 hno) hstruct hsize
  · intro hsound
    exact ⟨hflag.2 hsound.nUBuckets, hsound.structural hp h, hsound.size_vvNew_le hp h,
      h.length_vvTried_le⟩

end PeersFile

namespace CAddrMan

/-- **When the read branch gives a sound manager.** Whenever it completes, the tables agree, keep to
their bounds and no bucket outside `vvNew` was reached, if and only if the file it read is sound. -/
theorem Unserialize_clean_iff (c : PeersCodec) (H : BucketHash) {s s' : Loading}
    {bs rest : List UInt8} (hs : s.outOfRange = false)
    (h : Unserialize c H s bs = (s', some ((), rest))) :
    ∃ file, PeersFile.parse c bs = some (file, rest) ∧
      (PeersFile.CleanLoad s' ↔ file.Sound H) := by
  obtain ⟨file, hp, rfl, -⟩ := (Unserialize_parses c H).of_some h
  exact ⟨file, hp, PeersFile.cleanLoad_iff (PeersFile.parsed_of_parse hp) hs⟩

section Files

/-- The file of a manager without entries, written with `n` new buckets. -/
def emptyFile (n : Nat) : List UInt8 :=
  [0, 32] ++ List.replicate 32 0 ++ LittleEndian.encode 4 0 ++ LittleEndian.encode 4 0 ++
    LittleEndian.encode 4 n ++ List.replicate (4 * n) 0

def startLoading : Loading := ⟨.empty [], 0, false⟩

theorem Unserialize_clean_iff_emptyFile :
    ∃ file, PeersFile.parse .disk (emptyFile 2) = some (file, []) ∧
      (PeersFile.CleanLoad (Unserialize .disk .oneBucket startLoading (emptyFile 2)).1 ↔
        file.Sound .oneBucket) :=
  Unserialize_clean_iff .disk .oneBucket (s := startLoading) rfl (Prod.ext rfl (by decide +kernel))

/-- The file of a build with one more new bucket takes the reader out of `vvNew`. -/
theorem outOfRange_of_more_buckets :
    (Unserialize .disk .oneBucket startLoading (emptyFile (ADDRMAN_NEW_BUCKET_COUNT + 1))).2 =
        some ((), []) ∧
      (Unserialize .disk .oneBucket startLoading
        (emptyFile (ADDRMAN_NEW_BUCKET_COUNT + 1))).1.outOfRange = true :=
  ⟨by decide +kernel, by decide +kernel⟩

end Files

end CAddrMan

end TriTip
