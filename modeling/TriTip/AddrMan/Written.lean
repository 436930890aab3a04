import TriTip.AddrMan.Sound

/-!
# The address manager: the file a manager is written to

The write branch numbers the new entries in the order of their ids and writes the tried ones
behind them; the number of an entry is its place in `fileOrder`. `Serialize_parses` says what the
bytes parse to (`written`), and `written_sound` that the file of a manager which passes `Check_`
and keeps to the bucket bounds is a sound one.
-/

namespace TriTip

open Std

namespace CAddrMan

/-- The entries in the order they are written. -/
def fileOrder (am : CAddrMan) : List (Int × CAddrInfo) :=
  (am.mapInfo.toList.filter fun p => !p.2.fInTried) ++
    am.mapInfo.toList.filter fun p => p.2.fInTried

/-- The number of an id in the file. -/
def fileIndex (am : CAddrMan) (nId : Int) : Nat := (am.fileOrder.map Prod.fst).idxOf nId

/-- What is asked of a manager to be written and read back: `Check_` finds nothing, the buckets are
within their bounds, and the tried entries are in the buckets their hashes give. -/
structure Writable (H : BucketHash) (am : CAddrMan) : Prop where
  check : am.CheckConditions
  new_size : ∀ b, (am.vvNew b).size ≤ ADDRMAN_NEW_BUCKET_SIZE
  tried_size : ∀ t, (am.vvTried t).length ≤ ADDRMAN_TRIED_BUCKET_SIZE
  hashed : ∀ {nId : Int} {info : CAddrInfo}, am.mapInfo[nId]? = some info → info.fInTried = true →
    nId ∈ am.vvTried (info.GetTriedBucket H am.nKey)

/-- The file a manager is written to. -/
def written (am : CAddrMan) : PeersFile where
  nKey := am.nKey
  nNew := am.nNew
  nTried := am.nTried
  nUBuckets := ADDRMAN_NEW_BUCKET_COUNT
  news := (am.mapInfo.toList.filter fun p => !p.2.fInTried).map fun p => p.2.stored
  trieds := (am.mapInfo.toList.filter fun p => p.2.fInTried).map fun p => p.2.stored
  lists := (List.finRange ADDRMAN_NEW_BUCKET_COUNT).map fun b =>
    (am.vvNew b).toList.map fun nId => (am.fileIndex nId : Int)

/-! ## The loops of the write branch -/

/-- The first loop writes the new entries, whatever the numbers given to the tried ones on the
way. -/
theorem WriteNewLoop_spec (c : PeersCodec) (nNew : Int) {l : List (Int × CAddrInfo)}
    (hnd : (l.map Prod.fst).Nodup) (hrefs : ∀ p ∈ l, p.2.nRefCount = 0 ↔ p.2.fInTried = true)
    (nIds : Int) (hcount : nIds + l.countP (fun p => !p.2.fInTried) = nNew)
    (m : ExtTreeMap Int Int compare) :
    (WriteNewLoop c nNew l nIds m).1 =
        (l.filter fun p => !p.2.fInTried).flatMap (fun p => c.writeInfo p.2) ∧
      (∀ {j : Nat} {k : Int} {i : CAddrInfo}, (l.filter fun p => !p.2.fInTried)[j]? = some (k, i) →
        (WriteNewLoop c nNew l nIds m).2[k]? = some (nIds + j)) ∧
      ∀ k ∉ l.map Prod.fst, (WriteNewLoop c nNew l nIds m).2[k]? = m[k]? := by
  induction l generalizing nIds m with
  | nil => exact ⟨rfl, by intro j k i h; simp at h, fun _ _ => rfl⟩
  | cons p rest ih =>
    obtain ⟨nId, info⟩ := p
    rw [List.map_cons, List.nodup_cons] at hnd
    have hrest := fun p hp => hrefs p (List.mem_cons_of_mem _ hp)
    have hinfo := hrefs (nId, info) List.mem_cons_self
    dsimp only at hinfo
    unfold WriteNewLoop
    by_cases hend : nIds = nNew
    · -- only tried entries are left
      rw [if_pos hend]
      have hnone : (((nId, info) :: rest).filter fun p => !p.2.fInTried) = [] := by
        rw [← List.length_eq_zero_iff, ← List.countP_eq_length_filter]
        omega
      rw [hnone]
      exact ⟨rfl, by intro j k i h; simp at h, fun _ _ => rfl⟩
    · rw [if_neg hend]
      dsimp only
      have hkept : ∀ {k : Int}, k ∉ ((nId, info) :: rest).map Prod.fst →
          (m.insert nId nIds)[k]? = m[k]? := by
        intro k hk
        rw [List.map_cons, List.mem_cons, not_or] at hk
        rw [ExtTreeMap.getElem?_insert]
        simp [Ne.symm hk.1]
      cases ht : info.fInTried with
      | true =>
        rw [List.countP_cons_of_neg (by simp [ht])] at hcount
        obtain ⟨hbytes, hnum, hframe⟩ := ih hnd.2 hrest nIds hcount (m.insert nId nIds)
        rw [if_neg (not_not.2 (hinfo.2 ht)), List.filter_cons_of_neg (by simp [ht])]
        refine ⟨hbytes, hnum, fun k hk => (hframe k ?_).trans (hkept hk)⟩
        exact fun hc => hk (List.mem_cons_of_mem _ hc)
      | false =>
        rw [List.countP_cons_of_pos (by simp [ht])] at hcount
        push_cast at hcount
        obtain ⟨hbytes, hnum, hframe⟩ := ih hnd.2 hrest (nIds + 1) (by omega)
          (m.insert nId nIds)
        have hpos : info.nRefCount ≠ 0 := fun h0 => by rw [hinfo.1 h0] at ht; cases ht
        rw [if_pos hpos, List.filter_cons_of_pos (by simp [ht])]
        dsimp only
        refine ⟨by rw [List.flatMap_cons, hbytes], ?_, fun k hk => (hframe k ?_).trans (hkept hk)⟩
        · intro j k i hj
          cases j with
          | zero =>
            obtain ⟨rfl, rfl⟩ := Prod.mk.inj (Option.some.inj hj)
            rw [hframe _ hnd.1, ExtTreeMap.getElem?_insert_self]
            simp
          | succ j =>
            rw [hnum hj]
            congr 1
            push_cast
            omega
        · exact fun hc => hk (List.mem_cons_of_mem _ hc)

theorem WriteTriedLoop_spec (c : PeersCodec) (nTried : Int) (l : List (Int × CAddrInfo))
    (nIds : Int)
    (hcount : nIds + l.countP (fun p => p.2.fInTried) = nTried) :
    WriteTriedLoop c nTried l nIds =
      (l.filter fun p => p.2.fInTried).flatMap fun p => c.writeInfo p.2 := by
  induction l generalizing nIds with
  | nil => rfl
  | cons p rest ih =>
    obtain ⟨nId, info⟩ := p
    unfold WriteTriedLoop
    by_cases hend : nIds = nTried
    · have hnone : (((nId, info) :: rest).filter fun p => p.2.fInTried) = [] := by
        rw [← List.length_eq_zero_iff, ← List.countP_eq_length_filter]
        omega
      rw [if_pos hend, hnone]
      rfl
    · rw [if_neg hend]
      cases ht : info.fInTried with
      | true =>
        rw [List.countP_cons_of_pos (by simp [ht])] at hcount
        push_cast at hcount
        rw [if_pos rfl, List.filter_cons_of_pos (by simp [ht]), List.flatMap_cons,
          ih (nIds + 1) (by omega)]
      | false =>
        rw [List.countP_cons_of_neg (by simp [ht])] at hcount
        rw [if_neg Bool.false_ne_true, List.filter_cons_of_neg (by simp [ht]), ih nIds hcount]

/-! ## What `Check_` says about the order -/

section Order

variable {am : CAddrMan}

theorem mem_fileOrder {nId : Int} {info : CAddrInfo} :
    (nId, info) ∈ am.fileOrder ↔ am.mapInfo[nId]? = some info := by
  unfold fileOrder
  simp only [List.mem_append, List.mem_filter, ExtTreeMap.mem_toList_iff_getElem?_eq_some]
  cases info.fInTried <;> simp

theorem fileOrder_perm : am.fileOrder.Perm am.mapInfo.toList := by
  unfold fileOrder
  refine (List.perm_append_comm.trans ?_)
  exact List.filter_append_perm (fun p : Int × CAddrInfo => p.2.fInTried) am.mapInfo.toList

theorem fileOrder_nodup : (am.fileOrder.map Prod.fst).Nodup :=
  (fileOrder_perm.map Prod.fst).nodup_iff.2 (OrdMap.toList_keys_nodup _)

/-- The number of an entry is its place. -/
theorem fileIndex_of_getElem? {j : Nat} {nId : Int} {info : CAddrInfo}
    (h : am.fileOrder[j]? = some (nId, info)) : am.fileIndex nId = j := by
  obtain ⟨hlt, hj⟩ := List.getElem?_eq_some_iff.1 h
  have hlt' : j < (am.fileOrder.map Prod.fst).length := by
    rw [List.length_map]
    exact hlt
  have hget : (am.fileOrder.map Prod.fst)[j] = nId := by
    rw [List.getElem_map, hj]
  unfold fileIndex
  rw [← hget]
  exact fileOrder_nodup.idxOf_getElem j hlt'

theorem getElem?_fileIndex {nId : Int} {info : CAddrInfo} (h : am.mapInfo[nId]? = some info) :
    am.fileOrder[am.fileIndex nId]? = some (nId, info) := by
  obtain ⟨j, hj⟩ := List.mem_iff_getElem?.1 (mem_fileOrder.2 h)
  rw [fileIndex_of_getElem? hj, hj]

theorem fileIndex_inj {nId nId' : Int} (h : nId ∈ am.mapInfo) (h' : nId' ∈ am.mapInfo)
    (heq : am.fileIndex nId = am.fileIndex nId') : nId = nId' := by
  obtain ⟨info, hi⟩ := Option.isSome_iff_exists.1 (ExtTreeMap.mem_iff_isSome_getElem?.1 h)
  obtain ⟨info', hi'⟩ := Option.isSome_iff_exists.1 (ExtTreeMap.mem_iff_isSome_getElem?.1 h')
  have hget := getElem?_fileIndex hi
  rw [heq, getElem?_fileIndex hi'] at hget
  exact (Prod.mk.inj (Option.some.inj hget)).1.symm

/-- Entries whose ids are all in some buckets are not more than the buckets have room for. -/
theorem count_le_of_buckets {n size : Nat} (buckets : Fin n → List Int)
    (hsize : ∀ b, (buckets b).length ≤ size) {p : CAddrInfo → Bool}
    (hmem : ∀ {nId : Int} {info : CAddrInfo}, am.mapInfo[nId]? = some info → p info = true →
      nId ∈ (List.finRange n).flatMap buckets) :
    OrdMap.count p am.mapInfo ≤ n * size := by
  have hlen : ((List.finRange n).flatMap buckets).length ≤ n * size := by
    rw [List.length_flatMap]
    refine (List.sum_le_card_nsmul _ size ?_).trans (by simp)
    intro m hm
    obtain ⟨b, -, rfl⟩ := List.mem_map.1 hm
    exact hsize b
  have hnd : ((am.mapInfo.toList.filter fun e => p e.2).map Prod.fst).Nodup :=
    (OrdMap.toList_keys_nodup am.mapInfo).sublist (List.filter_sublist.map _)
  have hsub : ((am.mapInfo.toList.filter fun e => p e.2).map Prod.fst) ⊆
      (List.finRange n).flatMap buckets := by
    intro nId hk
    obtain ⟨⟨nId, info⟩, hi, rfl⟩ := List.mem_map.1 hk
    obtain ⟨hi, ht⟩ := List.mem_filter.1 hi
    exact hmem (ExtTreeMap.mem_toList_iff_getElem?_eq_some.1 hi) ht
  have hle := (List.subperm_of_subset hnd hsub).length_le
  rw [List.length_map, ← List.countP_eq_length_filter] at hle
  exact hle.trans hlen

namespace CheckConditions

variable (h : am.CheckConditions)
include h

/-- Entries have references exactly while they are not in tried. -/
theorem nRefCount_eq_zero_iff {nId : Int} {info : CAddrInfo} (hi : am.mapInfo[nId]? = some info) :
    info.nRefCount = 0 ↔ info.fInTried = true := by
  have hs := (h.entry hi).status
  cases ht : info.fInTried
  · simp only [ht, Bool.false_eq_true, if_false] at hs
    simp
    omega
  · simp only [ht, if_true] at hs
    simp [hs.2]

/-- Only new entries are in new buckets. -/
theorem new_known {nId : Int} {b : Fin ADDRMAN_NEW_BUCKET_COUNT} (hb : nId ∈ am.vvNew b) :
    ∃ info, am.mapInfo[nId]? = some info ∧ info.fInTried = false := by
  have hpos : 0 < am.newCount nId :=
    Finset.card_pos.2 ⟨b, Finset.mem_filter.2 ⟨Finset.mem_univ b, hb⟩⟩
  have hcount := h.new_count nId
  cases hi : am.mapInfo[nId]? with
  | none =>
    rw [hi, Option.elim_none] at hcount
    omega
  | some info =>
    rw [hi, Option.elim_some] at hcount
    cases ht : info.fInTried
    · exact ⟨info, rfl, ht⟩
    · rw [ht, if_pos rfl] at hcount
      omega

theorem newCount_eq {nId : Int} {info : CAddrInfo} (hi : am.mapInfo[nId]? = some info)
    (ht : info.fInTried = false) : (am.newCount nId : Int) = info.nRefCount ∧
      1 ≤ am.newCount nId ∧ am.newCount nId ≤ ADDRMAN_NEW_BUCKETS_PER_ADDRESS := by
  have hcount := h.new_count nId
  have hs := (h.entry hi).status
  rw [hi, Option.elim_some, ht, if_neg Bool.false_ne_true] at hcount
  simp only [ht, Bool.false_eq_true, if_false] at hs
  rw [← hcount] at hs
  exact ⟨hcount, by omega, Int.ofNat_le.1 hs.2⟩

theorem length_news : ((am.mapInfo.toList.filter fun p => !p.2.fInTried).length : Int) =
    am.nNew := by
  rw [← List.countP_eq_length_filter, h.nNew_eq]
  rfl

theorem length_trieds : ((am.mapInfo.toList.filter fun p => p.2.fInTried).length : Int) =
    am.nTried := by
  rw [← List.countP_eq_length_filter, h.nTried_eq]
  rfl

/-- New entries are numbered from 0 on, tried ones from `nNew` on. -/
theorem fileIndex_lt_iff {nId : Int} {info : CAddrInfo} (hi : am.mapInfo[nId]? = some info) :
    (am.fileIndex nId : Int) < am.nNew ↔ info.fInTried = false := by
  have hget := getElem?_fileIndex hi
  have hlen := h.length_news
  unfold fileOrder at hget
  rw [List.getElem?_append] at hget
  split at hget
  · next hlt =>
    have hm := (List.mem_filter.1 (List.mem_of_getElem? hget)).2
    simp only [Bool.not_eq_true'] at hm
    simp only [hm, iff_true]
    omega
  · next hge =>
    have hm := (List.mem_filter.1 (List.mem_of_getElem? hget)).2
    dsimp only at hm
    simp only [hm, Bool.true_eq_false, iff_false]
    omega

/-- There is no more room than this in the new buckets. -/
theorem nNew_le (hsize : ∀ b, (am.vvNew b).size ≤ ADDRMAN_NEW_BUCKET_SIZE) : am.nNew ≤ 16384 := by
  rw [h.nNew_eq]
  refine Int.ofNat_le.2 (count_le_of_buckets (fun b => (am.vvNew b).toList)
    (fun b => by rw [ExtTreeSet.length_toList]; exact hsize b) fun {nId info} hi ht => ?_)
  have hpos := (h.newCount_eq hi (by simpa using ht)).2.1
  rw [← count_newIds] at hpos
  exact List.count_pos_iff.1 hpos

theorem nTried_le (hsize : ∀ t, (am.vvTried t).length ≤ ADDRMAN_TRIED_BUCKET_SIZE) :
    am.nTried ≤ 4096 := by
  rw [h.nTried_eq]
  refine Int.ofNat_le.2 (count_le_of_buckets am.vvTried hsize fun {nId info} hi ht => ?_)
  exact (h.tried_mem nId).2 ⟨info, hi, ht⟩

end CheckConditions

end Order

/-! ## The bytes parse to the file -/

section Bytes

variable {c : PeersCodec} (hc : c.RoundTrips)
include hc

theorem parseInfo_writeInfo (e : CAddrInfo) (rest : List UInt8) :
    PeersFile.parseInfo c (c.writeInfo e ++ rest) = some (e.stored, rest) := by
  unfold PeersFile.parseInfo PeersCodec.writeInfo
  simp only [List.append_assoc]
  refine Parser.bind_eq_some.2 ⟨_, _, hc.address _ _, ?_⟩
  refine Parser.bind_eq_some.2 ⟨_, _, hc.netAddr _ _, ?_⟩
  refine Parser.bind_eq_some.2 ⟨_, _, hc.int64 _ _, ?_⟩
  exact Parser.bind_eq_some.2 ⟨_, _, hc.int _ _, rfl⟩

theorem parseInfos (es : List CAddrInfo) (rest : List UInt8) :
    (PeersFile.parseInfo c).many es.length (es.flatMap c.writeInfo ++ rest) =
      some (es.map CAddrInfo.stored, rest) := by
  have hwrite : es.flatMap c.writeInfo = (es.map CAddrInfo.stored).flatMap c.writeInfo := by
    rw [List.flatMap_map]
    rfl
  rw [hwrite, ← List.length_map (f := CAddrInfo.stored)]
  refine Parser.many_flatMap (fun e he rest => ?_) rest
  obtain ⟨e, -, rfl⟩ := List.mem_map.1 he
  exact parseInfo_writeInfo hc e.stored rest

theorem read_writeInt {n : Int} (h0 : 0 ≤ n) (hlt : n < 2 ^ 31) (rest : List UInt8) :
    ∃ m : Int32, c.int.read (c.writeInt n ++ rest) = some (m, rest) ∧ m.toInt = n :=
  ⟨_, hc.int _ _, Int32.toInt_ofInt_of_le (by omega) hlt⟩

theorem parseIndex_writeInt {n : Int} (h0 : 0 ≤ n) (hlt : n < 2 ^ 31) (rest : List UInt8) :
    PeersFile.parseIndex c (c.writeInt n ++ rest) = some (n, rest) := by
  obtain ⟨m, hm, rfl⟩ := read_writeInt hc h0 hlt rest
  exact Parser.bind_eq_some.2 ⟨m, rest, hm, rfl⟩

theorem parseList_write {l : List Int} (hlen : l.length < 2 ^ 31)
    (hl : ∀ n ∈ l, 0 ≤ n ∧ n < 2 ^ 31) (rest : List UInt8) :
    PeersFile.parseList c (c.writeInt l.length ++ l.flatMap c.writeInt ++ rest) =
      some (l, rest) := by
  rw [List.append_assoc]
  obtain ⟨m, hm, hml⟩ := read_writeInt hc (Int.natCast_nonneg l.length) (by omega)
    (l.flatMap c.writeInt ++ rest)
  refine Parser.bind_eq_some.2 ⟨m, _, hm, ?_⟩
  rw [hml, Int.toNat_natCast]
  exact Parser.many_flatMap
    (fun n hn rest => parseIndex_writeInt hc (hl n hn).1 (hl n hn).2 rest) rest

end Bytes

section Writable

variable {H : BucketHash} {am : CAddrMan} (h : am.Writable H)
include h

/-- The numbers the first loop gives to the new entries are their places. -/
theorem mapUnkIds_eq (c : PeersCodec) {nId : Int} {b : Fin ADDRMAN_NEW_BUCKET_COUNT}
    (hb : nId ∈ am.vvNew b) :
    ((WriteNewLoop c am.nNew am.mapInfo.toList 0 ∅).2[nId]?).getD 0 = am.fileIndex nId := by
  obtain ⟨info, hi, ht⟩ := h.check.new_known hb
  have hget := getElem?_fileIndex hi
  have hlt := (h.check.fileIndex_lt_iff hi).2 ht
  rw [← h.check.length_news] at hlt
  unfold fileOrder at hget
  rw [List.getElem?_append_left (Int.ofNat_lt.1 hlt)] at hget
  have hspec := WriteNewLoop_spec c am.nNew (OrdMap.toList_keys_nodup am.mapInfo)
    (fun p hp => h.check.nRefCount_eq_zero_iff (ExtTreeMap.mem_toList_iff_getElem?_eq_some.1 hp))
    0 (by rw [Int.zero_add, h.check.nNew_eq]; rfl) ∅
  rw [hspec.2.1 hget, Option.getD_some, Int.zero_add]

theorem WriteBucket_eq (c : PeersCodec) (b : Fin ADDRMAN_NEW_BUCKET_COUNT) :
    WriteBucket c (WriteNewLoop c am.nNew am.mapInfo.toList 0 ∅).2 (am.vvNew b) =
      c.writeInt (((am.vvNew b).toList.map fun nId => (am.fileIndex nId : Int)).length) ++
        ((am.vvNew b).toList.map fun nId => (am.fileIndex nId : Int)).flatMap c.writeInt := by
  unfold WriteBucket
  rw [List.length_map, ExtTreeSet.length_toList, List.flatMap_map]
  congr 1
  refine List.flatMap_congr fun nId hk => ?_
  rw [mapUnkIds_eq h c (ExtTreeSet.mem_toList.1 hk)]

theorem Serialize_eq (c : PeersCodec) :
    am.Serialize c =
      c.byte.write 0 ++ (c.key.write am.nKey ++ (c.writeInt am.nNew ++ (c.writeInt am.nTried ++
        (c.writeInt ADDRMAN_NEW_BUCKET_COUNT ++
          (((am.mapInfo.toList.filter fun p => !p.2.fInTried).map Prod.snd).flatMap c.writeInfo ++
            (((am.mapInfo.toList.filter fun p => p.2.fInTried).map Prod.snd).flatMap c.writeInfo ++
              am.written.lists.flatMap fun l =>
                c.writeInt l.length ++ l.flatMap c.writeInt)))))) := by
  have hspec := WriteNewLoop_spec c am.nNew (OrdMap.toList_keys_nodup am.mapInfo)
    (fun p hp => h.check.nRefCount_eq_zero_iff (ExtTreeMap.mem_toList_iff_getElem?_eq_some.1 hp))
    0 (by rw [Int.zero_add, h.check.nNew_eq]; rfl) ∅
  have htried := WriteTriedLoop_spec c am.nTried am.mapInfo.toList 0
    (by rw [Int.zero_add, h.check.nTried_eq]; rfl)
  unfold Serialize
  simp only [List.append_assoc, hspec.1, htried, List.flatMap_map, WriteBucket_eq h c, written]

theorem fileIndex_lt {nId : Int} {b : Fin ADDRMAN_NEW_BUCKET_COUNT} (hb : nId ∈ am.vvNew b) :
    (am.fileIndex nId : Int) < am.nNew := by
  obtain ⟨info, hi, ht⟩ := h.check.new_known hb
  exact (h.check.fileIndex_lt_iff hi).2 ht

/-- **The bytes a manager is written to parse to its file.** -/
theorem Serialize_parses {c : PeersCodec} (hc : c.RoundTrips) (hkey : c.key.RoundTrips am.nKey)
    (rest : List UInt8) : PeersFile.parse c (am.Serialize c ++ rest) = some (am.written, rest) := by
  have hnews := h.check.length_news
  have htrieds := h.check.length_trieds
  have hnew := h.check.nNew_le h.new_size
  have htried := h.check.nTried_le h.tried_size
  rw [Serialize_eq h]
  simp only [List.append_assoc]
  unfold PeersFile.parse
  refine Parser.bind_eq_some.2 ⟨_, _, hc.byte _ _, ?_⟩
  refine Parser.bind_eq_some.2 ⟨_, _, hkey _, ?_⟩
  obtain ⟨mNew, hm, hmNew⟩ := read_writeInt hc (n := am.nNew) (by omega) (by omega) _
  refine Parser.bind_eq_some.2 ⟨_, _, hm, ?_⟩
  obtain ⟨mTried, hm, hmTried⟩ := read_writeInt hc (n := am.nTried) (by omega) (by omega) _
  refine Parser.bind_eq_some.2 ⟨_, _, hm, ?_⟩
  obtain ⟨mBuckets, hm, hmBuckets⟩ :=
    read_writeInt hc (n := ADDRMAN_NEW_BUCKET_COUNT) (by decide) (by decide) _
  refine Parser.bind_eq_some.2 ⟨_, _, hm, ?_⟩
  have hnewLen : mNew.toInt.toNat =
      ((am.mapInfo.toList.filter fun p => !p.2.fInTried).map Prod.snd).length := by
    rw [hmNew, List.length_map, ← hnews, Int.toNat_natCast]
  have htriedLen : mTried.toInt.toNat =
      ((am.mapInfo.toList.filter fun p => p.2.fInTried).map Prod.snd).length := by
    rw [hmTried, List.length_map, ← htrieds, Int.toNat_natCast]
  have hlistsLen : mBuckets.toInt.toNat = am.written.lists.length := by
    rw [hmBuckets]
    unfold written
    rw [List.length_map, List.length_finRange, Int.toNat_natCast]
  rw [hnewLen, htriedLen, hlistsLen]
  refine Parser.bind_eq_some.2 ⟨_, _, parseInfos hc _ _, ?_⟩
  refine Parser.bind_eq_some.2 ⟨_, _, parseInfos hc _ _, ?_⟩
  refine Parser.bind_eq_some.2 ⟨am.written.lists, rest,
    Parser.many_flatMap (fun l hl rest => ?_) rest, ?_⟩
  · obtain ⟨b, -, rfl⟩ := List.mem_map.1 hl
    refine parseList_write hc ?_ (fun n hn => ?_) rest
    · have hsize : (am.vvNew b).size ≤ 64 := h.new_size b
      rw [List.length_map, ExtTreeSet.length_toList]
      omega
    · obtain ⟨nId, hk, rfl⟩ := List.mem_map.1 hn
      have := fileIndex_lt h (ExtTreeSet.mem_toList.1 hk)
      exact ⟨Int.natCast_nonneg _, by omega⟩
  · rw [hmNew, hmTried, hmBuckets, List.map_map, List.map_map]
    rfl

/-! ## The file is sound -/

omit h in
theorem zipIdx_finRange (n : Nat) :
    (List.finRange n).zipIdx = (List.finRange n).map fun b => (b, b.val) := by
  refine List.ext_getElem (by simp) fun j hj hj' => ?_
  simp

omit h in
theorem written_listing (am : CAddrMan) : am.written.listing =
    (List.finRange ADDRMAN_NEW_BUCKET_COUNT).flatMap fun b =>
      (am.vvNew b).toList.map fun nId => (b.val, (am.fileIndex nId : Int)) := by
  unfold PeersFile.listing written
  dsimp only
  rw [List.zipIdx_map, zipIdx_finRange, List.flatMap_map, List.flatMap_map]
  refine List.flatMap_congr fun b _ => ?_
  simp

omit h in
theorem flatMap_ite_singleton {α β : Type} (l : List α) (p : α → Prop) [DecidablePred p]
    (f : α → β) :
    (l.flatMap fun a => if p a then [f a] else []) = (l.filter fun a => p a).map f := by
  induction l with
  | nil => rfl
  | cons a l ih =>
    rw [List.flatMap_cons, ih]
    by_cases hp : p a <;> simp [hp]

/-- The buckets that list a new entry are the buckets it is in. -/
theorem places_written {nId : Int} {info : CAddrInfo} (hi : am.mapInfo[nId]? = some info)
    (ht : info.fInTried = false) : am.written.places (am.fileIndex nId) =
      ((List.finRange ADDRMAN_NEW_BUCKET_COUNT).filter fun b => nId ∈ am.vvNew b).map Fin.val := by
  have hone : ∀ b, (((am.vvNew b).toList.map fun n => (b.val, (am.fileIndex n : Int))).filter
      fun p => p.2 = (am.fileIndex nId : Int)).map Prod.fst =
        if nId ∈ am.vvNew b then [b.val] else [] := by
    intro b
    have hfilter : ((am.vvNew b).toList.filter fun n =>
        decide ((am.fileIndex n : Int) = am.fileIndex nId)) =
        (am.vvNew b).toList.filter fun n => decide (n = nId) := by
      refine List.filter_congr fun n hn =>
        decide_eq_decide.2 ⟨fun heq => ?_, fun heq => by rw [heq]⟩
      obtain ⟨i, hi', -⟩ := h.check.new_known (ExtTreeSet.mem_toList.1 hn)
      refine fileIndex_inj ?_ ?_ (Int.ofNat_inj.1 heq)
      · exact ExtTreeMap.mem_iff_isSome_getElem?.2 (by rw [hi']; rfl)
      · exact ExtTreeMap.mem_iff_isSome_getElem?.2 (by rw [hi]; rfl)
    rw [List.filter_map, List.map_map]
    change ((am.vvNew b).toList.filter fun n =>
      decide ((am.fileIndex n : Int) = am.fileIndex nId)).map (fun _ => b.val) = _
    rw [hfilter, List.filter_eq, (OrdMap.set_toList_nodup _).count]
    simp only [ExtTreeSet.mem_toList]
    split <;> rfl
  have hall : ((am.written.listing.filter fun p => p.2 = (am.fileIndex nId : Int)).map Prod.fst) =
      ((List.finRange ADDRMAN_NEW_BUCKET_COUNT).filter fun b => nId ∈ am.vvNew b).map Fin.val := by
    rw [written_listing, List.filter_flatMap, List.map_flatMap]
    simp only [hone]
    exact flatMap_ite_singleton _ _ _
  have hfew : (((List.finRange ADDRMAN_NEW_BUCKET_COUNT).filter fun b => nId ∈ am.vvNew b).map
      Fin.val).length ≤ ADDRMAN_NEW_BUCKETS_PER_ADDRESS := by
    have hcard : am.newCount nId =
        ((List.finRange ADDRMAN_NEW_BUCKET_COUNT).filter fun b => nId ∈ am.vvNew b).length := by
      unfold newCount
      rw [← List.toFinset_card_of_nodup ((List.nodup_finRange _).filter _)]
      congr 1
      ext b
      simp
    rw [List.length_map, ← hcard]
    exact (h.check.newCount_eq hi ht).2.2
  unfold PeersFile.places PeersFile.placesOf
  rw [hall, List.take_of_length_le hfew]

omit h in
theorem native_written (am : CAddrMan) : am.written.Native := rfl

omit h in
theorem fileIndex_news {n : Nat} {nId : Int} {info : CAddrInfo}
    (hn : (am.mapInfo.toList.filter fun p => !p.2.fInTried)[n]? = some (nId, info)) :
    am.fileIndex nId = n ∧ am.mapInfo[nId]? = some info ∧ info.fInTried = false := by
  obtain ⟨hi, ht⟩ := List.mem_filter.1 (List.mem_of_getElem? hn)
  have hplace : am.fileOrder[n]? = some (nId, info) := by
    unfold fileOrder
    rw [List.getElem?_append_left (List.getElem?_eq_some_iff.1 hn).1, hn]
  exact ⟨fileIndex_of_getElem? hplace, ExtTreeMap.mem_toList_iff_getElem?_eq_some.1 hi,
    by simpa using ht⟩

omit h in
/-- The new entry at a place of the file. -/
theorem news_written {n : Nat} {e : CAddrInfo} (he : am.written.news[n]? = some e) :
    ∃ (nId : Int) (info : CAddrInfo), am.mapInfo[nId]? = some info ∧ info.fInTried = false ∧
      am.fileIndex nId = n ∧ e = info.stored := by
  unfold written at he
  rw [List.getElem?_map, Option.map_eq_some_iff] at he
  obtain ⟨⟨nId, info⟩, hn, rfl⟩ := he
  obtain ⟨hidx, hi, ht⟩ := fileIndex_news hn
  exact ⟨nId, info, hi, ht, hidx, rfl⟩

theorem mem_newBuckets_written {nId : Int} {info e : CAddrInfo} (hi : am.mapInfo[nId]? = some info)
    (ht : info.fInTried = false) (b : Fin ADDRMAN_NEW_BUCKET_COUNT) :
    b.val ∈ am.written.newBuckets H (am.fileIndex nId) e ↔ nId ∈ am.vvNew b := by
  unfold PeersFile.newBuckets
  rw [if_pos (native_written am), places_written h hi ht]
  simp [Fin.val_inj]

/-- Every tried entry finds room in its bucket. -/
theorem kept_written : am.written.kept H = am.written.trieds := by
  refine PeersFile.keptOf_eq_self fun t => ?_
  change (List.map (fun p : Int × CAddrInfo => p.2.stored) _).countP _ ≤ _
  rw [List.countP_map, List.countP_eq_length_filter, List.filter_filter,
    ← List.length_map (f := Prod.fst)]
  refine (List.subperm_of_subset ?_ fun nId hk => ?_).length_le.trans (h.tried_size t)
  · exact (OrdMap.toList_keys_nodup am.mapInfo).sublist (List.filter_sublist.map _)
  · obtain ⟨⟨nId, info⟩, hi, rfl⟩ := List.mem_map.1 hk
    obtain ⟨hi, hand⟩ := List.mem_filter.1 hi
    obtain ⟨hb, ht⟩ := Bool.and_eq_true_iff.1 hand
    have hbucket : info.GetTriedBucket H am.nKey = t := of_decide_eq_true hb
    rw [← hbucket]
    exact h.hashed (ExtTreeMap.mem_toList_iff_getElem?_eq_some.1 hi) ht

theorem addresses_written :
    ((am.written.news ++ am.written.kept H).map fun e => e.toCNetAddr).Nodup := by
  have hmap : ((am.written.news ++ am.written.kept H).map fun e => e.toCNetAddr) =
      am.fileOrder.map fun p => p.2.toCNetAddr := by
    rw [kept_written h]
    unfold written fileOrder
    rw [List.map_append, List.map_append, List.map_map, List.map_map]
    rfl
  rw [hmap, List.nodup_map_iff_inj_on fileOrder_nodup.of_map]
  rintro ⟨k, i⟩ hi ⟨k', i'⟩ hi' heq
  have hk := (h.check.entry (mem_fileOrder.1 hi)).addr
  have hk' := (h.check.entry (mem_fileOrder.1 hi')).addr
  dsimp only at heq
  rw [heq, hk'] at hk
  subst hk
  exact List.inj_on_of_nodup_map fileOrder_nodup hi hi' rfl

theorem room_written (b : Fin ADDRMAN_NEW_BUCKET_COUNT) :
    (am.written.news.zipIdx.countP fun p => b.val ∈ am.written.newBuckets H p.2 p.1) ≤
      ADDRMAN_NEW_BUCKET_SIZE := by
  have hzip : am.written.news.zipIdx =
      ((am.mapInfo.toList.filter fun p => !p.2.fInTried).zipIdx).map
      (Prod.map (fun p => p.2.stored) id) := List.zipIdx_map
  rw [hzip, List.countP_map, List.countP_eq_length_filter, ← List.length_map (f := fun p => p.1.1)]
  have hsize := h.new_size b
  rw [← ExtTreeSet.length_toList] at hsize
  refine (List.subperm_of_subset ?_ fun nId hk => ?_).length_le.trans hsize
  · refine List.Nodup.sublist (List.filter_sublist.map _) ?_
    have hfst : (am.mapInfo.toList.filter fun p => !p.2.fInTried).zipIdx.map (fun p => p.1.1) =
        (am.mapInfo.toList.filter fun p => !p.2.fInTried).map Prod.fst := by
      conv => rhs; rw [← List.zipIdx_map_fst 0 (am.mapInfo.toList.filter fun p => !p.2.fInTried),
        List.map_map]
      rfl
    rw [hfst]
    exact (OrdMap.toList_keys_nodup am.mapInfo).sublist (List.filter_sublist.map _)
  · obtain ⟨⟨⟨nId, info⟩, n⟩, hin, rfl⟩ := List.mem_map.1 hk
    obtain ⟨hzip, hb⟩ := List.mem_filter.1 hin
    have hn := List.mem_zipIdx_iff_getElem?.1 hzip
    obtain ⟨rfl, hi, ht⟩ := fileIndex_news hn
    exact ExtTreeSet.mem_toList.2 ((mem_newBuckets_written h hi ht b).1 (of_decide_eq_true hb))

/-- **The file a manager is written to is sound.** -/
theorem written_sound : am.written.Sound H where
  nNew := by
    have := h.check.length_news
    change 0 ≤ am.nNew
    omega
  nTried := by
    have := h.check.length_trieds
    change 0 ≤ am.nTried
    omega
  nUBuckets := Int.le_refl _
  addresses := addresses_written h
  indexes := by
    intro k hk
    rw [written_listing] at hk
    obtain ⟨⟨b, k⟩, hmem, rfl⟩ := List.mem_map.1 hk
    obtain ⟨b', -, hmem⟩ := List.mem_flatMap.1 hmem
    obtain ⟨nId, hb, heq⟩ := List.mem_map.1 hmem
    obtain ⟨-, rfl⟩ := Prod.mk.inj heq
    rw [if_pos (native_written am), Nat.cast_zero, Int.add_zero]
    exact ⟨Int.natCast_nonneg _, fileIndex_lt h (ExtTreeSet.mem_toList.1 hb)⟩
  referred := by
    rintro ⟨e, n⟩ he
    obtain ⟨nId, info, hi, ht, rfl, -⟩ := news_written (List.mem_zipIdx_iff_getElem?.1 he)
    have hpos := (h.check.newCount_eq hi ht).2.1
    obtain ⟨b, hb⟩ := Finset.card_pos.1 hpos
    exact List.ne_nil_of_mem ((mem_newBuckets_written h hi ht b).2 (Finset.mem_filter.1 hb).2)
  distinct := by
    rintro ⟨e, n⟩ he
    obtain ⟨nId, info, hi, ht, rfl, -⟩ := news_written (List.mem_zipIdx_iff_getElem?.1 he)
    unfold PeersFile.newBuckets
    rw [if_pos (native_written am), places_written h hi ht]
    exact ((List.nodup_finRange _).filter _).map Fin.val_injective
  room := room_written h

end Writable

end CAddrMan

end TriTip
