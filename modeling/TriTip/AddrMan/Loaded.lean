import TriTip.AddrMan.Load
import TriTip.AddrMan.Check

/-!
# The address manager: the tables a file gives

What `PeersFile.load` makes of a file, table by table (`Loaded`). The entries are listed in the
order of `vRandom`: first the new entries under the ids `0, 1, ..`, then the tried entries that
find room (`kept`) under the ids from `nNew` on. The index lists put new entries into buckets and
count their references, the first four times an index occurs (`places`); an index that is no id
makes an entry out of nothing.
-/

namespace TriTip

open Std

/-- The fields of an entry that a file stores; the others as the reader leaves them. -/
def CAddrInfo.stored (e : CAddrInfo) : CAddrInfo :=
  { CAddrInfo.ofAddress e.toCAddress e.source with
    nLastSuccess := e.nLastSuccess
    nAttempts := e.nAttempts }

namespace PeersFile

variable (H : BucketHash) (file : PeersFile)

/-- Written by a program with as many new buckets as this one. -/
abbrev Native : Prop := file.nUBuckets = (ADDRMAN_NEW_BUCKET_COUNT : Int)

/-- The tried entries there is room for: the first of each bucket. -/
def keptOf (nKey : List UInt8) (es : List CAddrInfo) : List CAddrInfo :=
  es.foldl (fun ks e =>
    if ks.countP (fun k => k.GetTriedBucket H nKey = e.GetTriedBucket H nKey) <
        ADDRMAN_TRIED_BUCKET_SIZE then ks ++ [e] else ks) []

def kept : List CAddrInfo := keptOf H file.nKey file.trieds

/-- The index lists as pairs of a bucket and an index, in the order they are read. -/
def listing : List (Nat × Int) :=
  file.lists.zipIdx.flatMap fun l => l.1.map fun k => (l.2, k)

/-- The buckets that count for an index: the first four in whose lists it is. -/
def placesOf (L : List (Nat × Int)) (k : Int) : List Nat :=
  ((L.filter fun p => p.2 = k).map Prod.fst).take ADDRMAN_NEW_BUCKETS_PER_ADDRESS

def places (k : Int) : List Nat := placesOf file.listing k

omit file in
theorem placesOf_snoc (L : List (Nat × Int)) (b : Nat) (k k' : Int) :
    placesOf (L ++ [(b, k)]) k' =
      if k = k' ∧ (placesOf L k').length < ADDRMAN_NEW_BUCKETS_PER_ADDRESS then
        placesOf L k' ++ [b]
      else placesOf L k' := by
  unfold placesOf
  rw [List.filter_append, List.map_append]
  set l := (L.filter fun p => p.2 = k').map Prod.fst
  by_cases hk : k = k'
  · subst hk
    rw [List.length_take]
    by_cases hlt : l.length < ADDRMAN_NEW_BUCKETS_PER_ADDRESS
    · have hmin : min ADDRMAN_NEW_BUCKETS_PER_ADDRESS l.length <
          ADDRMAN_NEW_BUCKETS_PER_ADDRESS := by
        omega
      rw [if_pos ⟨rfl, hmin⟩, List.take_of_length_le (Nat.le_of_lt hlt), List.take_of_length_le]
      · simp
      · simpa using hlt
    · have hmin : ¬min ADDRMAN_NEW_BUCKETS_PER_ADDRESS l.length <
          ADDRMAN_NEW_BUCKETS_PER_ADDRESS := by
        omega
      rw [if_neg (fun h => hmin h.2), List.take_append_of_le_length (by omega)]
  · simp [hk]

omit file in
theorem placesOf_eq_nil {L : List (Nat × Int)} {k : Int} :
    placesOf L k = [] ↔ k ∉ L.map Prod.snd := by
  unfold placesOf
  simp [List.take_eq_nil_iff, List.filter_eq_nil_iff]
  constructor
  · intro h b hb
    exact h b k hb rfl
  · rintro h b k' hb rfl
    exact h b hb

end PeersFile

namespace CAddrMan

/-- The entries of the manager in the order of `vRandom`. -/
structure Listed (am : CAddrMan) (L : List (Int × CAddrInfo)) : Prop where
  map : ∀ (k : Int) (i : CAddrInfo), am.mapInfo[k]? = some i ↔ (k, i) ∈ L
  ids : am.vRandom = L.map Prod.fst
  nodup : (L.map Prod.fst).Nodup
  pos : ∀ {j : Nat} {k : Int} {i : CAddrInfo}, L[j]? = some (k, i) → i.nRandomPos = j
  addr_some : ∀ {a : CNetAddr} {k : Int}, am.mapAddr a = some k → ∃ i, (k, i) ∈ L ∧ i.toCNetAddr = a
  addr_none : ∀ {k : Int} {i : CAddrInfo}, (k, i) ∈ L → am.mapAddr i.toCNetAddr ≠ none

theorem Listed.nil {am : CAddrMan} (hmap : am.mapInfo = ∅) (haddr : am.mapAddr = fun _ => none)
    (hids : am.vRandom = []) : am.Listed [] := by
  constructor <;> simp [hmap, haddr, hids]

/-- One more entry at the end. -/
theorem Listed.snoc {am am' : CAddrMan} {L : List (Int × CAddrInfo)} (h : am.Listed L) {k : Int}
    {info : CAddrInfo} (hk : k ∉ L.map Prod.fst) (hpos : info.nRandomPos = L.length)
    (hmap : am'.mapInfo = am.mapInfo.insert k info) (hids : am'.vRandom = am.vRandom ++ [k])
    (haddr : am'.mapAddr = Function.update am.mapAddr info.toCNetAddr (some k)) :
    am'.Listed (L ++ [(k, info)]) where
  map := by
    intro k' i
    rw [hmap, ExtTreeMap.getElem?_insert, List.mem_append, List.mem_singleton, Prod.mk.injEq]
    by_cases hkk : k = k'
    · subst hkk
      have hno : ∀ i, (k, i) ∉ L := fun i hi => hk (List.mem_map.2 ⟨_, hi, rfl⟩)
      simp [hno, eq_comm]
    · simp [hkk, Ne.symm hkk, h.map]
  ids := by rw [hids, h.ids, List.map_append, List.map_singleton]
  nodup := by
    rw [List.map_append, List.map_singleton, List.nodup_append_comm]
    exact List.nodup_cons.2 ⟨hk, h.nodup⟩
  pos := by
    intro j k' i hj
    rcases Nat.lt_trichotomy j L.length with hlt | rfl | hgt
    · rw [List.getElem?_append_left hlt] at hj
      exact h.pos hj
    · rw [List.getElem?_append_right (Nat.le_refl _), Nat.sub_self] at hj
      obtain ⟨rfl, rfl⟩ := Prod.mk.inj (Option.some.inj hj)
      exact hpos
    · rw [List.getElem?_eq_none (by rw [List.length_append, List.length_singleton]; omega)] at hj
      cases hj
  addr_some := by
    intro a k' ha
    rw [haddr, Function.update_apply] at ha
    split at ha
    · next heq =>
      obtain rfl := Option.some.inj ha
      exact ⟨info, by simp, heq.symm⟩
    · obtain ⟨i, hi, hia⟩ := h.addr_some ha
      exact ⟨i, List.mem_append_left _ hi, hia⟩
  addr_none := by
    intro k' i hi
    rw [haddr, Function.update_apply]
    split
    · exact Option.some_ne_none _
    · next hne =>
      rcases List.mem_append.1 hi with hi | hi
      · exact h.addr_none hi
      · obtain ⟨-, rfl⟩ := Prod.mk.inj (List.mem_singleton.1 hi)
        exact absurd rfl hne

/-! ## The new entries -/

/-- How a new entry stands once it is entered under the id `n`. -/
def newEntry (nUBuckets : Int) (n : Nat) (e : CAddrInfo) : CAddrInfo :=
  { e.stored with
    nRandomPos := n
    nRefCount := if nUBuckets ≠ ADDRMAN_NEW_BUCKET_COUNT then 1 else 0 }

def newList (nUBuckets : Int) (es : List CAddrInfo) : List (Int × CAddrInfo) :=
  es.zipIdx.map fun p => ((p.2 : Int), newEntry nUBuckets p.2 p.1)

theorem newList_snoc (nUBuckets : Int) (es : List CAddrInfo) (e : CAddrInfo) :
    newList nUBuckets (es ++ [e]) =
      newList nUBuckets es ++ [((es.length : Int), newEntry nUBuckets es.length e)] := by
  simp [newList, List.zipIdx_append]

theorem length_newList (nUBuckets : Int) (es : List CAddrInfo) :
    (newList nUBuckets es).length = es.length := by
  simp [newList]

theorem getElem?_newList (nUBuckets : Int) (es : List CAddrInfo) (n : Nat) :
    (newList nUBuckets es)[n]? = (es[n]?).map fun e => ((n : Int), newEntry nUBuckets n e) := by
  simp [newList, List.getElem?_zipIdx]
  cases es[n]? <;> rfl

theorem mem_newList {nUBuckets : Int} {es : List CAddrInfo} {k : Int} {i : CAddrInfo} :
    (k, i) ∈ newList nUBuckets es ↔
      ∃ (n : Nat) (e : CAddrInfo), es[n]? = some e ∧ k = (n : Int) ∧
        i = newEntry nUBuckets n e := by
  rw [List.mem_iff_getElem?]
  simp only [getElem?_newList, Option.map_eq_some_iff, Prod.mk.injEq]
  constructor
  · rintro ⟨n, e, he, rfl, rfl⟩
    exact ⟨n, e, he, rfl, rfl⟩
  · rintro ⟨n, e, he, rfl, rfl⟩
    exact ⟨n, e, he, rfl, rfl⟩

/-- The manager once the new entries `es` are read. -/
structure NewLoaded (H : BucketHash) (nUBuckets : Int) (am₀ am : CAddrMan) (es : List CAddrInfo) :
    Prop where
  listed : am.Listed (newList nUBuckets es)
  vvTried : ∀ t, am.vvTried t = []
  vvNew : ∀ b k, k ∈ am.vvNew b ↔ nUBuckets ≠ ADDRMAN_NEW_BUCKET_COUNT ∧
    ∃ (n : Nat) (e : CAddrInfo), es[n]? = some e ∧ k = (n : Int) ∧
      e.GetNewBucket H am₀.nKey e.source = b
  nKey : am.nKey = am₀.nKey
  nNew : am.nNew = am₀.nNew
  nTried : am.nTried = am₀.nTried

theorem NewLoaded.clear (H : BucketHash) (nUBuckets : Int) (am : CAddrMan) :
    NewLoaded H nUBuckets am am.clear [] where
  listed := Listed.nil rfl rfl rfl
  vvTried _ := rfl
  vvNew b k := by simp [CAddrMan.clear]
  nKey := rfl
  nNew := rfl
  nTried := rfl

section EnterNew

variable (H : BucketHash) (nUBuckets n : Int) (info : CAddrInfo) (am : CAddrMan)

@[simp] theorem EnterNew_vRandom : (EnterNew H nUBuckets n info am).vRandom =
    am.vRandom ++ [n] := by
  unfold EnterNew
  dsimp only
  split <;> rfl

@[simp] theorem EnterNew_mapAddr : (EnterNew H nUBuckets n info am).mapAddr =
    Function.update am.mapAddr info.toCNetAddr (some n) := by
  unfold EnterNew
  dsimp only
  split <;> rfl

theorem EnterNew_mapInfo : (EnterNew H nUBuckets n info am).mapInfo =
    am.mapInfo.insert n { info with
      nRandomPos := am.vRandom.length
      nRefCount := if nUBuckets ≠ ADDRMAN_NEW_BUCKET_COUNT then info.nRefCount + 1
        else info.nRefCount } := by
  unfold EnterNew
  dsimp only
  split
  · exact OrdMap.insert_insert_self _ _ _ _
  · rfl

theorem mem_EnterNew_vvNew (b : Fin ADDRMAN_NEW_BUCKET_COUNT) (k : Int) :
    k ∈ (EnterNew H nUBuckets n info am).vvNew b ↔ k ∈ am.vvNew b ∨
      nUBuckets ≠ ADDRMAN_NEW_BUCKET_COUNT ∧ k = n ∧
        info.GetNewBucket H am.nKey info.source = b := by
  unfold EnterNew
  dsimp only
  split
  · next hne =>
    refine (mem_insertNew _ _ _).trans ?_
    simp only [hne, not_false_eq_true, ne_eq, true_and]
    constructor
    · rintro (⟨rfl, rfl⟩ | hk)
      · exact Or.inr ⟨rfl, rfl⟩
      · exact Or.inl hk
    · rintro (hk | ⟨rfl, rfl⟩)
      · exact Or.inr hk
      · exact Or.inl ⟨rfl, rfl⟩
  · next heq =>
    constructor
    · exact Or.inl
    · rintro (hk | ⟨hne, -⟩)
      · exact hk
      · exact absurd hne heq

@[simp] theorem EnterNew_vvTried : (EnterNew H nUBuckets n info am).vvTried = am.vvTried := by
  unfold EnterNew
  dsimp only
  split <;> rfl

@[simp] theorem EnterNew_nKey : (EnterNew H nUBuckets n info am).nKey = am.nKey := by
  unfold EnterNew
  dsimp only
  split <;> rfl

@[simp] theorem EnterNew_nNew : (EnterNew H nUBuckets n info am).nNew = am.nNew := by
  unfold EnterNew
  dsimp only
  split <;> rfl

@[simp] theorem EnterNew_nTried : (EnterNew H nUBuckets n info am).nTried = am.nTried := by
  unfold EnterNew
  dsimp only
  split <;> rfl

end EnterNew

theorem fill_of_fresh {s : Loading} {n : Int} (h : s.am.mapInfo[n]? = none) (e : CAddrInfo) :
    s.fill n e = e.stored := by
  unfold Loading.fill Loading.info
  rw [h]
  rfl

/-- Reading one more new entry. -/
theorem NewLoaded.snoc {H : BucketHash} {nUBuckets : Int} {am₀ : CAddrMan} {s : Loading}
    {es : List CAddrInfo} (h : NewLoaded H nUBuckets am₀ s.am es) (e : CAddrInfo) :
    NewLoaded H nUBuckets am₀ (loadNewEntry H nUBuckets es.length e s).am (es ++ [e]) := by
  have hfresh : ((es.length : Nat) : Int) ∉ (newList nUBuckets es).map Prod.fst := by
    rintro hm
    obtain ⟨⟨k, i⟩, hi, hk⟩ := List.mem_map.1 hm
    obtain ⟨n, e', he', rfl, -⟩ := mem_newList.1 hi
    have hlt := (List.getElem?_eq_some_iff.1 he').1
    dsimp only at hk
    omega
  have hnone : s.am.mapInfo[((es.length : Nat) : Int)]? = none := by
    cases hi : s.am.mapInfo[((es.length : Nat) : Int)]? with
    | none => rfl
    | some i => exact absurd (List.mem_map.2 ⟨_, (h.listed.map _ _).1 hi, rfl⟩) hfresh
  have hlen : s.am.vRandom.length = es.length := by
    rw [h.listed.ids, List.length_map, length_newList]
  have ham : (loadNewEntry H nUBuckets es.length e s).am =
      EnterNew H nUBuckets es.length e.stored (s.am.setInfo es.length e.stored) := by
    unfold loadNewEntry
    rw [fill_of_fresh hnone]
    rfl
  rw [ham]
  refine ⟨?_, ?_, ?_, ?_, ?_, ?_⟩
  · rw [newList_snoc]
    refine h.listed.snoc hfresh ?_ ?_ ?_ ?_
    · rw [length_newList]
      rfl
    · rw [EnterNew_mapInfo, setInfo_vRandom, hlen]
      unfold CAddrMan.setInfo
      rw [OrdMap.insert_insert_self]
      rfl
    · rw [EnterNew_vRandom, setInfo_vRandom]
    · rw [EnterNew_mapAddr, setInfo_mapAddr]
      rfl
  · intro t
    rw [EnterNew_vvTried, setInfo_vvTried, h.vvTried]
  · intro b k
    rw [mem_EnterNew_vvNew, setInfo_vvNew, h.vvNew, setInfo_nKey, h.nKey, ← and_or_left]
    refine and_congr_right fun _ => ?_
    constructor
    · rintro (⟨n, e', he', rfl, hb⟩ | ⟨rfl, hb⟩)
      · exact ⟨n, e', by rw [List.getElem?_append_left (List.getElem?_eq_some_iff.1 he').1, he'],
          rfl, hb⟩
      · exact ⟨es.length, e, by simp, rfl, hb⟩
    · rintro ⟨n, e', he', rfl, hb⟩
      rw [List.getElem?_append] at he'
      split at he'
      · exact Or.inl ⟨n, e', he', rfl, hb⟩
      · obtain ⟨hlt, rfl⟩ := List.getElem?_eq_some_iff.1 he'
        rw [List.length_singleton] at hlt
        have hn : n = es.length := by omega
        subst hn
        simp only [Nat.sub_self, List.getElem_cons_zero] at hb
        exact Or.inr ⟨rfl, hb⟩
  · rw [EnterNew_nKey, setInfo_nKey, h.nKey]
  · rw [EnterNew_nNew, setInfo_nNew, h.nNew]
  · rw [EnterNew_nTried, setInfo_nTried, h.nTried]

/-- The loop over the new entries. -/
theorem NewLoaded.loadNew {H : BucketHash} {nUBuckets : Int} {am₀ : CAddrMan} {s : Loading}
    {es : List CAddrInfo} (h : NewLoaded H nUBuckets am₀ s.am es) (es' : List CAddrInfo) :
    NewLoaded H nUBuckets am₀ (CAddrMan.loadNew H nUBuckets es.length es' s).am (es ++ es') := by
  induction es' generalizing es s with
  | nil =>
    rw [List.append_nil]
    exact h
  | cons e es' ih =>
    have := ih (h.snoc e)
    rw [List.length_append, List.length_singleton, List.append_assoc, List.singleton_append] at this
    exact this

/-! ## The tried entries -/

/-- How the `j`-th kept tried entry stands, after `n` new entries. -/
def triedEntry (n j : Nat) (e : CAddrInfo) : CAddrInfo :=
  { e.stored with nRandomPos := n + j, fInTried := true }

def triedList (base : Int) (n : Nat) (ks : List CAddrInfo) : List (Int × CAddrInfo) :=
  ks.zipIdx.map fun p => (base + p.2, triedEntry n p.2 p.1)

theorem triedList_snoc (base : Int) (n : Nat) (ks : List CAddrInfo) (e : CAddrInfo) :
    triedList base n (ks ++ [e]) =
      triedList base n ks ++ [(base + ks.length, triedEntry n ks.length e)] := by
  simp [triedList, List.zipIdx_append]

theorem length_triedList (base : Int) (n : Nat) (ks : List CAddrInfo) :
    (triedList base n ks).length = ks.length := by
  simp [triedList]

theorem mem_triedList {base : Int} {n : Nat} {ks : List CAddrInfo} {k : Int} {i : CAddrInfo} :
    (k, i) ∈ triedList base n ks ↔
      ∃ (j : Nat) (e : CAddrInfo), ks[j]? = some e ∧ k = base + j ∧ i = triedEntry n j e := by
  unfold triedList
  simp only [List.mem_map, Prod.exists, List.mem_zipIdx_iff_getElem?, Prod.mk.injEq]
  constructor
  · rintro ⟨e, j, he, rfl, rfl⟩
    exact ⟨j, e, he, rfl, rfl⟩
  · rintro ⟨j, e, he, rfl, rfl⟩
    exact ⟨e, j, he, rfl, rfl⟩

/-- The ids of the kept entries of one tried bucket. -/
def triedBucketIds (H : BucketHash) (nKey : List UInt8) (base : Int) (ks : List CAddrInfo)
    (t : Fin ADDRMAN_TRIED_BUCKET_COUNT) : List Int :=
  (ks.zipIdx.filter fun p => p.1.GetTriedBucket H nKey = t).map fun p => base + p.2

theorem length_triedBucketIds (H : BucketHash) (nKey : List UInt8) (base : Int)
    (ks : List CAddrInfo) (t : Fin ADDRMAN_TRIED_BUCKET_COUNT) :
    (triedBucketIds H nKey base ks t).length =
      ks.countP fun e => e.GetTriedBucket H nKey = t := by
  unfold triedBucketIds
  rw [List.length_map, ← List.countP_eq_length_filter]
  have hmap : ks = ks.zipIdx.map Prod.fst := by simp
  conv => rhs; rw [hmap, List.countP_map]
  rfl

theorem triedBucketIds_snoc (H : BucketHash) (nKey : List UInt8) (base : Int)
    (ks : List CAddrInfo) (e : CAddrInfo) (t : Fin ADDRMAN_TRIED_BUCKET_COUNT) :
    triedBucketIds H nKey base (ks ++ [e]) t = triedBucketIds H nKey base ks t ++
      if e.GetTriedBucket H nKey = t then [base + ks.length] else [] := by
  unfold triedBucketIds
  rw [List.zipIdx_append, List.filter_append, List.map_append]
  congr 1
  by_cases ht : e.GetTriedBucket H nKey = t <;> simp [ht]

/-- The manager once the new entries `es` and the tried entries `ts` are read. -/
structure TriedLoaded (H : BucketHash) (nUBuckets : Int) (am₀ : CAddrMan) (s : Loading)
    (es ts : List CAddrInfo) : Prop where
  listed : s.am.Listed (newList nUBuckets es ++
    triedList am₀.nNew es.length (PeersFile.keptOf H am₀.nKey ts))
  vvTried : ∀ t, s.am.vvTried t =
    triedBucketIds H am₀.nKey am₀.nNew (PeersFile.keptOf H am₀.nKey ts) t
  vvNew : ∀ b k, k ∈ s.am.vvNew b ↔ nUBuckets ≠ ADDRMAN_NEW_BUCKET_COUNT ∧
    ∃ (n : Nat) (e : CAddrInfo), es[n]? = some e ∧ k = (n : Int) ∧
      e.GetNewBucket H am₀.nKey e.source = b
  nKey : s.am.nKey = am₀.nKey
  nNew : s.am.nNew = am₀.nNew
  nTried : s.am.nTried = am₀.nTried
  nIdCount : s.am.nIdCount = am₀.nNew + (PeersFile.keptOf H am₀.nKey ts).length
  nLost : s.nLost = ts.length - (PeersFile.keptOf H am₀.nKey ts).length

theorem keptOf_snoc (H : BucketHash) (nKey : List UInt8) (ts : List CAddrInfo) (e : CAddrInfo) :
    PeersFile.keptOf H nKey (ts ++ [e]) =
      if (PeersFile.keptOf H nKey ts).countP
          (fun k => k.GetTriedBucket H nKey = e.GetTriedBucket H nKey) <
            ADDRMAN_TRIED_BUCKET_SIZE then
        PeersFile.keptOf H nKey ts ++ [e]
      else PeersFile.keptOf H nKey ts := by
  unfold PeersFile.keptOf
  rw [List.foldl_append]
  rfl

/-- Reading one more tried entry. -/
theorem TriedLoaded.snoc {H : BucketHash} {nUBuckets : Int} {am₀ : CAddrMan} {s : Loading}
    {es ts : List CAddrInfo} (h : TriedLoaded H nUBuckets am₀ s es ts)
    (hlen : es.length = am₀.nNew.toNat) {e : CAddrInfo} (he : e.stored = e) :
    TriedLoaded H nUBuckets am₀ (EnterTried H e s) es (ts ++ [e]) := by
  set ks := PeersFile.keptOf H am₀.nKey ts with hks
  have hroom : (s.am.vvTried (e.GetTriedBucket H s.am.nKey)).length =
      ks.countP fun k => k.GetTriedBucket H am₀.nKey = e.GetTriedBucket H am₀.nKey := by
    rw [h.vvTried, h.nKey, length_triedBucketIds]
  have hcap : s.am.vRandom.length = es.length + ks.length := by
    rw [h.listed.ids, List.length_map, List.length_append, length_newList, length_triedList]
  have hsnoc := keptOf_snoc H am₀.nKey ts e
  rw [← hks] at hsnoc
  by_cases hlt : (s.am.vvTried (e.GetTriedBucket H s.am.nKey)).length < ADDRMAN_TRIED_BUCKET_SIZE
  · rw [if_pos (by rw [← hroom]; exact hlt)] at hsnoc
    have hfresh : s.am.nIdCount ∉
        (newList nUBuckets es ++ triedList am₀.nNew es.length ks).map Prod.fst := by
      intro hm
      obtain ⟨⟨k, i⟩, hi, hk⟩ := List.mem_map.1 hm
      dsimp only at hk
      rw [h.nIdCount, ← hks] at hk
      rcases List.mem_append.1 hi with hi | hi
      · obtain ⟨n, e', he', rfl, -⟩ := mem_newList.1 hi
        have := (List.getElem?_eq_some_iff.1 he').1
        omega
      · obtain ⟨j, e', he', rfl, -⟩ := mem_triedList.1 hi
        have := (List.getElem?_eq_some_iff.1 he').1
        omega
    unfold EnterTried
    dsimp only
    rw [if_pos hlt]
    refine ⟨?_, ?_, h.vvNew, h.nKey, h.nNew, h.nTried, ?_, ?_⟩
    · rw [hsnoc, triedList_snoc, ← List.append_assoc]
      have hid : am₀.nNew + (ks.length : Int) = s.am.nIdCount := by rw [h.nIdCount]
      rw [hid]
      refine h.listed.snoc hfresh ?_ ?_ rfl ?_
      · rw [List.length_append, length_newList, length_triedList]
        exact (Nat.cast_add es.length ks.length).symm
      · dsimp only [CAddrMan.setInfo, setTried]
        rw [hcap]
        unfold triedEntry
        rw [he]
        push_cast
        rfl
      · unfold triedEntry
        rw [he]
        rfl
    · intro t
      rw [hsnoc, triedBucketIds_snoc, ← h.vvTried]
      have hid : am₀.nNew + (ks.length : Int) = s.am.nIdCount := by rw [h.nIdCount]
      rw [hid, ← h.nKey]
      dsimp only [setTried]
      rw [Function.update_apply]
      by_cases ht : t = e.GetTriedBucket H s.am.nKey
      · rw [if_pos ht, if_pos ht.symm, ht]
        rfl
      · rw [if_neg ht, if_neg (Ne.symm ht), List.append_nil]
        rfl
    · rw [hsnoc, List.length_append, List.length_singleton]
      have := h.nIdCount
      rw [← hks] at this
      dsimp only [setTried, CAddrMan.setInfo]
      push_cast
      omega
    · have := h.nLost
      rw [← hks] at this
      rw [hsnoc, List.length_append, List.length_append, List.length_singleton]
      dsimp only
      push_cast
      omega
  · rw [if_neg (by rw [← hroom]; exact hlt)] at hsnoc
    unfold EnterTried
    dsimp only
    rw [if_neg hlt]
    refine ⟨?_, ?_, h.vvNew, h.nKey, h.nNew, h.nTried, ?_, ?_⟩
    · rw [hsnoc]
      exact h.listed
    · rw [hsnoc]
      exact h.vvTried
    · rw [hsnoc]
      exact h.nIdCount
    · have := h.nLost
      rw [← hks] at this
      rw [hsnoc, List.length_append, List.length_singleton]
      dsimp only
      push_cast
      omega

/-- The loop over the tried entries. -/
theorem TriedLoaded.loadTried {H : BucketHash} {nUBuckets : Int} {am₀ : CAddrMan} {s : Loading}
    {es ts : List CAddrInfo} (h : TriedLoaded H nUBuckets am₀ s es ts)
    (hlen : es.length = am₀.nNew.toNat) {ts' : List CAddrInfo} (hts : ∀ e ∈ ts', e.stored = e) :
    TriedLoaded H nUBuckets am₀ (CAddrMan.loadTried H ts' s) es (ts ++ ts') := by
  induction ts' generalizing ts s with
  | nil =>
    rw [List.append_nil]
    exact h
  | cons e ts' ih =>
    have := ih (h.snoc hlen (hts e List.mem_cons_self)) fun e' he' =>
      hts e' (List.mem_cons_of_mem _ he')
    rw [List.append_assoc, List.singleton_append] at this
    exact this

/-! ## The index lists -/

/-- The references that the pairs `L` give the index `k`. -/
def refsOf (nUBuckets : Int) (L : List (Nat × Int)) (k : Int) : Int :=
  if nUBuckets = ADDRMAN_NEW_BUCKET_COUNT then (PeersFile.placesOf L k).length else 0

/-- The manager once the pairs `L` of a bucket and an index are read, from `s₀` on. -/
structure ListsLoaded (nUBuckets : Int) (s₀ s : Loading) (L : List (Nat × Int)) : Prop where
  map : ∀ k : Int, s.am.mapInfo[k]? =
    if k ∈ L.map Prod.snd ∨ k ∈ s₀.am.mapInfo then
      some { s₀.info k with nRefCount := (s₀.info k).nRefCount + refsOf nUBuckets L k }
    else none
  vvNew : ∀ b k, k ∈ s.am.vvNew b ↔ k ∈ s₀.am.vvNew b ∨
    nUBuckets = ADDRMAN_NEW_BUCKET_COUNT ∧ b.val ∈ PeersFile.placesOf L k
  rest : s.am.nKey = s₀.am.nKey ∧ s.am.nIdCount = s₀.am.nIdCount ∧ s.am.mapAddr = s₀.am.mapAddr ∧
    s.am.vRandom = s₀.am.vRandom ∧ s.am.nTried = s₀.am.nTried ∧ s.am.vvTried = s₀.am.vvTried ∧
    s.am.nNew = s₀.am.nNew

theorem ListsLoaded.nil (nUBuckets : Int) (s : Loading) : ListsLoaded nUBuckets s s [] where
  map := by
    intro k
    have hzero : refsOf nUBuckets [] k = 0 := by
      unfold refsOf
      split <;> rfl
    rw [hzero]
    by_cases hk : k ∈ s.am.mapInfo
    · simp [hk, Loading.info]
    · simp [hk]
  vvNew b k := by simp [PeersFile.placesOf]
  rest := ⟨rfl, rfl, rfl, rfl, rfl, rfl, rfl⟩

theorem ListsLoaded.info {nUBuckets : Int} {s₀ s : Loading} {L : List (Nat × Int)}
    (h : ListsLoaded nUBuckets s₀ s L) (k : Int) : s.info k =
      { s₀.info k with nRefCount := (s₀.info k).nRefCount + refsOf nUBuckets L k } := by
  have hk := h.map k
  unfold Loading.info at hk ⊢
  rw [hk]
  split
  · rfl
  · next hno =>
    rw [not_or] at hno
    have hnone : s₀.am.mapInfo[k]? = none := ExtTreeMap.getElem?_eq_none hno.2
    have hzero : refsOf nUBuckets L k = 0 := by
      unfold refsOf
      rw [PeersFile.placesOf_eq_nil.2 hno.1]
      split <;> rfl
    rw [hzero, hnone]
    simp

/-- An index that counts: one more reference, in its bucket. -/
theorem EnterIndex_counts {nUBuckets : Int} {s : Loading} {b : Nat} {k : Int}
    (hnative : nUBuckets = ADDRMAN_NEW_BUCKET_COUNT)
    (hfew : (s.info k).nRefCount < (ADDRMAN_NEW_BUCKETS_PER_ADDRESS : Int))
    (hb : b < ADDRMAN_NEW_BUCKET_COUNT) : EnterIndex nUBuckets b k s =
      { s with am := (s.am.setInfo k { s.info k with
        nRefCount := (s.info k).nRefCount + 1 }).insertNew ⟨b, hb⟩ k } := by
  unfold EnterIndex
  rw [if_pos ⟨hnative, hfew⟩]
  unfold Loading.update
  dsimp only
  rw [dif_pos hb]
  unfold Loading.setInfo Loading.update
  dsimp only
  rw [setInfo_setInfo]

/-- An index that does not count is only looked up, which makes a missing entry. -/
theorem EnterIndex_ignored {nUBuckets : Int} {s : Loading} {b : Nat} {k : Int}
    (h : ¬(nUBuckets = ADDRMAN_NEW_BUCKET_COUNT ∧
      (s.info k).nRefCount < (ADDRMAN_NEW_BUCKETS_PER_ADDRESS : Int))) :
    EnterIndex nUBuckets b k s = { s with am := s.am.setInfo k (s.info k) } := by
  unfold EnterIndex
  rw [if_neg h]
  rfl

/-- Reading one more index. In a native file no entry has a reference before the lists are read. -/
theorem ListsLoaded.snoc {nUBuckets : Int} {s₀ s : Loading} {L : List (Nat × Int)}
    (h : ListsLoaded nUBuckets s₀ s L)
    (hzero : nUBuckets = ADDRMAN_NEW_BUCKET_COUNT → ∀ k, (s₀.info k).nRefCount = 0)
    {b : Nat} (hb : nUBuckets = ADDRMAN_NEW_BUCKET_COUNT → b < ADDRMAN_NEW_BUCKET_COUNT) (k : Int) :
    ListsLoaded nUBuckets s₀ (EnterIndex nUBuckets b k s) (L ++ [(b, k)]) := by
  have hmem : ∀ k', (k' ∈ (L ++ [(b, k)]).map Prod.snd ∨ k' ∈ s₀.am.mapInfo) ↔
      k = k' ∨ k' ∈ L.map Prod.snd ∨ k' ∈ s₀.am.mapInfo := by
    intro k'
    rw [List.map_append, List.mem_append, List.map_singleton, List.mem_singleton, eq_comm]
    tauto
  have hrefs : nUBuckets = ADDRMAN_NEW_BUCKET_COUNT →
      (s.info k).nRefCount = (PeersFile.placesOf L k).length := by
    intro hnative
    rw [h.info]
    dsimp only
    rw [hzero hnative, refsOf, if_pos hnative, Int.zero_add]
  by_cases hcount : nUBuckets = ADDRMAN_NEW_BUCKET_COUNT ∧
      (s.info k).nRefCount < (ADDRMAN_NEW_BUCKETS_PER_ADDRESS : Int)
  · obtain ⟨hnative, hfew⟩ := hcount
    have hlt : (PeersFile.placesOf L k).length < ADDRMAN_NEW_BUCKETS_PER_ADDRESS := by
      rw [hrefs hnative] at hfew
      exact Int.ofNat_lt.1 hfew
    rw [EnterIndex_counts hnative hfew (hb hnative)]
    refine ⟨fun k' => ?_, fun b' k' => ?_, h.rest⟩
    · dsimp only
      rw [insertNew_mapInfo, setInfo_mapInfo]
      simp only [hmem]
      by_cases hk : k = k'
      · subst hk
        rw [if_pos rfl, if_pos (Or.inl rfl), h.info, refsOf, refsOf, if_pos hnative,
          if_pos hnative, PeersFile.placesOf_snoc, if_pos ⟨rfl, hlt⟩, List.length_append,
          List.length_singleton]
        dsimp only
        push_cast
        rw [Int.add_assoc]
      · have hplaces : PeersFile.placesOf (L ++ [(b, k)]) k' = PeersFile.placesOf L k' := by
          rw [PeersFile.placesOf_snoc, if_neg fun hc => hk hc.1]
        rw [if_neg hk, h.map, refsOf, refsOf, hplaces]
        simp only [hk, false_or]
    · dsimp only
      rw [mem_insertNew, setInfo_vvNew, h.vvNew, PeersFile.placesOf_snoc]
      by_cases hk : k = k'
      · subst hk
        rw [if_pos ⟨rfl, hlt⟩, List.mem_append, List.mem_singleton]
        simp only [hnative, true_and, and_true, Fin.ext_iff]
        tauto
      · rw [if_neg (fun hc => hk hc.1)]
        simp [Ne.symm hk]
  · -- the references and the buckets stay
    have hsame : ∀ k', refsOf nUBuckets (L ++ [(b, k)]) k' = refsOf nUBuckets L k' ∧
        (nUBuckets = ADDRMAN_NEW_BUCKET_COUNT →
          PeersFile.placesOf (L ++ [(b, k)]) k' = PeersFile.placesOf L k') := by
      intro k'
      have hplaces : nUBuckets = ADDRMAN_NEW_BUCKET_COUNT →
          PeersFile.placesOf (L ++ [(b, k)]) k' = PeersFile.placesOf L k' := by
        intro hnative
        rw [PeersFile.placesOf_snoc, if_neg]
        rintro ⟨rfl, hlt⟩
        exact hcount ⟨hnative, by rw [hrefs hnative]; exact Int.ofNat_lt.2 hlt⟩
      refine ⟨?_, hplaces⟩
      unfold refsOf
      split
      · next hnative => rw [hplaces hnative]
      · rfl
    rw [EnterIndex_ignored hcount]
    refine ⟨fun k' => ?_, fun b' k' => ?_, h.rest⟩
    · dsimp only
      rw [setInfo_mapInfo]
      simp only [hmem, (hsame k').1]
      by_cases hk : k = k'
      · subst hk
        rw [if_pos rfl, if_pos (Or.inl rfl), h.info]
      · rw [if_neg hk, h.map]
        simp only [hk, false_or]
    · dsimp only
      rw [setInfo_vvNew, h.vvNew]
      refine or_congr_right (and_congr_right fun hnative => ?_)
      rw [(hsame k').2 hnative]

/-- The loop over the indexes of one bucket. -/
theorem ListsLoaded.loadIndexes {nUBuckets : Int} {s₀ s : Loading} {L : List (Nat × Int)}
    (h : ListsLoaded nUBuckets s₀ s L)
    (hzero : nUBuckets = ADDRMAN_NEW_BUCKET_COUNT → ∀ k, (s₀.info k).nRefCount = 0)
    {b : Nat} (hb : nUBuckets = ADDRMAN_NEW_BUCKET_COUNT → b < ADDRMAN_NEW_BUCKET_COUNT)
    (l : List Int) :
    ListsLoaded nUBuckets s₀ (CAddrMan.loadIndexes nUBuckets b l s)
      (L ++ l.map fun k => (b, k)) := by
  induction l generalizing s L with
  | nil =>
    rw [List.map_nil, List.append_nil]
    exact h
  | cons k l ih =>
    have := ih (h.snoc hzero hb k)
    rw [List.append_assoc, List.singleton_append] at this
    exact this

theorem outOfRange_loadNew (H : BucketHash) (nUBuckets : Int) (n : Nat) (es : List CAddrInfo)
    (s : Loading) : (CAddrMan.loadNew H nUBuckets n es s).outOfRange = s.outOfRange := by
  induction es generalizing n s with
  | nil => rfl
  | cons e es ih => exact ih _ _

theorem outOfRange_loadTried (H : BucketHash) (es : List CAddrInfo) (s : Loading) :
    (CAddrMan.loadTried H es s).outOfRange = s.outOfRange := by
  induction es generalizing s with
  | nil => rfl
  | cons e es ih =>
    refine (ih _).trans ?_
    unfold EnterTried
    dsimp only
    split <;> rfl

theorem outOfRange_loadIndexes (nUBuckets : Int) (b : Nat) (l : List Int) (s : Loading) :
    (CAddrMan.loadIndexes nUBuckets b l s).outOfRange = s.outOfRange := by
  induction l generalizing s with
  | nil => rfl
  | cons k l ih =>
    refine (ih _).trans ?_
    unfold EnterIndex
    dsimp only
    split <;> rfl

theorem nLost_loadIndexes (nUBuckets : Int) (b : Nat) (l : List Int) (s : Loading) :
    (CAddrMan.loadIndexes nUBuckets b l s).nLost = s.nLost := by
  induction l generalizing s with
  | nil => rfl
  | cons k l ih =>
    refine (ih _).trans ?_
    unfold EnterIndex
    dsimp only
    split <;> rfl

theorem nLost_loadLists (nUBuckets : Int) (b : Nat) (ls : List (List Int)) (s : Loading) :
    (CAddrMan.loadLists nUBuckets b ls s).nLost = s.nLost := by
  induction ls generalizing b s with
  | nil => rfl
  | cons l ls ih => exact (ih _ _).trans (nLost_loadIndexes _ _ _ _)

/-- The loop over the buckets. -/
theorem ListsLoaded.loadLists {nUBuckets : Int} {s₀ s : Loading} {L : List (Nat × Int)}
    (h : ListsLoaded nUBuckets s₀ s L)
    (hzero : nUBuckets = ADDRMAN_NEW_BUCKET_COUNT → ∀ k, (s₀.info k).nRefCount = 0)
    (b : Nat) (ls : List (List Int))
    (hb : nUBuckets = ADDRMAN_NEW_BUCKET_COUNT → b + ls.length ≤ ADDRMAN_NEW_BUCKET_COUNT) :
    ListsLoaded nUBuckets s₀ (CAddrMan.loadLists nUBuckets b ls s)
      (L ++ (ls.zipIdx b).flatMap fun l => l.1.map fun k => (l.2, k)) := by
  induction ls generalizing s L b with
  | nil =>
    rw [List.zipIdx_nil, List.flatMap_nil, List.append_nil]
    exact h
  | cons l ls ih =>
    rw [List.zipIdx_cons, List.flatMap_cons, ← List.append_assoc]
    have hb' : nUBuckets = ADDRMAN_NEW_BUCKET_COUNT →
        b < ADDRMAN_NEW_BUCKET_COUNT ∧ b + 1 + ls.length ≤ ADDRMAN_NEW_BUCKET_COUNT := by
      intro hnative
      have := hb hnative
      rw [List.length_cons] at this
      exact ⟨by omega, by omega⟩
    have hflag : ListsLoaded nUBuckets s₀
        { s with outOfRange := s.outOfRange || !decide (b < ADDRMAN_NEW_BUCKET_COUNT) } L :=
      ⟨h.map, h.vvNew, h.rest⟩
    exact ih (hflag.loadIndexes hzero (fun hnative => (hb' hnative).1) l) (b + 1)
      fun hnative => (hb' hnative).2

/-- Out of the vector is reached when there are more lists than buckets. -/
theorem outOfRange_loadLists (nUBuckets : Int) (b : Nat) (ls : List (List Int)) (s : Loading) :
    (CAddrMan.loadLists nUBuckets b ls s).outOfRange = true ↔
      s.outOfRange = true ∨ ls ≠ [] ∧ ADDRMAN_NEW_BUCKET_COUNT < b + ls.length := by
  induction ls generalizing b s with
  | nil => simp [CAddrMan.loadLists]
  | cons l ls ih =>
    unfold CAddrMan.loadLists
    rw [ih, outOfRange_loadIndexes, List.length_cons]
    simp only [Bool.or_eq_true, Bool.not_eq_true', decide_eq_false_iff_not, ne_eq, reduceCtorEq,
      not_false_eq_true, true_and]
    rw [or_assoc]
    refine or_congr_right ?_
    cases ls with
    | nil =>
      simp only [List.length_nil, not_true_eq_false, false_and, or_false]
      omega
    | cons l' ls' =>
      simp only [List.length_cons, reduceCtorEq, not_false_eq_true, true_and]
      omega

end CAddrMan

/-! ## The whole file -/

namespace PeersFile

/-- The ids and entries before the index lists are read, in the order of `vRandom`. -/
def entries (H : BucketHash) (file : PeersFile) : List (Int × CAddrInfo) :=
  CAddrMan.newList file.nUBuckets file.news ++
    CAddrMan.triedList file.nNew file.news.length (file.kept H)

/-- What parsing a file ensures about it. -/
structure Parsed (file : PeersFile) : Prop where
  news : file.news.length = file.nNew.toNat
  trieds : file.trieds.length = file.nTried.toNat
  lists : file.lists.length = file.nUBuckets.toNat
  stored : ∀ e ∈ file.trieds, e.stored = e

theorem stored_of_parseInfo {c : PeersCodec} {bs rest : List UInt8} {e : CAddrInfo}
    (h : parseInfo c bs = some (e, rest)) : e.stored = e := by
  obtain ⟨a, bs, -, h⟩ := Parser.bind_eq_some.1 h
  obtain ⟨src, bs, -, h⟩ := Parser.bind_eq_some.1 h
  obtain ⟨suc, bs, -, h⟩ := Parser.bind_eq_some.1 h
  obtain ⟨att, bs, -, h⟩ := Parser.bind_eq_some.1 h
  obtain ⟨rfl, -⟩ := Prod.mk.inj (Option.some.inj h)
  rfl

theorem parsed_of_parse {c : PeersCodec} {bs rest : List UInt8} {file : PeersFile}
    (h : parse c bs = some (file, rest)) : file.Parsed := by
  obtain ⟨ver, bs, -, h⟩ := Parser.bind_eq_some.1 h
  obtain ⟨nKey, bs, -, h⟩ := Parser.bind_eq_some.1 h
  obtain ⟨nNew, bs, -, h⟩ := Parser.bind_eq_some.1 h
  obtain ⟨nTried, bs, -, h⟩ := Parser.bind_eq_some.1 h
  obtain ⟨nUBuckets, bs, -, h⟩ := Parser.bind_eq_some.1 h
  obtain ⟨news, bs, hnews, h⟩ := Parser.bind_eq_some.1 h
  obtain ⟨trieds, bs, htrieds, h⟩ := Parser.bind_eq_some.1 h
  obtain ⟨lists, bs, hlists, h⟩ := Parser.bind_eq_some.1 h
  obtain ⟨rfl, -⟩ := Prod.mk.inj (Option.some.inj h)
  exact ⟨Parser.length_of_many hnews, Parser.length_of_many htrieds, Parser.length_of_many hlists,
    fun e he => Parser.of_mem_many stored_of_parseInfo htrieds he⟩

/-- The manager a file gives. -/
structure Loaded (H : BucketHash) (file : PeersFile) (am : CAddrMan) : Prop where
  nodup : ((file.entries H).map Prod.fst).Nodup
  pos : ∀ {j : Nat} {k : Int} {i : CAddrInfo}, (file.entries H)[j]? = some (k, i) → i.nRandomPos = j
  vRandom : am.vRandom = (file.entries H).map Prod.fst
  entry : ∀ {k : Int} {i : CAddrInfo}, (k, i) ∈ file.entries H → am.mapInfo[k]? =
    some { i with nRefCount := i.nRefCount + CAddrMan.refsOf file.nUBuckets file.listing k }
  stray : ∀ {k : Int}, k ∉ (file.entries H).map Prod.fst →
    (k ∈ am.mapInfo ↔ k ∈ file.listing.map Prod.snd)
  addr_some : ∀ {a : CNetAddr} {k : Int}, am.mapAddr a = some k →
    ∃ i, (k, i) ∈ file.entries H ∧ i.toCNetAddr = a
  addr_none : ∀ {k : Int} {i : CAddrInfo}, (k, i) ∈ file.entries H → am.mapAddr i.toCNetAddr ≠ none
  vvTried : ∀ t, am.vvTried t = CAddrMan.triedBucketIds H file.nKey file.nNew (file.kept H) t
  vvNew : ∀ b k, k ∈ am.vvNew b ↔
    (¬file.Native ∧ ∃ (n : Nat) (e : CAddrInfo), file.news[n]? = some e ∧ k = (n : Int) ∧
      e.GetNewBucket H file.nKey e.source = b) ∨
    file.Native ∧ b.val ∈ file.places k
  nKey : am.nKey = file.nKey
  nNew : am.nNew = file.nNew
  nTried : am.nTried = file.nTried - (file.trieds.length - (file.kept H).length)

open CAddrMan in
/-- The manager once the entries are read, before the index lists. -/
theorem triedLoaded_load (H : BucketHash) {file : PeersFile} (h : file.Parsed) (am : CAddrMan)
    {s : Loading} (hs : NewLoaded H file.nUBuckets am s.am []) (hnew : am.nNew = file.nNew) :
    TriedLoaded H file.nUBuckets am
      (CAddrMan.loadTried H file.trieds
        { (CAddrMan.loadNew H file.nUBuckets 0 file.news s).update
            (fun am => { am with nIdCount := am.nNew }) with nLost := 0 })
      file.news file.trieds := by
  have hload := hs.loadNew file.news
  rw [List.nil_append, List.length_nil] at hload
  have hstart : TriedLoaded H file.nUBuckets am
      { (CAddrMan.loadNew H file.nUBuckets 0 file.news s).update
          (fun am => { am with nIdCount := am.nNew }) with nLost := 0 } file.news [] := by
    refine ⟨?_, hload.vvTried, hload.vvNew, hload.nKey, hload.nNew, hload.nTried, ?_, rfl⟩
    · have hl := hload.listed
      rw [← List.append_nil (newList _ _)] at hl
      exact ⟨hl.map, hl.ids, hl.nodup, hl.pos, hl.addr_some, hl.addr_none⟩
    · exact hload.nNew.trans (Int.add_zero _).symm
  have := hstart.loadTried (by rw [h.news, hnew]) h.stored
  rwa [List.nil_append] at this

open CAddrMan in
/-- Before the index lists of a native file, no entry is referred to. -/
theorem nRefCount_entries {H : BucketHash} {file : PeersFile} (hnative : file.Native) {k : Int}
    {i : CAddrInfo} (hi : (k, i) ∈ file.entries H) : i.nRefCount = 0 := by
  rcases List.mem_append.1 hi with hi | hi
  · obtain ⟨n, e, -, -, rfl⟩ := mem_newList.1 hi
    exact if_neg (not_not.2 hnative)
  · obtain ⟨j, e, -, -, rfl⟩ := mem_triedList.1 hi
    rfl

open CAddrMan in
/-- **Loading a file.** The manager before does not matter. -/
theorem load_spec (H : BucketHash) {file : PeersFile} (h : file.Parsed) (s : Loading) :
    file.Loaded H (file.load H s).am ∧
      ((file.load H s).outOfRange = true ↔ s.outOfRange = true ∨
        (ADDRMAN_NEW_BUCKET_COUNT : Int) < file.nUBuckets) ∧
      (file.load H s).nLost = file.trieds.length - (file.kept H).length := by
  set am := CAddrMan.clear { s.am with
    nKey := file.nKey, nNew := file.nNew, nTried := file.nTried } with ham
  have hclear := NewLoaded.clear H file.nUBuckets { s.am with
    nKey := file.nKey, nNew := file.nNew, nTried := file.nTried }
  obtain ⟨s₁, hs₁⟩ : ∃ s₁, s₁ = CAddrMan.loadTried H file.trieds
      { (CAddrMan.loadNew H file.nUBuckets 0 file.news { s with am := am }).update
          (fun am => { am with nIdCount := am.nNew }) with nLost := 0 } := ⟨_, rfl⟩
  have htried := triedLoaded_load H h _ (s := { s with am := am }) hclear rfl
  rw [← hs₁] at htried
  obtain ⟨s₂, hs₂⟩ : ∃ s₂, s₂ = s₁.update fun am => { am with nTried := am.nTried - s₁.nLost } :=
    ⟨_, rfl⟩
  have hload : file.load H s = CAddrMan.loadLists file.nUBuckets 0 file.lists s₂ := by
    rw [hs₂, hs₁]
    rfl
  have hinfo : ∀ {k i}, (k, i) ∈ file.entries H → s₂.info k = i := by
    intro k i hi
    have := (htried.listed.map k i).2 hi
    unfold Loading.info
    rw [hs₂]
    exact congrArg (Option.getD · CAddrInfo.default) this
  have hfresh : ∀ {k}, k ∉ (file.entries H).map Prod.fst → k ∉ s₂.am.mapInfo := by
    intro k hk hm
    rw [hs₂] at hm
    obtain ⟨i, hi⟩ := Option.isSome_iff_exists.1 (ExtTreeMap.mem_iff_isSome_getElem?.1 hm)
    exact hk (List.mem_map.2 ⟨_, (htried.listed.map k i).1 hi, rfl⟩)
  have hzero : file.nUBuckets = ADDRMAN_NEW_BUCKET_COUNT → ∀ k, (s₂.info k).nRefCount = 0 := by
    intro hnative k
    by_cases hk : k ∈ (file.entries H).map Prod.fst
    · obtain ⟨⟨k, i⟩, hi, rfl⟩ := List.mem_map.1 hk
      rw [hinfo hi]
      exact nRefCount_entries hnative hi
    · have := hfresh hk
      unfold Loading.info
      rw [ExtTreeMap.getElem?_eq_none this]
      rfl
  have hlists := (ListsLoaded.nil file.nUBuckets s₂).loadLists hzero 0 file.lists
    fun hnative => by
      rw [h.lists, hnative]
      simp
  rw [List.nil_append, ← hload] at hlists
  obtain ⟨hnKey, -, haddr, hids, hnTried, hvvTried, hnNew⟩ := hlists.rest
  have hflag : s₂.outOfRange = s.outOfRange := by
    rw [hs₂, hs₁]
    exact (outOfRange_loadTried _ _ _).trans (outOfRange_loadNew _ _ _ _ _)
  refine ⟨?_, ?_, ?_⟩
  · rw [hs₂] at haddr hids hnTried hvvTried hnNew hnKey
    refine ⟨htried.listed.nodup, htried.listed.pos, hids.trans htried.listed.ids,
      ?_, ?_, ?_, ?_, ?_,
      ?_, hnKey.trans htried.nKey, hnNew.trans htried.nNew, ?_⟩
    · intro k i hi
      have hk : k ∈ s₂.am.mapInfo := by
        rw [ExtTreeMap.mem_iff_isSome_getElem?, hs₂]
        exact Option.isSome_iff_exists.2 ⟨i, (htried.listed.map k i).2 hi⟩
      rw [hlists.map, if_pos (Or.inr hk), hinfo hi]
      rfl
    · intro k hk
      have hno := hfresh hk
      rw [ExtTreeMap.mem_iff_isSome_getElem?, hlists.map]
      split
      · next hor => exact ⟨fun _ => hor.resolve_right hno, fun _ => rfl⟩
      · next hor =>
        rw [not_or] at hor
        exact ⟨fun hc => absurd hc Bool.false_ne_true, fun hc => absurd hc hor.1⟩
    · intro a k ha
      rw [haddr] at ha
      exact htried.listed.addr_some ha
    · intro k i hi
      rw [haddr]
      exact htried.listed.addr_none hi
    · intro t
      rw [hvvTried]
      exact htried.vvTried t
    · intro b k
      rw [hlists.vvNew, hs₂]
      exact or_congr_left (htried.vvNew b k)
    · rw [hnTried]
      change s₁.am.nTried - s₁.nLost = _
      rw [htried.nTried, htried.nLost]
      rfl
  · rw [hload, outOfRange_loadLists, hflag, Nat.zero_add, h.lists]
    refine or_congr_right ?_
    have hnil : file.lists = [] ↔ file.nUBuckets.toNat = 0 := by
      rw [← List.length_eq_zero_iff, h.lists]
    rw [ne_eq, hnil]
    constructor
    · rintro ⟨-, hlt⟩
      omega
    · intro hlt
      have : (256 : Int) < file.nUBuckets := hlt
      exact ⟨by omega, by show 256 < _; omega⟩
  · rw [hload, nLost_loadLists, hs₂]
    exact htried.nLost

end PeersFile

end TriTip
