import TriTip.AddrMan.Operations
import TriTip.AddrMan.Book
import TriTip.Lib.OrdMap
import TriTip.Lib.Positions

/-!
# The address manager: the invariant

`Tables am book pending` says that the tables of `am` are the address book `book`: `Indexed` ties
`vRandom`, `nRandomPos` and `mapAddr` to `mapInfo`, `Holds` ties `fInTried`, `nRefCount` and the
buckets to the book, and the counters count. `Inv` adds the bucket bounds. Inside `Add_` the
reference count of an entry is raised before the entry is put in the bucket; `pending` is that id
and bucket. Between calls it is `none`.

The lemmas below say how the parts follow the two primitive updates, a write into an entry that
touches neither place nor position (`Inv.setInfo`) and `SwapRandom` (`SwapRandom_spec`).
-/

namespace TriTip

open Std

/-- An address book over the buckets of the manager. -/
abbrev AddrBook :=
  Book Int (Fin ADDRMAN_TRIED_BUCKET_COUNT) (Fin ADDRMAN_NEW_BUCKET_COUNT)
    ADDRMAN_NEW_BUCKETS_PER_ADDRESS

/-- The fields of an entry that say where it is kept. -/
def CAddrInfo.status (info : CAddrInfo) : Bool × Int := (info.fInTried, info.nRefCount)

/-- The same for a place. -/
def Place.status {τ ν : Type} {k : Nat} (p : Place τ ν k) : Bool × Int := (p.isTried, p.refs)

/-- The times of an entry: a tried one has had a success. The time of the last attempt is whatever
the caller said; `strict` asks that it is not negative. -/
structure CAddrInfo.TimesOk (info : CAddrInfo) (strict : Prop) : Prop where
  lastSuccess : 0 ≤ info.nLastSuccess
  tried : info.fInTried = true → info.nLastSuccess ≠ 0
  lastTry : strict → 0 ≤ info.nLastTry

namespace CAddrMan

/-- `vRandom` lists the known ids once, at their `nRandomPos`; `mapAddr` inverts `mapInfo`. -/
structure Indexed (am : CAddrMan) : Prop where
  nodup : am.vRandom.Nodup
  known : ∀ {nId : Int}, nId ∈ am.vRandom → ∃ info, am.mapInfo[nId]? = some info
  pos : ∀ {nId : Int} {info : CAddrInfo}, am.mapInfo[nId]? = some info →
    0 ≤ info.nRandomPos ∧ am.vRandom[info.nRandomPos.toNat]? = some nId
  addr : ∀ {a : CNetAddr} {nId : Int}, am.mapAddr a = some nId ↔
    ∃ info, am.mapInfo[nId]? = some info ∧ info.toCNetAddr = a

/-- The part of it about the positions: `vRandom` lists the known ids once, at their
`nRandomPos`. -/
structure Positioned (am : CAddrMan) : Prop where
  nodup : am.vRandom.Nodup
  known : ∀ {nId : Int}, nId ∈ am.vRandom → ∃ info, am.mapInfo[nId]? = some info
  pos : ∀ {nId : Int} {info : CAddrInfo}, am.mapInfo[nId]? = some info →
    0 ≤ info.nRandomPos ∧ am.vRandom[info.nRandomPos.toNat]? = some nId

theorem Indexed.positioned {am : CAddrMan} (h : am.Indexed) : am.Positioned :=
  ⟨h.nodup, h.known, h.pos⟩

/-- Entries and buckets are where the book says; `pending` is missing from its bucket. -/
structure Holds (am : CAddrMan) (book : AddrBook)
    (pending : Option (Int × Fin ADDRMAN_NEW_BUCKET_COUNT)) : Prop where
  entry : ∀ nId : Int, (am.mapInfo[nId]?).map CAddrInfo.status = (book nId).map Place.status
  tried_mem : ∀ b nId, nId ∈ am.vvTried b ↔ book nId = some (.tried b)
  tried_nodup : ∀ b, (am.vvTried b).Nodup
  new_mem : ∀ b nId, nId ∈ am.vvNew b ↔ b ∈ book.newBuckets nId ∧ pending ≠ some (nId, b)

/-- The tables of the manager are the address book. -/
structure Tables (am : CAddrMan) (strict : Prop) (book : AddrBook)
    (pending : Option (Int × Fin ADDRMAN_NEW_BUCKET_COUNT)) : Prop where
  indexed : am.Indexed
  holds : am.Holds book pending
  ids : ∀ {nId : Int} {info : CAddrInfo}, am.mapInfo[nId]? = some info →
    0 ≤ nId ∧ nId < am.nIdCount
  idCount : 0 ≤ am.nIdCount
  nNew_eq : am.nNew = OrdMap.count (fun info => !info.fInTried) am.mapInfo
  nTried_eq : am.nTried = OrdMap.count (fun info => info.fInTried) am.mapInfo
  times : ∀ {nId : Int} {info : CAddrInfo}, am.mapInfo[nId]? = some info → info.TimesOk strict

/-- The tables are the address book, and no bucket holds more than its bound. -/
structure Inv (am : CAddrMan) (strict : Prop) (book : AddrBook)
    (pending : Option (Int × Fin ADDRMAN_NEW_BUCKET_COUNT)) : Prop extends
    am.Tables strict book pending where
  new_size : ∀ b, (am.vvNew b).size ≤ ADDRMAN_NEW_BUCKET_SIZE
  tried_size : ∀ b, (am.vvTried b).length ≤ ADDRMAN_TRIED_BUCKET_SIZE

/-- The new manager is the empty book. -/
theorem Inv.empty (strict : Prop) (nKey : List UInt8) :
    (CAddrMan.empty nKey).Inv strict (fun _ => none) none where
  indexed := by constructor <;> simp [CAddrMan.empty]
  holds := by constructor <;> simp [CAddrMan.empty, Book.newBuckets]
  ids := by simp [CAddrMan.empty]
  idCount := Int.le_refl 0
  nNew_eq := by simp [CAddrMan.empty]
  nTried_eq := by simp [CAddrMan.empty]
  times := by simp [CAddrMan.empty]
  new_size := by simp [CAddrMan.empty]
  tried_size := by simp [CAddrMan.empty]

/-! ## Reading the book off an entry -/

section Reading

variable {am : CAddrMan} {strict : Prop} {book : AddrBook}
  {pending : Option (Int × Fin ADDRMAN_NEW_BUCKET_COUNT)} {nId : Int} {info : CAddrInfo}

theorem Holds.place (h : am.Holds book pending) (hi : am.mapInfo[nId]? = some info) :
    ∃ p, book nId = some p ∧ info.fInTried = p.isTried ∧ info.nRefCount = p.refs := by
  have he := h.entry nId
  rw [hi] at he
  cases hb : book nId with
  | none => rw [hb] at he; cases he
  | some p =>
    rw [hb] at he
    have hs := Option.some.inj he
    exact ⟨p, rfl, congrArg Prod.fst hs, congrArg Prod.snd hs⟩

theorem Holds.entry_of_place (h : am.Holds book pending) {p} (hb : book nId = some p) :
    ∃ info, am.mapInfo[nId]? = some info ∧ info.fInTried = p.isTried ∧
      info.nRefCount = p.refs := by
  have he := h.entry nId
  rw [hb] at he
  cases hi : am.mapInfo[nId]? with
  | none => rw [hi] at he; cases he
  | some info =>
    rw [hi] at he
    have hs := Option.some.inj he
    exact ⟨info, rfl, congrArg Prod.fst hs, congrArg Prod.snd hs⟩

/-- The entry at a place that is known. -/
theorem Holds.entry_at (h : am.Holds book pending) (hi : am.mapInfo[nId]? = some info) {p}
    (hp : book nId = some p) : info.fInTried = p.isTried ∧ info.nRefCount = p.refs := by
  obtain ⟨p', hp', hentry⟩ := h.place hi
  rw [hp] at hp'
  cases hp'
  exact hentry

/-- An entry not tried is in new buckets. -/
theorem Holds.place_new (h : am.Holds book pending) (hi : am.mapInfo[nId]? = some info)
    (ht : info.fInTried = false) :
    ∃ bs pos le, book nId = some (.new bs pos le) ∧ info.nRefCount = bs.card := by
  obtain ⟨p, hp, htried, hrefs⟩ := h.place hi
  cases p with
  | tried t => rw [ht] at htried; cases htried
  | new bs pos le => exact ⟨bs, pos, le, hp, hrefs⟩

theorem Holds.place_tried (h : am.Holds book pending) (hi : am.mapInfo[nId]? = some info)
    (ht : info.fInTried = true) : ∃ t, book nId = some (.tried t) := by
  obtain ⟨p, hp, htried, -⟩ := h.place hi
  cases p with
  | tried t => exact ⟨t, hp⟩
  | new bs pos le => rw [ht] at htried; cases htried

/-- What a new bucket holds is an entry not tried. -/
theorem Holds.of_mem_new (h : am.Holds book pending) {b : Fin ADDRMAN_NEW_BUCKET_COUNT}
    (hm : nId ∈ am.vvNew b) :
    ∃ bs pos le info, book nId = some (.new bs pos le) ∧ b ∈ bs ∧
      am.mapInfo[nId]? = some info ∧ info.fInTried = false ∧ info.nRefCount = bs.card := by
  have hb := ((h.new_mem b nId).1 hm).1
  cases hp : book nId with
  | none => simp [Book.newBuckets, hp] at hb
  | some p =>
    rw [Book.newBuckets_of_some hp] at hb
    cases p with
    | tried t => simp at hb
    | new bs pos le =>
      obtain ⟨info, hi, ht, hr⟩ := h.entry_of_place hp
      exact ⟨bs, pos, le, info, rfl, hb, hi, ht, hr⟩

/-- What a tried bucket holds is a tried entry. -/
theorem Holds.of_mem_tried (h : am.Holds book pending) {t : Fin ADDRMAN_TRIED_BUCKET_COUNT}
    (hm : nId ∈ am.vvTried t) :
    ∃ info, am.mapInfo[nId]? = some info ∧ info.fInTried = true := by
  obtain ⟨info, hi, ht, -⟩ := h.entry_of_place ((h.tried_mem t nId).1 hm)
  exact ⟨info, hi, ht⟩

/-- `Find` returns the id under which the address is kept. -/
theorem Indexed.find_some (h : am.Indexed) {a : CNetAddr} (hf : am.Find a = some (nId, info)) :
    am.mapInfo[nId]? = some info ∧ info.toCNetAddr = a := by
  unfold Find at hf
  cases ha : am.mapAddr a with
  | none => rw [ha] at hf; cases hf
  | some n =>
    rw [ha] at hf
    obtain ⟨info', hi, hs⟩ := Option.map_eq_some_iff.1 hf
    obtain ⟨rfl, rfl⟩ := Prod.mk.inj hs
    obtain ⟨info'', hi', haddr⟩ := h.addr.1 ha
    rw [hi] at hi'
    obtain rfl := Option.some.inj hi'
    exact ⟨hi, haddr⟩

/-- `Find` misses only addresses that are not kept. -/
theorem Indexed.find_none (h : am.Indexed) {a : CNetAddr} (hf : am.Find a = none) :
    am.mapAddr a = none := by
  unfold Find at hf
  cases ha : am.mapAddr a with
  | none => rfl
  | some n =>
    rw [ha] at hf
    obtain ⟨info, hi, -⟩ := h.addr.1 ha
    simp [hi] at hf

/-- Two entries never have the same address. -/
theorem Indexed.addr_inj (h : am.Indexed) {nId' : Int} {info' : CAddrInfo}
    (hi : am.mapInfo[nId]? = some info) (hi' : am.mapInfo[nId']? = some info')
    (ha : info.toCNetAddr = info'.toCNetAddr) : nId = nId' := by
  have h1 := h.addr.2 ⟨info, hi, ha⟩
  have h2 := h.addr.2 ⟨info', hi', rfl⟩
  exact Option.some.inj (h1.symm.trans h2)

end Reading

/-- The entries after the place of one id has changed. -/
theorem Holds.entry_update {am am' : CAddrMan} {book : AddrBook}
    {pending : Option (Int × Fin ADDRMAN_NEW_BUCKET_COUNT)} (h : am.Holds book pending) {nId : Int}
    {q : Option (Place (Fin ADDRMAN_TRIED_BUCKET_COUNT) (Fin ADDRMAN_NEW_BUCKET_COUNT)
      ADDRMAN_NEW_BUCKETS_PER_ADDRESS)}
    (hself : (am'.mapInfo[nId]?).map CAddrInfo.status = q.map Place.status)
    (hother : ∀ k : Int, k ≠ nId →
      (am'.mapInfo[k]?).map CAddrInfo.status = (am.mapInfo[k]?).map CAddrInfo.status) (k : Int) :
    (am'.mapInfo[k]?).map CAddrInfo.status = (Function.update book nId q k).map Place.status := by
  rw [Function.update_apply]
  split
  · next heq => rw [heq, hself]
  · next hne => rw [hother k hne, h.entry k]

/-! ## Writes that keep place, address and position -/

section Writes

variable {am : CAddrMan} {strict : Prop} {book : AddrBook}
  {pending : Option (Int × Fin ADDRMAN_NEW_BUCKET_COUNT)} {nId : Int} {info info' : CAddrInfo}

theorem Positioned.setInfo (h : am.Positioned) (hi : am.mapInfo[nId]? = some info)
    (hpos : info'.nRandomPos = info.nRandomPos) : (am.setInfo nId info').Positioned where
  nodup := h.nodup
  known := by
    intro k hk
    rw [setInfo_mapInfo]
    split
    · exact ⟨_, rfl⟩
    · exact h.known hk
  pos := by
    intro k i hk
    rw [setInfo_mapInfo] at hk
    split at hk
    · next heq =>
      subst heq
      obtain rfl := Option.some.inj hk
      rw [hpos]
      exact h.pos hi
    · exact h.pos hk

theorem Indexed.setInfo (h : am.Indexed) (hi : am.mapInfo[nId]? = some info)
    (haddr : info'.toCNetAddr = info.toCNetAddr) (hpos : info'.nRandomPos = info.nRandomPos) :
    (am.setInfo nId info').Indexed := by
  obtain ⟨hnodup, hknown, hpos'⟩ := h.positioned.setInfo hi hpos
  refine ⟨hnodup, hknown, hpos', ?_⟩
  intro a k
  rw [setInfo_mapAddr, h.addr, setInfo_mapInfo]
  split
  · next heq =>
    subst heq
    rw [hi]
    simp [haddr]
  · rfl

/-- A new id at the end. -/
theorem Positioned.enter (h : am.Positioned) (hfresh : am.mapInfo[nId]? = none)
    (hpos : info.nRandomPos = am.vRandom.length) (am' : CAddrMan)
    (hmap : am'.mapInfo = am.mapInfo.insert nId info) (hv : am'.vRandom = am.vRandom ++ [nId]) :
    am'.Positioned := by
  have hget : ∀ k : Int, am'.mapInfo[k]? = if nId = k then some info else am.mapInfo[k]? := by
    intro k
    rw [hmap]
    simp [ExtTreeMap.getElem?_insert]
  have hnot : nId ∉ am.vRandom := by
    intro hm
    obtain ⟨i, hi⟩ := h.known hm
    rw [hfresh] at hi
    cases hi
  constructor
  · rw [hv]
    exact List.nodup_append.2 ⟨h.nodup, List.nodup_singleton _, by
      intro x hx y hy
      rw [List.mem_singleton.1 hy]
      exact fun heq => hnot (heq ▸ hx)⟩
  · intro k hk
    rw [hget]
    rw [hv, List.mem_append, List.mem_singleton] at hk
    split
    · exact ⟨_, rfl⟩
    · next hne => exact h.known (hk.resolve_right (Ne.symm hne))
  · intro k i hk
    rw [hget] at hk
    rw [hv]
    split at hk
    · next heq =>
      subst heq
      obtain rfl := Option.some.inj hk
      rw [hpos]
      simp
    · obtain ⟨h0, hat⟩ := h.pos hk
      refine ⟨h0, ?_⟩
      rw [List.getElem?_append_left (List.getElem?_eq_some_iff.1 hat).1]
      exact hat

theorem Holds.setInfo (h : am.Holds book pending) (hi : am.mapInfo[nId]? = some info)
    (hs : info'.status = info.status) : (am.setInfo nId info').Holds book pending where
  entry := by
    intro k
    rw [← h.entry k, setInfo_mapInfo]
    split
    · next heq =>
      subst heq
      rw [hi, Option.map_some, Option.map_some, hs]
    · rfl
  tried_mem := h.tried_mem
  tried_nodup := h.tried_nodup
  new_mem := h.new_mem

/-- A counter of entries is not affected by a write on which the test agrees. -/
theorem count_setInfo {p : CAddrInfo → Bool} (hi : am.mapInfo[nId]? = some info)
    (hp : p info' = p info) :
    OrdMap.count p (am.setInfo nId info').mapInfo = OrdMap.count p am.mapInfo := by
  have h := OrdMap.count_insert_of_some (p := p) (w := info') hi
  rw [hp] at h
  exact Nat.add_right_cancel h

/-- A write that keeps address, position and place keeps the invariant. -/
theorem Inv.setInfo (h : am.Inv strict book pending) (hi : am.mapInfo[nId]? = some info)
    (haddr : info'.toCNetAddr = info.toCNetAddr) (hpos : info'.nRandomPos = info.nRandomPos)
    (hs : info'.status = info.status) (htimes : info'.TimesOk strict) :
    (am.setInfo nId info').Inv strict book pending where
  indexed := h.indexed.setInfo hi haddr hpos
  holds := h.holds.setInfo hi hs
  ids := by
    intro k i hk
    rw [setInfo_mapInfo] at hk
    split at hk
    · next heq => subst heq; exact h.ids hi
    · exact h.ids hk
  idCount := h.idCount
  nNew_eq := by
    rw [setInfo_nNew, h.nNew_eq, count_setInfo hi]
    rw [show info'.fInTried = info.fInTried from congrArg Prod.fst hs]
  nTried_eq := by
    rw [setInfo_nTried, h.nTried_eq, count_setInfo hi]
    exact congrArg Prod.fst hs
  times := by
    intro k i hk
    rw [setInfo_mapInfo] at hk
    split at hk
    · obtain rfl := Option.some.inj hk
      exact htimes
    · exact h.times hk
  new_size := h.new_size
  tried_size := h.tried_size

/-- An entry moves to the place `q`: the entry is rewritten with the status of `q`, the buckets hold
it where `q` says, everything else stays. -/
theorem Tables.move (h : am.Tables strict book pending) (hi : am.mapInfo[nId]? = some info)
    (haddr : info'.toCNetAddr = info.toCNetAddr) (hpos : info'.nRandomPos = info.nRandomPos)
    {q : Place (Fin ADDRMAN_TRIED_BUCKET_COUNT) (Fin ADDRMAN_NEW_BUCKET_COUNT)
      ADDRMAN_NEW_BUCKETS_PER_ADDRESS} (hs : info'.status = Place.status q)
    (htimes : info'.TimesOk strict)
    {am' : CAddrMan} {pending' : Option (Int × Fin ADDRMAN_NEW_BUCKET_COUNT)}
    (hmap : am'.mapInfo = (am.setInfo nId info').mapInfo) (hmapAddr : am'.mapAddr = am.mapAddr)
    (hvRandom : am'.vRandom = am.vRandom) (hids : am'.nIdCount = am.nIdCount)
    (htried : ∀ t k, k ∈ am'.vvTried t ↔ if k = nId then q = .tried t else k ∈ am.vvTried t)
    (hnodup : ∀ t, (am'.vvTried t).Nodup)
    (hpend : ∀ k b, k ≠ nId → (pending' = some (k, b) ↔ pending = some (k, b)))
    (hnew : ∀ b k, k ∈ am'.vvNew b ↔
      if k = nId then b ∈ q.buckets ∧ pending' ≠ some (nId, b) else k ∈ am.vvNew b)
    (hnNew : am'.nNew + (if info.fInTried then 0 else 1) =
      am.nNew + if info'.fInTried then 0 else 1)
    (hnTried : am'.nTried + (if info.fInTried then 1 else 0) =
      am.nTried + if info'.fInTried then 1 else 0) :
    am'.Tables strict (Function.update book nId (some q)) pending' where
  indexed := by
    have hidx := h.indexed.setInfo hi haddr hpos
    refine ⟨?_, ?_, ?_, ?_⟩
    · rw [hvRandom]; exact hidx.nodup
    · rw [hvRandom, hmap]; exact hidx.known
    · rw [hvRandom, hmap]; exact hidx.pos
    · rw [hmapAddr, hmap]; exact hidx.addr
  holds := by
    refine ⟨?_, ?_, hnodup, ?_⟩
    · refine h.holds.entry_update ?_ ?_
      · rw [hmap, setInfo_mapInfo_self, Option.map_some, Option.map_some, hs]
      · intro k hk
        rw [hmap, setInfo_mapInfo_of_ne _ _ _ (Ne.symm hk)]
    · intro t k
      rw [htried, Function.update_apply]
      split
      · rw [Option.some.injEq]
      · exact h.holds.tried_mem t k
    · intro b k
      rw [hnew, Book.newBuckets_update]
      split
      · next heq => rw [heq, Option.elim_some]
      · next hne => rw [h.holds.new_mem, ne_eq, ne_eq, hpend k b hne]
  ids := by
    intro k i hk
    rw [hmap, setInfo_mapInfo] at hk
    rw [hids]
    split at hk
    · next heq => subst heq; exact h.ids hi
    · exact h.ids hk
  idCount := by rw [hids]; exact h.idCount
  nNew_eq := by
    have hc := OrdMap.count_insert_of_some (p := fun i : CAddrInfo => !i.fInTried) (w := info') hi
    have hn := h.nNew_eq
    rw [hmap]
    unfold CAddrMan.setInfo
    cases ht : info.fInTried <;> cases ht' : info'.fInTried <;>
      simp only [ht, ht', Bool.not_true, Bool.not_false, Bool.false_eq_true, if_true, if_false]
        at hc hnNew ⊢ <;> omega
  nTried_eq := by
    have hc := OrdMap.count_insert_of_some (p := fun i : CAddrInfo => i.fInTried) (w := info') hi
    have hn := h.nTried_eq
    rw [hmap]
    unfold CAddrMan.setInfo
    cases ht : info.fInTried <;> cases ht' : info'.fInTried <;>
      simp only [ht, ht', Bool.false_eq_true, if_true, if_false] at hc hnTried ⊢ <;> omega
  times := by
    intro k i hk
    rw [hmap, setInfo_mapInfo] at hk
    split at hk
    · obtain rfl := Option.some.inj hk
      exact htimes
    · exact h.times hk

end Writes

/-! ## `SwapRandom` -/

section Swap

/-- `m'` is `m` with positions moved: each entry's `nRandomPos` is changed by `f`, nothing else. -/
def Moved (m m' : ExtTreeMap Int CAddrInfo compare) (f : Int → Int → Int) : Prop :=
  ∀ k : Int, m'[k]? = (m[k]?).map fun info => { info with nRandomPos := f k info.nRandomPos }

theorem Moved.count_eq {m m' : ExtTreeMap Int CAddrInfo compare} {f : Int → Int → Int}
    (h : Moved m m' f) {p : CAddrInfo → Bool}
    (hp : ∀ info n, p { info with nRandomPos := n } = p info) :
    OrdMap.count p m' = OrdMap.count p m := by
  refine OrdMap.count_congr fun k => ?_
  rw [h k, Option.map_map]
  congr 1
  funext info
  exact hp info _

variable {am : CAddrMan}

theorem readAt_of_getElem? {v : List Int} {n : Nat} {x : Int} (h : v[n]? = some x)
    (fault : AddrManFault) : readAt v n fault = .ok x := by
  unfold readAt
  rw [if_neg (by omega)]
  simp [h]

theorem getInfo_of_getElem? {nId : Int} {info : CAddrInfo} (h : am.mapInfo[nId]? = some info)
    (fault : AddrManFault) : am.getInfo nId fault = .ok info := by
  unfold getInfo
  rw [h]

/-- The position of an id is the one place of `vRandom` that holds it. -/
theorem Positioned.pos_eq (h : am.Positioned) {nId : Int} {info : CAddrInfo} {n : Nat}
    (hi : am.mapInfo[nId]? = some info) (hn : am.vRandom[n]? = some nId) :
    info.nRandomPos = n := by
  obtain ⟨h0, hp⟩ := h.pos hi
  obtain ⟨hn', hne⟩ := List.getElem?_eq_some_iff.1 hn
  obtain ⟨hp', hpe⟩ := List.getElem?_eq_some_iff.1 hp
  have := (List.Nodup.getElem_inj_iff h.nodup).1 (hne.trans hpe.symm)
  omega

/-- `SwapRandom` inside the vector does not fail: it exchanges two ids and their positions. -/
theorem SwapRandom_spec (h : am.Positioned) {i j : Nat} {x y : Int} (hx : am.vRandom[i]? = some x)
    (hy : am.vRandom[j]? = some y) :
    ∃ m, am.SwapRandom i j =
        .ok { am with mapInfo := m, vRandom := Positions.exchange am.vRandom i j x y } ∧
      Moved am.mapInfo m fun k n => if k = y then i else if k = x then j else n := by
  obtain ⟨infox, hix⟩ := h.known (List.mem_of_getElem? hx)
  obtain ⟨infoy, hiy⟩ := h.known (List.mem_of_getElem? hy)
  have hi := (List.getElem?_eq_some_iff.1 hx).1
  have hj := (List.getElem?_eq_some_iff.1 hy).1
  unfold SwapRandom
  by_cases hij : i = j
  · subst hij
    have hxy : x = y := Option.some.inj (hx.symm.trans hy)
    subst hxy
    refine ⟨am.mapInfo, ?_, ?_⟩
    · rw [if_pos rfl]
      have hsame : Positions.exchange am.vRandom i i x x = am.vRandom := by
        obtain ⟨hi', rfl⟩ := List.getElem?_eq_some_iff.1 hx
        simp [Positions.exchange]
      rw [hsame]
    · intro k
      cases hk : am.mapInfo[k]? with
      | none => rfl
      | some info =>
        rw [Option.map_some]
        by_cases hkx : k = x
        · subst hkx
          simp [← h.pos_eq hk hx]
        · simp [hkx]
  · have hxy : x ≠ y := by
      rintro rfl
      obtain ⟨_, hxe⟩ := List.getElem?_eq_some_iff.1 hx
      obtain ⟨_, hye⟩ := List.getElem?_eq_some_iff.1 hy
      exact hij ((List.Nodup.getElem_inj_iff h.nodup).1 (hxe.trans hye.symm))
    have hiy' : (am.setInfo x { infox with nRandomPos := j }).mapInfo[y]? = some infoy := by
      rw [setInfo_mapInfo_of_ne _ _ _ hxy, hiy]
    refine ⟨((am.setInfo x { infox with nRandomPos := j }).setInfo y
      { infoy with nRandomPos := i }).mapInfo, ?_, ?_⟩
    · rw [if_neg (by omega), readAt_of_getElem? hx, readAt_of_getElem? hy]
      simp only [bind, Except.bind, getInfo_of_getElem? hix, getInfo_of_getElem? hiy']
      rfl
    · intro k
      rw [setInfo_mapInfo, setInfo_mapInfo]
      by_cases hky : k = y
      · subst hky
        simp [hiy]
      · by_cases hkx : k = x
        · subst hkx
          simp [hky, Ne.symm hky, hix]
        · simp [hky, hkx, Ne.symm hky, Ne.symm hkx]

/-- An exchange in `vRandom`, with the positions moved, lists the same ids. -/
theorem Positioned.exchange (h : am.Positioned) {i j : Nat} {x y : Int}
    (hx : am.vRandom[i]? = some x) (hy : am.vRandom[j]? = some y)
    {m : ExtTreeMap Int CAddrInfo compare}
    (hm : Moved am.mapInfo m fun k n => if k = y then i else if k = x then j else n) :
    ({ am with
        mapInfo := m
        vRandom := Positions.exchange am.vRandom i j x y } : CAddrMan).Positioned := by
  have hperm := Positions.exchange_perm hx hy
  refine ⟨hperm.nodup_iff.2 h.nodup, ?_, ?_⟩
  · intro k hk
    obtain ⟨info, hi⟩ := h.known (hperm.mem_iff.1 hk)
    exact ⟨_, (hm k).trans (congrArg _ hi)⟩
  · intro k info hk
    dsimp only at hk
    rw [hm k] at hk
    obtain ⟨info₀, hi, rfl⟩ := Option.map_eq_some_iff.1 hk
    obtain ⟨h0, hat⟩ := h.pos hi
    have hmoved := Positions.getElem?_exchange_of_nodup h.nodup hx hy hat
    refine ⟨?_, ?_⟩
    · dsimp only
      split_ifs <;> omega
    · rw [← hmoved]
      dsimp only
      congr 1
      split_ifs <;> omega

end Swap

end CAddrMan

end TriTip
