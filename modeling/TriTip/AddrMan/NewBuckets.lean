import TriTip.AddrMan.Invariant

/-!
# The address manager: the new buckets

`DropReference`, `ShrinkNew`, `AddReference` and `Add_` keep the invariant and do not fail. A
dropped reference is a `release` of the book while other references are left (`Inv.release`) and a
`forget` when it was the last (`Inv.forget`), where the entry also leaves `mapInfo`, `mapAddr`
and, by exchange with the last id, `vRandom`.
-/

namespace TriTip

open Std

namespace CAddrMan

variable {am : CAddrMan} {strict : Prop} {book : AddrBook}
  {pending : Option (Int × Fin ADDRMAN_NEW_BUCKET_COUNT)} {nId : Int} {info : CAddrInfo}
  {b : Fin ADDRMAN_NEW_BUCKET_COUNT} {bs : Finset (Fin ADDRMAN_NEW_BUCKET_COUNT)}

theorem size_eraseNew_le (b' : Fin ADDRMAN_NEW_BUCKET_COUNT) :
    ((am.eraseNew b nId).vvNew b').size ≤ (am.vvNew b').size := by
  unfold eraseNew
  dsimp only
  rw [Function.update_apply]
  split
  · next h => rw [h]; exact ExtTreeSet.size_erase_le
  · exact Nat.le_refl _

theorem size_eraseNew_of_mem (h : nId ∈ am.vvNew b) :
    ((am.eraseNew b nId).vvNew b).size + 1 = (am.vvNew b).size := by
  unfold eraseNew
  dsimp only
  rw [Function.update_self]
  exact OrdMap.size_erase_of_mem h

theorem size_insertNew (b' : Fin ADDRMAN_NEW_BUCKET_COUNT) :
    ((am.insertNew b nId).vvNew b').size ≤
      (am.vvNew b').size + if b' = b then 1 else 0 := by
  unfold insertNew
  dsimp only
  rw [Function.update_apply]
  split
  · next h => rw [h]; exact ExtTreeSet.size_insert_le
  · exact Nat.le_refl _

/-- One of several references is dropped. -/
theorem Inv.release (h : am.Inv strict book pending) {pos le}
    (hp : book nId = some (.new bs pos le))
    (hb : b ∈ bs) (hi : am.mapInfo[nId]? = some info) {info' : CAddrInfo}
    (hinfo' : info' = { info with nRefCount := info.nRefCount - 1 })
    (pos' : 0 < (bs.erase b).card) (le' : (bs.erase b).card ≤ ADDRMAN_NEW_BUCKETS_PER_ADDRESS) :
    ((am.setInfo nId info').eraseNew b nId).Inv strict
      (Function.update book nId (some (.new (bs.erase b) pos' le'))) pending := by
  subst hinfo'
  obtain ⟨htried, hrefs⟩ := h.holds.entry_at hi hp
  rw [Place.isTried_new] at htried
  rw [Place.refs_new] at hrefs
  have hcard := Finset.card_erase_of_mem hb
  refine ⟨h.toTables.move hi ?_ ?_ ?_ ?_ rfl rfl rfl rfl ?_ h.holds.tried_nodup ?_ ?_ rfl rfl, ?_,
    h.tried_size⟩
  · rfl
  · rfl
  · simp only [CAddrInfo.status, Place.status, Place.isTried_new, Place.refs_new, htried, hrefs,
      hcard]
    rw [Nat.cast_sub (by omega), Nat.cast_one]
  · have ht := h.times hi
    exact ⟨ht.1, ht.2, ht.3⟩
  · intro t k
    refine (h.holds.tried_mem t k).trans ?_
    split
    · next heq => simp [heq, hp]
    · exact (h.holds.tried_mem t k).symm
  · exact fun k b' _ => Iff.rfl
  · intro b' k
    rw [mem_eraseNew, setInfo_vvNew]
    split
    · next heq =>
      subst heq
      rw [h.holds.new_mem, Book.newBuckets_of_some hp]
      simp only [Place.buckets_new, Finset.mem_erase, and_true]
      rw [and_assoc]
    · next hne => simp [hne]
  · intro b'
    exact Nat.le_trans (size_eraseNew_le b') (h.new_size b')

/-- The last reference is dropped: the entry leaves every table. `m` is `mapInfo` with the positions
of the exchange moved. -/
theorem Inv.forget (h : am.Inv strict book pending) (hp : book nId = some (.single b))
    (hi : am.mapInfo[nId]? = some info) {last : Int}
    (hl : am.vRandom[am.vRandom.length - 1]? = some last)
    {m : ExtTreeMap Int CAddrInfo compare}
    (hm : Moved (am.setInfo nId { info with nRefCount := info.nRefCount - 1 }).mapInfo m
      fun k n => if k = last then info.nRandomPos.toNat
        else if k = nId then (am.vRandom.length - 1 : Nat) else n) :
    ({ am with
        vRandom := Positions.removeAt am.vRandom info.nRandomPos.toNat nId last
        mapAddr := Function.update am.mapAddr info.toCNetAddr none
        mapInfo := m.erase nId
        nNew := am.nNew - 1 } : CAddrMan).eraseNew b nId |>.Inv strict
      (Function.update book nId none) pending := by
  obtain ⟨htried, -⟩ := h.holds.entry_at hi hp
  rw [Place.isTried_single] at htried
  obtain ⟨hpos0, hposAt⟩ := h.indexed.pos hi
  have hnd := h.indexed.nodup
  -- the map after the deletion, id by id
  have hother : ∀ k : Int, k ≠ nId → (m.erase nId)[k]? = (am.mapInfo[k]?).map fun i =>
      { i with
        nRandomPos := if k = last then (info.nRandomPos.toNat : Int) else i.nRandomPos } := by
    intro k hk
    rw [ExtTreeMap.getElem?_erase, if_neg (by simpa using Ne.symm hk), hm k,
      setInfo_mapInfo_of_ne _ _ _ (Ne.symm hk)]
    simp only [hk, if_false]
  have hself : (m.erase nId)[nId]? = none := ExtTreeMap.getElem?_erase_self
  have hback : ∀ {k : Int} {i : CAddrInfo}, (m.erase nId)[k]? = some i →
      k ≠ nId ∧ ∃ i₀, am.mapInfo[k]? = some i₀ ∧
        i = { i₀ with nRandomPos := if k = last then (info.nRandomPos.toNat : Int)
          else i₀.nRandomPos } := by
    intro k i hk
    have hne : k ≠ nId := by
      rintro rfl
      rw [hself] at hk
      cases hk
    rw [hother k hne] at hk
    obtain ⟨i₀, hi₀, rfl⟩ := Option.map_eq_some_iff.1 hk
    exact ⟨hne, i₀, hi₀, rfl⟩
  have hcount : ∀ p : CAddrInfo → Bool, (∀ i n, p { i with nRandomPos := n } = p i) →
      p { info with nRefCount := info.nRefCount - 1 } = p info →
      OrdMap.count p am.mapInfo = OrdMap.count p (m.erase nId) + if p info then 1 else 0 := by
    intro p hpos hrefs
    have hin : m[nId]? = some { info with
        nRefCount := info.nRefCount - 1
        nRandomPos := if nId = last then (info.nRandomPos.toNat : Int)
          else (am.vRandom.length - 1 : Nat) } := by
      rw [hm nId, setInfo_mapInfo_self]
      simp
    have hval := hpos { info with nRefCount := info.nRefCount - 1 }
      (if nId = last then (info.nRandomPos.toNat : Int) else (am.vRandom.length - 1 : Nat))
    rw [← count_setInfo hi hrefs, ← hm.count_eq hpos, OrdMap.count_erase hin, hval, hrefs]
  refine ⟨⟨⟨?_, ?_, ?_, ?_⟩, ⟨?_, ?_, h.holds.tried_nodup, ?_⟩, ?_, h.idCount, ?_, ?_, ?_⟩, ?_,
    h.tried_size⟩
  · exact Positions.removeAt_nodup hnd hposAt hl
  · intro k hk
    obtain ⟨hkv, hne⟩ := (Positions.mem_removeAt hnd hposAt hl).1 hk
    obtain ⟨i, hki⟩ := h.indexed.known hkv
    exact ⟨_, by rw [eraseNew_mapInfo, hother k hne, hki]; rfl⟩
  · intro k i hk
    obtain ⟨hne, i₀, hi₀, rfl⟩ := hback hk
    obtain ⟨h0, hat⟩ := h.indexed.pos hi₀
    have hmoved := Positions.getElem?_removeAt hnd hposAt hl hat hne
    refine ⟨?_, ?_⟩
    · dsimp only
      split <;> omega
    · rw [← hmoved]
      dsimp only [eraseNew_vRandom]
      congr 1
      split <;> omega
  · intro a k
    rw [eraseNew_mapAddr, eraseNew_mapInfo]
    dsimp only
    rw [Function.update_apply]
    constructor
    · intro ha
      split at ha
      · cases ha
      · next hne =>
        obtain ⟨i, hki, rfl⟩ := h.indexed.addr.1 ha
        have hk : k ≠ nId := by
          rintro rfl
          rw [hi] at hki
          rw [Option.some.inj hki] at hne
          exact hne rfl
        exact ⟨_, (hother k hk).trans (congrArg (Option.map _) hki), rfl⟩
    · rintro ⟨i, hki, rfl⟩
      obtain ⟨hne, i₀, hi₀, rfl⟩ := hback hki
      have hdiff : i₀.toCNetAddr ≠ info.toCNetAddr :=
        fun heq => hne (h.indexed.addr_inj hi₀ hi heq)
      rw [if_neg hdiff]
      exact h.indexed.addr.2 ⟨i₀, hi₀, rfl⟩
  · refine h.holds.entry_update ?_ ?_
    · rw [eraseNew_mapInfo, hself]
      rfl
    · intro k hk
      rw [eraseNew_mapInfo, hother k hk, Option.map_map]
      rfl
  · intro t k
    rw [eraseNew_vvTried, Function.update_apply]
    refine (h.holds.tried_mem t k).trans ?_
    split
    · next heq =>
      subst heq
      rw [hp]
      simp [Place.single]
    · rfl
  · intro b' k
    rw [mem_eraseNew, Book.newBuckets_update]
    refine (and_congr_right fun _ => h.holds.new_mem b' k).trans ?_
    split
    · next heq =>
      subst heq
      rw [Book.newBuckets_of_some hp]
      simp only [Place.buckets_single, Option.elim_none, Finset.mem_singleton, and_true,
        Finset.notMem_empty, false_and, iff_false]
      tauto
    · next hne => simp [hne]
  · intro k i hk
    obtain ⟨-, i₀, hi₀, -⟩ := hback hk
    exact h.ids hi₀
  · have hc := hcount (fun i => !i.fInTried) (fun _ _ => rfl) rfl
    have hn := h.nNew_eq
    rw [htried] at hc
    rw [eraseNew_nNew, eraseNew_mapInfo]
    dsimp only
    simp only [Bool.not_false, if_true] at hc
    omega
  · have hc := hcount (fun i => i.fInTried) (fun _ _ => rfl) rfl
    have hn := h.nTried_eq
    rw [htried] at hc
    rw [eraseNew_nTried, eraseNew_mapInfo]
    dsimp only
    simp only [Bool.false_eq_true, if_false] at hc
    omega
  · intro k i hk
    obtain ⟨-, i₀, hi₀, rfl⟩ := hback hk
    have ht := h.times hi₀
    exact ⟨ht.1, ht.2, ht.3⟩
  · intro b'
    exact Nat.le_trans (size_eraseNew_le b') (h.new_size b')

/-- Dropping a reference found in a bucket does not fail, and is one step of the book. -/
theorem DropReference_spec (h : am.Inv strict book pending) (hm : nId ∈ am.vvNew b)
    (hi : am.mapInfo[nId]? = some info) :
    ∃ am' q, am.DropReference b nId info = .ok am' ∧
      am'.Inv strict (Function.update book nId q) pending ∧ book.Step (Function.update book nId q) ∧
      am'.vvNew = (am.eraseNew b nId).vvNew ∧ am'.nKey = am.nKey := by
  obtain ⟨bs, pos, le, info₀, hp, hb, hi₀, htried, hrefs⟩ := h.holds.of_mem_new hm
  rw [hi] at hi₀
  obtain rfl := Option.some.inj hi₀
  have hcard := Finset.card_erase_of_mem hb
  unfold DropReference
  by_cases hlast : bs.card = 1
  · -- the last reference: the entry is deleted
    obtain ⟨b', rfl⟩ := Finset.card_eq_one.1 hlast
    obtain rfl := Finset.mem_singleton.1 hb
    obtain ⟨hpos0, hposAt⟩ := h.indexed.pos hi
    have hlen := (List.getElem?_eq_some_iff.1 hposAt).1
    obtain ⟨last, hl⟩ : ∃ last, am.vRandom[am.vRandom.length - 1]? = some last :=
      ⟨_, List.getElem?_eq_getElem (by omega)⟩
    have hidx : (am.setInfo nId { info with nRefCount := info.nRefCount - 1 }).Indexed :=
      h.indexed.setInfo hi rfl rfl
    obtain ⟨m, hswap, hmoved⟩ := SwapRandom_spec hidx.positioned hposAt hl
    refine ⟨_, none, ?_, h.forget hp hi hl hmoved, .forget b hp, rfl, rfl⟩
    have hcast : (info.nRandomPos.toNat : Int) = info.nRandomPos := Int.toNat_of_nonneg hpos0
    have hcast' : ((am.vRandom.length - 1 : Nat) : Int) = (am.vRandom.length : Int) - 1 := by omega
    rw [hcast, hcast'] at hswap
    simp only [hrefs, hlast, Nat.cast_one, Int.sub_self, if_true] at hswap ⊢
    rw [setInfo_vRandom, hswap]
    rfl
  · have hcard' : 0 < (bs.erase b).card := by omega
    refine ⟨_, _, ?_, h.release hp hb hi rfl hcard' (by omega), .release b hp hb hcard' (by omega),
      rfl, rfl⟩
    have hne : ¬info.nRefCount - 1 = 0 := by omega
    simp only [hne, if_false]

/-! ## `ShrinkNew` -/

/-- The first loop finds an entry of the list, or none. -/
theorem FindTerrible_spec {l : List Int} (hl : ∀ nId ∈ l, ∃ info, am.mapInfo[nId]? = some info)
    (now : Nat → Int64) (k : Nat) :
    ∃ r, am.FindTerrible now k l = .ok r ∧
      ∀ {nId info}, r = some (nId, info) → nId ∈ l ∧ am.mapInfo[nId]? = some info := by
  induction l generalizing k with
  | nil => exact ⟨none, rfl, by simp⟩
  | cons i rest ih =>
    obtain ⟨info, hi⟩ := hl i List.mem_cons_self
    obtain ⟨r, hr, hmem⟩ := ih (fun j hj => hl j (List.mem_cons_of_mem _ hj)) (k + 1)
    simp only [FindTerrible, getInfo_of_getElem? hi, bind, Except.bind]
    by_cases ht : info.IsTerrible (now k) = true
    · refine ⟨some (i, info), by rw [if_pos ht], fun heq => ?_⟩
      obtain ⟨rfl, rfl⟩ := Prod.mk.inj (Option.some.inj heq)
      exact ⟨List.mem_cons_self, hi⟩
    · refine ⟨r, by rw [if_neg ht, hr], fun heq => ?_⟩
      obtain ⟨hm, hi'⟩ := hmem heq
      exact ⟨List.mem_cons_of_mem _ hm, hi'⟩

/-- The second loop keeps the oldest inspected entry; once a drawn position is met there is one. -/
theorem FindOldest_spec {l : List Int} (hl : ∀ nId ∈ l, ∃ info, am.mapInfo[nId]? = some info)
    (n : List Nat) (nI : Nat) {nOldest : Int}
    (hold : nOldest = -1 ∨ ∃ info, am.mapInfo[nOldest]? = some info) :
    ∃ r, am.FindOldest n nI l nOldest = .ok r ∧ (r = nOldest ∨ r ∈ l) ∧
      ((∃ i ∈ n, nI ≤ i ∧ i < nI + l.length) → nOldest = -1 → r ∈ l) := by
  induction l generalizing nI nOldest with
  | nil =>
    refine ⟨nOldest, rfl, Or.inl rfl, ?_⟩
    rintro ⟨i, -, hle, hlt⟩
    rw [List.length_nil] at hlt
    omega
  | cons nId rest ih =>
    have hrest : ∀ j ∈ rest, ∃ info, am.mapInfo[j]? = some info :=
      fun j hj => hl j (List.mem_cons_of_mem _ hj)
    have hhead := hl nId List.mem_cons_self
    obtain ⟨info, hi⟩ := hhead
    -- the recursive calls, with the old and with the new candidate
    obtain ⟨r₁, hr₁, hm₁, hd₁⟩ := ih hrest (nI + 1) hold
    obtain ⟨r₂, hr₂, hm₂, -⟩ := ih hrest (nI + 1) (Or.inr ⟨info, hi⟩)
    have hnew : r₂ ∈ nId :: rest := hm₂.elim (fun h => h ▸ List.mem_cons_self)
      (List.mem_cons_of_mem _)
    have hkeep : r₁ = nOldest ∨ r₁ ∈ nId :: rest := hm₁.imp_right (List.mem_cons_of_mem _)
    simp only [FindOldest]
    by_cases hin : nI ∈ n
    · by_cases hneg : nOldest = -1
      · refine ⟨r₂, ?_, Or.inr hnew, fun _ _ => hnew⟩
        rw [if_pos hin, if_pos hneg, hr₂]
      · obtain ⟨infoOldest, ho⟩ := hold.resolve_left hneg
        simp only [hin, hneg, if_true, if_false, getInfo_of_getElem? hi, getInfo_of_getElem? ho,
          bind,
          Except.bind]
        by_cases holder : info.nTime < infoOldest.nTime
        · exact ⟨r₂, by rw [if_pos holder, hr₂], Or.inr hnew, fun _ h => h.elim⟩
        · exact ⟨r₁, by rw [if_neg holder, hr₁], hkeep, fun _ h => h.elim⟩
    · refine ⟨r₁, by rw [if_neg hin, hr₁], hkeep, ?_⟩
      rintro ⟨i, hi', hle, hlt⟩ hneg
      rw [List.length_cons] at hlt
      have hne : i ≠ nI := fun h => hin (h ▸ hi')
      exact List.mem_cons_of_mem _ (hd₁ ⟨i, hi', by omega, by omega⟩ hneg)

/-- `ShrinkNew` of a bucket that holds something drops a reference found there. -/
theorem ShrinkNew_drops (hl : ∀ nId ∈ am.vvNew b, ∃ info, am.mapInfo[nId]? = some info)
    (hne : 0 < (am.vvNew b).size) (now : Nat → Int64) (rnd : Nat → Nat) :
    ∃ nId info r, nId ∈ am.vvNew b ∧ am.mapInfo[nId]? = some info ∧
      am.ShrinkNew now rnd b = (am.DropReference b nId info).map fun am' => (am', r) := by
  have hlist : ∀ nId ∈ (am.vvNew b).toList, ∃ info, am.mapInfo[nId]? = some info :=
    fun nId hm => hl nId (ExtTreeSet.mem_toList.1 hm)
  have hlen : 0 < (am.vvNew b).toList.length := by rwa [ExtTreeSet.length_toList]
  obtain ⟨r, hr, hfound⟩ := FindTerrible_spec hlist now 0
  unfold ShrinkNew
  cases r with
  | some e =>
    obtain ⟨nId, info⟩ := e
    obtain ⟨hm, hi⟩ := hfound rfl
    refine ⟨nId, info, 0, ExtTreeSet.mem_toList.1 hm, hi, ?_⟩
    simp only [hr, bind, Except.bind]
    cases am.DropReference b nId info <;> rfl
  | none =>
    obtain ⟨nOldest, ho, -, hdrawn⟩ := FindOldest_spec hlist
      ([0, 1, 2, 3].map fun k => GetRandInt (rnd k) (am.vvNew b).toList.length) 0 (Or.inl rfl)
    have hm : nOldest ∈ (am.vvNew b).toList := by
      refine hdrawn ⟨GetRandInt (rnd 0) (am.vvNew b).toList.length, ?_, Nat.zero_le _, ?_⟩ rfl
      · exact List.mem_map.2 ⟨0, List.mem_cons_self, rfl⟩
      · rw [Nat.zero_add]
        exact GetRandInt_lt _ hlen
    obtain ⟨info, hi⟩ := hlist nOldest hm
    refine ⟨nOldest, info, 1, ExtTreeSet.mem_toList.1 hm, hi, ?_⟩
    simp only [hr, bind, Except.bind, ho, getInfo_of_getElem? hi]
    cases am.DropReference b nOldest info <;> rfl

/-- It is one step of the book. -/
theorem ShrinkNew_spec (h : am.Inv strict book pending) (hne : 0 < (am.vvNew b).size)
    (now : Nat → Int64) (rnd : Nat → Nat) :
    ∃ am' r nId q, am.ShrinkNew now rnd b = .ok (am', r) ∧ nId ∈ am.vvNew b ∧
      am'.Inv strict (Function.update book nId q) pending ∧ book.Step (Function.update book nId q) ∧
      am'.vvNew = (am.eraseNew b nId).vvNew ∧ am'.nKey = am.nKey := by
  have hl : ∀ nId ∈ am.vvNew b, ∃ info, am.mapInfo[nId]? = some info := by
    intro nId hm
    obtain ⟨-, -, -, info, -, -, hi, -⟩ := h.holds.of_mem_new hm
    exact ⟨info, hi⟩
  obtain ⟨nId, info, r, hm, hi, hshrink⟩ := ShrinkNew_drops hl hne now rnd
  obtain ⟨am', q, hd, hinv, hstep, hnew, hkey⟩ := DropReference_spec h hm hi
  refine ⟨am', r, nId, q, ?_, hm, hinv, hstep, hnew, hkey⟩
  rw [hshrink, hd]
  rfl

/-! ## `Add_` -/

/-- The pending entry is put in its bucket. -/
theorem Inv.settle (h : am.Inv strict book (some (nId, b))) (hb : b ∈ book.newBuckets nId)
    (hsize : (am.vvNew b).size < ADDRMAN_NEW_BUCKET_SIZE) :
    (am.insertNew b nId).Inv strict book none where
  indexed := ⟨h.indexed.nodup, h.indexed.known, h.indexed.pos, h.indexed.addr⟩
  holds := by
    refine ⟨h.holds.entry, h.holds.tried_mem, h.holds.tried_nodup, ?_⟩
    intro b' k
    rw [mem_insertNew, h.holds.new_mem]
    by_cases hk : b' = b ∧ k = nId
    · obtain ⟨rfl, rfl⟩ := hk
      simp [hb]
    · have hne : ¬(nId = k ∧ b = b') := fun hc => hk ⟨hc.2.symm, hc.1.symm⟩
      simp [hk, hne]
  ids := h.ids
  idCount := h.idCount
  nNew_eq := h.nNew_eq
  nTried_eq := h.nTried_eq
  times := h.times
  new_size := by
    intro b'
    have hs : ((am.insertNew b nId).vvNew b').size ≤ _ := size_insertNew b'
    have hold := h.new_size b'
    split at hs
    · next heq =>
      subst heq
      omega
    · omega
  tried_size := h.tried_size

/-- One more reference is counted; the bucket is still to take it. -/
theorem Inv.refer (h : am.Inv strict book none) {pos le} (hp : book nId = some (.new bs pos le))
    (hb : b ∉ bs) (hi : am.mapInfo[nId]? = some info) (pos' : 0 < (insert b bs).card)
    (le' : (insert b bs).card ≤ ADDRMAN_NEW_BUCKETS_PER_ADDRESS) :
    (am.setInfo nId { info with nRefCount := info.nRefCount + 1 }).Inv strict
      (Function.update book nId (some (.new (insert b bs) pos' le'))) (some (nId, b)) := by
  obtain ⟨htried, hrefs⟩ := h.holds.entry_at hi hp
  rw [Place.isTried_new] at htried
  rw [Place.refs_new] at hrefs
  refine ⟨h.toTables.move hi ?_ ?_ ?_ ?_ rfl rfl rfl rfl ?_ h.holds.tried_nodup ?_ ?_ rfl rfl,
    h.new_size, h.tried_size⟩
  · rfl
  · rfl
  · simp only [CAddrInfo.status, Place.status, Place.isTried_new, Place.refs_new, htried, hrefs,
      Finset.card_insert_of_notMem hb, Nat.cast_add, Nat.cast_one]
  · have ht := h.times hi
    exact ⟨ht.1, ht.2, ht.3⟩
  · intro t k
    rw [setInfo_vvTried, h.holds.tried_mem]
    split
    · next heq => simp [heq, hp]
    · rfl
  · intro k b' hk
    simp [Ne.symm hk]
  · intro b' k
    rw [setInfo_vvNew]
    split
    · next heq =>
      subst heq
      rw [h.holds.new_mem, Book.newBuckets_of_some hp]
      simp only [Place.buckets_new, Finset.mem_insert]
      by_cases hbb : b' = b
      · subst hbb
        simp [hb]
      · simp [hbb, Ne.symm hbb]
    · rfl

/-- `AddReference` to a bucket without the entry: if counting the reference leaves the entry pending
there, making room in a full bucket and putting the entry in restores the invariant. -/
theorem AddReference_of_pending {H : BucketHash} {source : CNetAddr}
    (hb : info.GetNewBucket H am.nKey source = b)
    (h : (am.setInfo nId { info with nRefCount := info.nRefCount + 1 }).Inv strict book
      (some (nId, b)))
    (hmem : b ∈ book.newBuckets nId) (now : Nat → Int64) (rnd : Nat → Nat) :
    ∃ am' book', am.AddReference H nId info source now rnd = .ok am' ∧ am'.Inv strict book' none ∧
      book.Steps book' ∧ am'.nKey = am.nKey := by
  have hnot : nId ∉ am.vvNew b := fun hm => ((h.holds.new_mem b nId).1 hm).2 rfl
  unfold AddReference
  rw [hb]
  by_cases hfull : (am.vvNew b).size = ADDRMAN_NEW_BUCKET_SIZE
  · have hne : 0 < (am.vvNew b).size := by
      rw [hfull]
      exact Nat.succ_pos 63
    obtain ⟨am', r, k, q, hs, hm, hinv, hstep, hnew, hkey⟩ := ShrinkNew_spec h hne now rnd
    -- the entry dropped is not the one to be put in
    have hk : nId ≠ k := fun heq => hnot (heq ▸ hm)
    have hmem' : b ∈ Book.newBuckets (Function.update book k q) nId := by
      rw [Book.newBuckets_update, if_neg hk]
      exact hmem
    have hroom : (am'.vvNew b).size < ADDRMAN_NEW_BUCKET_SIZE := by
      have hlt := size_eraseNew_of_mem hm
      rw [setInfo_vvNew, hfull] at hlt
      rw [hnew]
      omega
    refine ⟨am'.insertNew b nId, _, ?_, hinv.settle hmem' hroom, .single hstep, hkey⟩
    simp only [hnot, if_false, hfull, if_true, hs, bind, Except.bind]
  · have hroom : (am.vvNew b).size < ADDRMAN_NEW_BUCKET_SIZE :=
      Nat.lt_of_le_of_ne (h.new_size b) hfull
    refine ⟨_, book, ?_, h.settle hmem hroom, .refl, rfl⟩
    simp only [hnot, hfull, if_false, bind, Except.bind]

/-- The next id is not known. -/
theorem Inv.fresh (h : am.Inv strict book pending) : am.mapInfo[am.nIdCount]? = none := by
  cases hi : am.mapInfo[am.nIdCount]? with
  | none => rfl
  | some i => exact absurd (h.ids hi).2 (Int.lt_irrefl _)

theorem Inv.unknown_next (h : am.Inv strict book pending) : book am.nIdCount = none := by
  cases hp : book am.nIdCount with
  | none => rfl
  | some p =>
    obtain ⟨i, hi, -⟩ := h.holds.entry_of_place hp
    rw [h.fresh] at hi
    cases hi

/-- A new entry, with the next id, at the end of `vRandom`, and one reference counted. -/
theorem Inv.enter (h : am.Inv strict book none) {addr : CNetAddr} (hnew : am.mapAddr addr = none)
    (haddr : info.toCNetAddr = addr) (hpos : info.nRandomPos = am.vRandom.length)
    (hs : info.status = (false, 1)) (htimes : info.TimesOk strict)
    (b : Fin ADDRMAN_NEW_BUCKET_COUNT) :
    ({ am with
        nIdCount := am.nIdCount + 1
        mapInfo := am.mapInfo.insert am.nIdCount info
        mapAddr := Function.update am.mapAddr addr (some am.nIdCount)
        vRandom := am.vRandom ++ [am.nIdCount]
        nNew := am.nNew + 1 } : CAddrMan).Inv strict
      (Function.update book am.nIdCount (some (.single b))) (some (am.nIdCount, b)) := by
  obtain ⟨htried, hrefs⟩ := Prod.mk.inj hs
  have hfresh := h.fresh
  have hunknown := h.unknown_next
  have hget : ∀ k : Int, (am.mapInfo.insert am.nIdCount info)[k]? =
      if am.nIdCount = k then some info else am.mapInfo[k]? := by
    intro k
    simp [ExtTreeMap.getElem?_insert]
  obtain ⟨hnodup, hknown, hposAt⟩ := h.indexed.positioned.enter hfresh hpos { am with
    nIdCount := am.nIdCount + 1
    mapInfo := am.mapInfo.insert am.nIdCount info
    mapAddr := Function.update am.mapAddr addr (some am.nIdCount)
    vRandom := am.vRandom ++ [am.nIdCount]
    nNew := am.nNew + 1 } rfl rfl
  refine ⟨⟨⟨hnodup, hknown, hposAt, ?_⟩, ⟨?_, ?_, h.holds.tried_nodup, ?_⟩, ?_, ?_, ?_, ?_, ?_⟩,
    h.new_size, h.tried_size⟩
  · intro a k
    dsimp only
    rw [Function.update_apply, hget]
    by_cases ha : a = addr
    · subst ha
      rw [if_pos rfl]
      constructor
      · intro hk
        obtain rfl := Option.some.inj hk
        exact ⟨info, by rw [if_pos rfl], haddr⟩
      · rintro ⟨i, hk, hia⟩
        split at hk
        · next heq => rw [heq]
        · rw [h.indexed.addr.2 ⟨i, hk, hia⟩] at hnew
          cases hnew
    · rw [if_neg ha, h.indexed.addr]
      constructor
      · rintro ⟨i, hk, hia⟩
        have hne : am.nIdCount ≠ k := by
          rintro rfl
          rw [hfresh] at hk
          cases hk
        exact ⟨i, by rw [if_neg hne, hk], hia⟩
      · rintro ⟨i, hk, hia⟩
        split at hk
        · obtain rfl := Option.some.inj hk
          exact absurd (hia.symm.trans haddr) ha
        · exact ⟨i, hk, hia⟩
  · refine h.holds.entry_update ?_ ?_
    · dsimp only
      rw [hget, if_pos rfl, Option.map_some, Option.map_some, hs]
      simp [Place.status]
    · intro k hk
      dsimp only
      rw [hget, if_neg (Ne.symm hk)]
  · intro t k
    dsimp only
    rw [h.holds.tried_mem, Function.update_apply]
    split
    · next heq =>
      subst heq
      simp [hunknown, Place.single]
    · rfl
  · intro b' k
    dsimp only
    rw [h.holds.new_mem, Book.newBuckets_update]
    split
    · next heq =>
      subst heq
      simp [Book.newBuckets, hunknown]
      tauto
    · next hne => simp [Ne.symm hne]
  · intro k i hk
    dsimp only at hk ⊢
    rw [hget] at hk
    have h0 := h.idCount
    split at hk
    · omega
    · have := h.ids hk
      omega
  · have := h.idCount
    dsimp only
    omega
  · have hc : OrdMap.count (fun i => !i.fInTried) (am.mapInfo.insert am.nIdCount info) =
        OrdMap.count (fun i => !i.fInTried) am.mapInfo + 1 := by
      rw [OrdMap.count_insert_of_none hfresh, htried]
      rfl
    have hn := h.nNew_eq
    dsimp only
    omega
  · have hc : OrdMap.count (fun i => i.fInTried) (am.mapInfo.insert am.nIdCount info) =
        OrdMap.count (fun i => i.fInTried) am.mapInfo := by
      rw [OrdMap.count_insert_of_none hfresh, htried]
      rfl
    have hn := h.nTried_eq
    dsimp only
    omega
  · intro k i hk
    dsimp only at hk
    rw [hget] at hk
    split at hk
    · obtain rfl := Option.some.inj hk
      exact htimes
    · exact h.times hk

/-- `AddReference` of an entry with references to spare does not fail, and is steps of the book. -/
theorem AddReference_spec (H : BucketHash) (h : am.Inv strict book none) {pos le}
    (hp : book nId = some (.new bs pos le)) (hi : am.mapInfo[nId]? = some info)
    (hfew : info.nRefCount ≠ (ADDRMAN_NEW_BUCKETS_PER_ADDRESS : Int)) (source : CNetAddr)
    (now : Nat → Int64) (rnd : Nat → Nat) :
    ∃ am' book', am.AddReference H nId info source now rnd = .ok am' ∧ am'.Inv strict book' none ∧
      book.Steps book' ∧ am'.nKey = am.nKey := by
  obtain ⟨-, hrefs⟩ := h.holds.entry_at hi hp
  rw [Place.refs_new] at hrefs
  by_cases hin : nId ∈ am.vvNew (info.GetNewBucket H am.nKey source)
  · exact ⟨am, book, by unfold AddReference; rw [if_pos hin], h, .refl, rfl⟩
  · have hb : info.GetNewBucket H am.nKey source ∉ bs := by
      intro hb
      refine hin ((h.holds.new_mem _ _).2 ⟨?_, by simp⟩)
      rw [Book.newBuckets_of_some hp]
      exact hb
    have hcard := Finset.card_insert_of_notMem hb
    have hle : bs.card + 1 ≤ ADDRMAN_NEW_BUCKETS_PER_ADDRESS := by
      have : bs.card ≠ ADDRMAN_NEW_BUCKETS_PER_ADDRESS := fun hc => hfew (hrefs.trans (by rw [hc]))
      omega
    have hpend := h.refer hp hb hi (by omega) (by omega)
    obtain ⟨am', book', hok, hinv, hsteps, hkey⟩ := AddReference_of_pending rfl hpend (by
      rw [Book.newBuckets_update, if_pos rfl]
      exact Finset.mem_insert_self _ _) now rnd
    exact ⟨am', book', hok, hinv, .head (.refer _ hp hb (by omega) (by omega)) hsteps, hkey⟩

/-- A known address brought up to date. -/
theorem Inv.updateKnown (h : am.Inv strict book none) (hi : am.mapInfo[nId]? = some info)
    (addr : CAddress) (nTimePenalty nNow : Int64) :
    (am.setInfo nId (UpdateKnown info addr nTimePenalty nNow)).Inv strict book none :=
  h.setInfo hi rfl rfl rfl ⟨(h.times hi).1, (h.times hi).2, (h.times hi).3⟩

/-- `Add_` does not fail, and is steps of the book. -/
theorem Add_spec (H : BucketHash) (h : am.Inv strict book none) (addr : CAddress)
    (source : CNetAddr)
    (nTimePenalty : Int64) (now : Nat → Int64) (rnd : Nat → Nat) :
    ∃ am' r book', am.Add_ H addr source nTimePenalty now rnd = .ok (am', r) ∧
      am'.Inv strict book' none ∧
      book.Steps book' ∧ am'.nKey = am.nKey := by
  obtain hadd | ⟨nId, info, hf, hadd | ⟨htried, hfew, hadd⟩⟩ | ⟨hf, hadd⟩ :=
    Add_outcomes H am addr source nTimePenalty now rnd
  · exact ⟨am, false, book, hadd, h, .refl, rfl⟩
  · obtain ⟨hi, -⟩ := h.indexed.find_some hf
    exact ⟨_, false, book, hadd, h.updateKnown hi addr nTimePenalty (now 0), .refl, rfl⟩
  · obtain ⟨hi, -⟩ := h.indexed.find_some hf
    have hupd := h.updateKnown hi addr nTimePenalty (now 0)
    have hi' := setInfo_mapInfo_self am nId (UpdateKnown info addr nTimePenalty (now 0))
    obtain ⟨bs, pos, le, hp, -⟩ := hupd.holds.place_new hi' htried
    obtain ⟨am', book', hok, hinv, hsteps, hkey⟩ := AddReference_spec H hupd hp hi' hfew source
      (fun k => now (k + 1)) fun k => rnd (k + 1)
    rw [hadd, hok]
    exact ⟨am', false, book', rfl, hinv, hsteps, hkey⟩
  · -- an unknown address: a new entry, with one reference
    have hnone := h.indexed.find_none hf
    set info := am.newInfo addr source nTimePenalty with hinfo
    have hentered : (am.withNewInfo addr source nTimePenalty).setInfo am.nIdCount
          { info with nRefCount := info.nRefCount + 1 } =
        { am with
          nIdCount := am.nIdCount + 1
          mapInfo := am.mapInfo.insert am.nIdCount { info with nRefCount := info.nRefCount + 1 }
          mapAddr := Function.update am.mapAddr addr.toCNetAddr (some am.nIdCount)
          vRandom := am.vRandom ++ [am.nIdCount]
          nNew := am.nNew + 1 } := by
      simp only [withNewInfo, Create, CAddrMan.setInfo, OrdMap.insert_insert_self]
    have htimes : CAddrInfo.TimesOk { info with nRefCount := info.nRefCount + 1 } strict :=
      ⟨Int64.le_refl 0, (fun hc => by cases hc), fun _ => Int64.le_refl 0⟩
    have hpend := Inv.enter h hnone
      (rfl : { info with nRefCount := info.nRefCount + 1 }.toCNetAddr = _) rfl rfl htimes
      (info.GetNewBucket H am.nKey source)
    rw [← hentered] at hpend
    obtain ⟨am', book', hok, hinv, hsteps, hkey⟩ := AddReference_of_pending rfl hpend (by
      rw [Book.newBuckets_update, if_pos rfl]
      exact Finset.mem_singleton_self _) (fun k => now (k + 1)) fun k => rnd (k + 1)
    refine ⟨am', true, book', ?_, hinv, .head (.enter _ h.unknown_next) hsteps, hkey⟩
    rw [hadd]
    exact congrArg (· >>= fun am' => .ok (am', true)) hok

end CAddrMan

end TriTip
