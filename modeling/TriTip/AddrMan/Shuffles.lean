import TriTip.AddrMan.Reachable

/-!
# The address manager: its shuffles

`SelectTried` and `GetAddr_` shuffle the first elements of a vector, each turn drawing from the
whole rest of it. Both loops are `Positions.shuffle`, with the positions that `GetRandInt` draws.

`GetAddr_` returns what it has drawn, which are distinct known addresses (`GetAddr_returns`).
`SelectTried` remembers the position that the oldest entry was drawn from, but the entry is at the
place of the turn by then; `SelectTried_oldest_iff` says when the position still holds an entry as
old.
-/

namespace TriTip

open Std

namespace CAddrMan

variable {am : CAddrMan}

/-- The place that turn `i` of a shuffle of `n` elements draws from. -/
def drawPos (rnd : Nat → Nat) (n i : Nat) : Nat := GetRandInt (rnd i) (n - i) + i

theorem draws_drawPos (rnd : Nat → Nat) (n : Nat) : Positions.Draws (drawPos rnd n) n := by
  intro i hi
  have hlt := GetRandInt_lt (rnd i) (Nat.sub_pos_of_lt hi)
  unfold drawPos
  omega

/-! ## `SelectTried` -/

/-- How many entries of a bucket of `n` are inspected. -/
def inspectCount (n : Nat) : Nat := min ADDRMAN_TRIED_ENTRIES_INSPECT_ON_EVICT n

/-- The entry that turn `i` of `SelectTried` inspects. -/
def inspected (rnd : Nat → Nat) (vTried : List Int) (i : Nat) : Option Int :=
  Positions.drawn (drawPos rnd vTried.length) vTried i

/-- When the last success of an entry was. -/
def lastSuccess (am : CAddrMan) (nId : Option Int) : Int64 :=
  (nId.bind fun nId => am.mapInfo[nId]?).elim 0 fun info => info.nLastSuccess

theorem lastSuccess_of_some {nId : Int} {info : CAddrInfo} (h : am.mapInfo[nId]? = some info) :
    am.lastSuccess (some nId) = info.nLastSuccess := by
  unfold lastSuccess
  rw [Option.bind_some, h, Option.elim_some]

/-- The turn that inspects the oldest entry, up to turn `n`: the first, if several are as old. -/
def oldestTurn (am : CAddrMan) (rnd : Nat → Nat) (vTried : List Int) (n : Nat) : Nat :=
  Positions.firstLeast (fun i => am.lastSuccess (inspected rnd vTried i)) n

section Loop

variable {vTried : List Int} (rnd : Nat → Nat)

/-- A turn inside the bucket has an entry to inspect. -/
theorem inspected_eq_some {i : Nat} (hi : i < vTried.length) :
    ∃ nId ∈ vTried, inspected rnd vTried i = some nId := by
  have hperm := Positions.shuffle_perm (drawPos rnd vTried.length) vTried i
  have hpos : drawPos rnd vTried.length i <
      (Positions.shuffle (drawPos rnd vTried.length) vTried i).length := by
    rw [Positions.length_shuffle]
    exact (draws_drawPos rnd vTried.length i hi).2
  exact ⟨_, hperm.mem_iff.1 (List.getElem_mem hpos), List.getElem?_eq_getElem hpos⟩

/-- The exchange of a turn is a turn of the shuffle. -/
theorem set_set_eq_shuffle {i : Nat} {nTemp vi : Int}
    (hTemp : inspected rnd vTried i = some nTemp)
    (hvi : (Positions.shuffle (drawPos rnd vTried.length) vTried i)[i]? = some vi) :
    ((Positions.shuffle (drawPos rnd vTried.length) vTried i).set
        (drawPos rnd vTried.length i) vi).set i nTemp =
      Positions.shuffle (drawPos rnd vTried.length) vTried (i + 1) :=
  (Positions.exchange_comm hvi hTemp).trans (Positions.swap_eq hvi hTemp).symm

/-- A turn of the loop behind the first one. -/
theorem SelectTriedLoop_turn {i : Nat} (hlt : i < vTried.length) {nTemp nOldest nOldestPos : Int}
    {info infoOldest : CAddrInfo} (hTemp : inspected rnd vTried i = some nTemp)
    (hinfo : am.mapInfo[nTemp]? = some info) (hneg : 0 ≤ nOldest)
    (hold : am.mapInfo[nOldest]? = some infoOldest) (todo : Nat) :
    am.SelectTriedLoop rnd (todo + 1) i (Positions.shuffle (drawPos rnd vTried.length) vTried i)
        nOldest nOldestPos =
      if info.nLastSuccess < infoOldest.nLastSuccess then
        am.SelectTriedLoop rnd todo (i + 1)
          (Positions.shuffle (drawPos rnd vTried.length) vTried (i + 1)) nTemp
          (drawPos rnd vTried.length i)
      else
        am.SelectTriedLoop rnd todo (i + 1)
          (Positions.shuffle (drawPos rnd vTried.length) vTried (i + 1)) nOldest nOldestPos := by
  obtain ⟨vi, hvi⟩ : ∃ vi, (Positions.shuffle (drawPos rnd vTried.length) vTried i)[i]? = some vi :=
    ⟨_, List.getElem?_eq_getElem (by rwa [Positions.length_shuffle])⟩
  rw [SelectTriedLoop, Positions.length_shuffle, if_pos hlt]
  dsimp only
  rw [show GetRandInt (rnd i) (vTried.length - i) + i = drawPos rnd vTried.length i from rfl,
    readAt_of_getElem? hTemp, readAt_of_getElem? hvi]
  dsimp only [bind, Except.bind]
  rw [set_set_eq_shuffle rnd hTemp hvi, if_neg (by omega), getInfo_of_getElem? hinfo,
    getInfo_of_getElem? hold]

/-- The loop from turn `i + 1` on: it goes on to shuffle, and returns the position that the
oldest entry was drawn from. -/
theorem SelectTriedLoop_eq
    (hv : ∀ nId ∈ vTried, 0 ≤ nId ∧ ∃ info, am.mapInfo[nId]? = some info) (todo : Nat) {i : Nat}
    (hi : i < vTried.length) {nOldest : Int}
    (ho : inspected rnd vTried (am.oldestTurn rnd vTried i) = some nOldest) :
    am.SelectTriedLoop rnd todo (i + 1)
        (Positions.shuffle (drawPos rnd vTried.length) vTried (i + 1)) nOldest
        (drawPos rnd vTried.length (am.oldestTurn rnd vTried i)) =
      .ok (Positions.shuffle (drawPos rnd vTried.length) vTried (min (i + todo + 1) vTried.length),
        drawPos rnd vTried.length
          (am.oldestTurn rnd vTried (min (i + todo) (vTried.length - 1)))) := by
  have hknown : ∀ {j : Nat} {nId : Int}, j < vTried.length → inspected rnd vTried j = some nId →
      0 ≤ nId ∧ ∃ info, am.mapInfo[nId]? = some info := by
    intro j nId hj h
    obtain ⟨nId', hmem, h'⟩ := inspected_eq_some rnd hj
    obtain rfl := Option.some.inj (h.symm.trans h')
    exact hv nId hmem
  induction todo generalizing i nOldest with
  | zero =>
    unfold SelectTriedLoop
    rw [Nat.add_zero, Nat.min_eq_left (show i + 1 ≤ vTried.length from hi),
      Nat.min_eq_left (by omega)]
    rfl
  | succ todo ih =>
    by_cases hlt : i + 1 < vTried.length
    swap
    · unfold SelectTriedLoop
      rw [Positions.length_shuffle, if_neg hlt, Nat.min_eq_right (by omega),
        Nat.min_eq_right (by omega)]
      obtain rfl : i = vTried.length - 1 := by omega
      rw [Nat.sub_add_cancel (by omega)]
    · obtain ⟨nTemp, -, hTemp⟩ := inspected_eq_some rnd hlt
      obtain ⟨-, info, hinfo⟩ := hknown hlt hTemp
      obtain ⟨hneg, infoOldest, hold⟩ := hknown
        ((Positions.firstLeast_le _ _).trans_lt hi) ho
      have hturn : am.oldestTurn rnd vTried (i + 1) =
          if info.nLastSuccess < infoOldest.nLastSuccess then i + 1
          else am.oldestTurn rnd vTried i := by
        unfold oldestTurn at ho ⊢
        rw [Positions.firstLeast, hTemp, ho, lastSuccess_of_some hinfo, lastSuccess_of_some hold]
      rw [SelectTriedLoop_turn rnd hlt hTemp hinfo hneg hold,
        show i + (todo + 1) = i + 1 + todo from by omega]
      by_cases hless : info.nLastSuccess < infoOldest.nLastSuccess
      · rw [if_pos hless] at hturn ⊢
        rw [← ih hlt (hturn ▸ hTemp), hturn]
      · rw [if_neg hless] at hturn ⊢
        rw [← ih hlt (hturn ▸ ho), hturn]

/-- What `SelectTried` does: the bucket is shuffled, and the position that the oldest of the
inspected entries was drawn from is returned. -/
theorem SelectTried_eq {t : Fin ADDRMAN_TRIED_BUCKET_COUNT} (rnd : Nat → Nat)
    (hv : ∀ nId ∈ am.vvTried t, 0 ≤ nId ∧ ∃ info, am.mapInfo[nId]? = some info)
    (hne : am.vvTried t ≠ []) :
    am.SelectTried t rnd =
      .ok (am.setTried t (Positions.shuffle (drawPos rnd (am.vvTried t).length) (am.vvTried t)
          (inspectCount (am.vvTried t).length)),
        drawPos rnd (am.vvTried t).length
          (am.oldestTurn rnd (am.vvTried t) (inspectCount (am.vvTried t).length - 1))) := by
  set vTried := am.vvTried t
  have hlen : 0 < vTried.length := List.length_pos_iff.2 hne
  obtain ⟨nTemp, -, hTemp⟩ := inspected_eq_some rnd hlen
  have hloop := SelectTriedLoop_eq rnd hv 3 hlen hTemp
  have hturns : min (0 + 3 + 1) vTried.length = inspectCount vTried.length := rfl
  have hlast : min (0 + 3) (vTried.length - 1) = inspectCount vTried.length - 1 := by
    unfold inspectCount ADDRMAN_TRIED_ENTRIES_INSPECT_ON_EVICT
    omega
  rw [hturns, hlast] at hloop
  have hTemp' : vTried[drawPos rnd vTried.length 0]? = some nTemp := hTemp
  have hfirst : am.SelectTriedLoop rnd ADDRMAN_TRIED_ENTRIES_INSPECT_ON_EVICT 0 vTried (-1) (-1) =
      am.SelectTriedLoop rnd 3 1 (Positions.shuffle (drawPos rnd vTried.length) vTried 1) nTemp
        (drawPos rnd vTried.length 0) := by
    rw [SelectTriedLoop, if_pos hlen]
    dsimp only
    rw [show GetRandInt (rnd 0) (vTried.length - 0) + 0 = drawPos rnd vTried.length 0 from rfl,
      readAt_of_getElem? hTemp', readAt_of_getElem? (List.getElem?_eq_getElem hlen)]
    dsimp only [bind, Except.bind]
    rw [if_pos rfl, ← set_set_eq_shuffle rnd hTemp (List.getElem?_eq_getElem hlen)]
    rfl
  unfold SelectTried
  rw [hfirst]
  exact congrArg (· >>= fun r => .ok (am.setTried t r.1, r.2)) hloop

/-- The position holds an entry that was inspected, and none that was has an earlier success. -/
def HoldsOldest (am : CAddrMan) (rnd : Nat → Nat) (vTried vTried' : List Int) (nPos : Int) :
    Prop :=
  ∃ i < inspectCount vTried.length, ∃ nId, inspected rnd vTried i = some nId ∧
    0 ≤ nPos ∧ vTried'[nPos.toNat]? = some nId ∧
    ∀ j < inspectCount vTried.length,
      am.lastSuccess (some nId) ≤ am.lastSuccess (inspected rnd vTried j)

/-- The oldest of the entries that are drawn is drawn from a place where an entry as old is put: its
own, or that of a later turn. -/
def OldestDrawnInFront (am : CAddrMan) (rnd : Nat → Nat) (vTried : List Int) : Prop :=
  let i := am.oldestTurn rnd vTried (inspectCount vTried.length - 1)
  drawPos rnd vTried.length i < inspectCount vTried.length ∧
    am.lastSuccess (inspected rnd vTried (drawPos rnd vTried.length i)) ≤
      am.lastSuccess (inspected rnd vTried i)

/-- **When `SelectTried` returns the position of the oldest entry it has inspected.** -/
theorem SelectTried_oldest_iff {t : Fin ADDRMAN_TRIED_BUCKET_COUNT}
    (hv : ∀ nId ∈ am.vvTried t, 0 ≤ nId ∧ ∃ info, am.mapInfo[nId]? = some info)
    (hnodup : (am.vvTried t).Nodup) (hne : am.vvTried t ≠ []) (rnd : Nat → Nat) :
    ∃ vTried' nPos, am.SelectTried t rnd = .ok (am.setTried t vTried', nPos) ∧
      ((vTried'.Perm (am.vvTried t) ∧ am.HoldsOldest rnd (am.vvTried t) vTried' nPos) ↔
        am.OldestDrawnInFront rnd (am.vvTried t)) := by
  refine ⟨_, _, SelectTried_eq rnd hv hne, ?_⟩
  set vTried := am.vvTried t
  set draw := drawPos rnd vTried.length
  have hdraws : Positions.Draws draw vTried.length := draws_drawPos rnd vTried.length
  have hlen : 0 < vTried.length := List.length_pos_iff.2 hne
  have hcount : 0 < inspectCount vTried.length := by
    unfold inspectCount ADDRMAN_TRIED_ENTRIES_INSPECT_ON_EVICT
    omega
  have hcountLe : inspectCount vTried.length ≤ vTried.length := Nat.min_le_right _ _
  have hperm := Positions.shuffle_perm draw vTried (inspectCount vTried.length)
  have hfront : ∀ {j}, j < inspectCount vTried.length →
      (Positions.shuffle draw vTried (inspectCount vTried.length))[j]? = inspected rnd vTried j :=
    Positions.getElem?_shuffle hdraws hcountLe
  unfold OldestDrawnInFront
  set i := am.oldestTurn rnd vTried (inspectCount vTried.length - 1) with hi
  have hiLt : i < inspectCount vTried.length := by
    have := Positions.firstLeast_le
      (fun i => am.lastSuccess (inspected rnd vTried i)) (inspectCount vTried.length - 1)
    change i ≤ _ at this
    omega
  have hleast : ∀ j < inspectCount vTried.length,
      am.lastSuccess (inspected rnd vTried i) ≤ am.lastSuccess (inspected rnd vTried j) :=
    fun j hj => Positions.firstLeast_least (fun i => am.lastSuccess (inspected rnd vTried i))
      (by omega)
  constructor
  · rintro ⟨-, j, hj, nId, hnId, -, hat, hmin⟩
    rw [Int.toNat_natCast] at hat
    -- the entry inspected in turn `j` is in front, at `j`, and nowhere else
    have hsame : draw i = j := by
      have hj' := (hfront hj).trans hnId
      obtain ⟨hlt, hge⟩ := List.getElem?_eq_some_iff.1 hat
      obtain ⟨hlt', hge'⟩ := List.getElem?_eq_some_iff.1 hj'
      exact (List.Nodup.getElem_inj_iff (hperm.nodup_iff.2 hnodup)).1 (hge.trans hge'.symm)
    rw [← hsame] at hj hnId
    refine ⟨hj, ?_⟩
    rw [hnId]
    exact hmin i hiLt
  · rintro ⟨hlt, hle⟩
    obtain ⟨nId, -, hnId⟩ := inspected_eq_some rnd (hlt.trans_le hcountLe)
    refine ⟨hperm, draw i, hlt, nId, hnId, Int.natCast_nonneg _, ?_, fun j hj => ?_⟩
    · rw [Int.toNat_natCast]
      exact (hfront hlt).trans hnId
    · rw [← hnId]
      exact Int64.le_trans hle (hleast j hj)

end Loop

section Runs

/-- An entry of the tried table, with the `k`-th of a row of addresses. -/
def triedEntryAt (k : Nat) (nLastSuccess : Int64) : CAddrInfo :=
  { CAddrInfo.ofAddress { peer with ip := (CNetAddr.ofIPv4 8 8 8 (.ofNat k)).ip }
      peer.toCNetAddr with
    nLastSuccess
    fInTried := true
    nRandomPos := k }

/-- A manager with the ids `0` to `n - 1`, all in the first tried bucket. -/
def oneTriedBucket (n : Nat) (nLastSuccess : Nat → Int64) : CAddrMan :=
  { CAddrMan.empty [] with
    nIdCount := n
    mapInfo := ExtTreeMap.ofList
      ((List.range n).map fun k : Nat => ((k : Int), triedEntryAt k (nLastSuccess k))) compare
    mapAddr := fun a => ((List.range n).find? fun k =>
      decide ((triedEntryAt k 0).toCNetAddr = a)).map fun k => (k : Int)
    vRandom := (List.range n).map fun k : Nat => (k : Int)
    nTried := n
    vvTried := fun t => if t = 0 then (List.range n).map fun k : Nat => (k : Int) else [] }

/-- A full bucket whose last entry is the oldest. -/
def lastOldest : CAddrMan :=
  oneTriedBucket ADDRMAN_TRIED_BUCKET_SIZE fun k => if k = 63 then 1400000000 else 1400000001

theorem lastOldest_known : ∀ nId ∈ lastOldest.vvTried 0,
    0 ≤ nId ∧ ∃ info, lastOldest.mapInfo[nId]? = some info := by
  have hall : ∀ nId ∈ lastOldest.vvTried 0, 0 ≤ nId ∧ lastOldest.mapInfo[nId]?.isSome := by
    decide +kernel
  exact fun nId h => ⟨(hall nId h).1, Option.isSome_iff_exists.1 (hall nId h).2⟩

theorem SelectTried_oldest_iff_lastOldest :
    ∃ vTried' nPos, lastOldest.SelectTried 0 (fun _ => 0) =
        .ok (lastOldest.setTried 0 vTried', nPos) ∧
      ((vTried'.Perm (lastOldest.vvTried 0) ∧
          lastOldest.HoldsOldest (fun _ => 0) (lastOldest.vvTried 0) vTried' nPos) ↔
        lastOldest.OldestDrawnInFront (fun _ => 0) (lastOldest.vvTried 0)) :=
  SelectTried_oldest_iff lastOldest_known (by decide +kernel) (by decide +kernel) fun _ => 0

/-- The first draw is the last entry, which is the oldest. The position returned is the one it was
drawn from, where the entry that was first is now. -/
theorem SelectTried_returnsNewer :
    ∃ vTried' nPos, lastOldest.SelectTried 0 (fun _ => 63) =
        .ok (lastOldest.setTried 0 vTried', nPos) ∧
      ¬lastOldest.HoldsOldest (fun _ => 63) (lastOldest.vvTried 0) vTried' nPos := by
  refine ⟨_, _, SelectTried_eq (fun _ => 63) lastOldest_known (by decide +kernel), ?_⟩
  rintro ⟨-, -, nId, -, -, hat, hmin⟩
  have h := hmin 0 (by decide +kernel)
  rw [← hat] at h
  exact absurd h (by decide +kernel)

end Runs

/-! ## `GetAddr_` -/

/-- Another order of `vRandom`, and every entry with its position there; the rest is the same. -/
structure Reordered (am am' : CAddrMan) : Prop where
  perm : am'.vRandom.Perm am.vRandom
  entry : ∀ nId : Int, am'.mapInfo[nId]? = (am.mapInfo[nId]?).map fun info =>
    { info with nRandomPos := am'.vRandom.idxOf nId }
  others : am' = { am with mapInfo := am'.mapInfo, vRandom := am'.vRandom }

/-- The address of the entry that turn `i` of a shuffle of `v` draws. -/
def DrawnAddress (am : CAddrMan) (rnd : Nat → Nat) (v : List Int) (i : Nat) (a : CAddress) :
    Prop :=
  ∃ nId info, Positions.drawn (drawPos rnd v.length) v i = some nId ∧
    am.mapInfo[nId]? = some info ∧ info.toCAddress = a

/-- Positions that are moved and moved again. -/
theorem Moved.trans {m₁ m₂ m₃ : ExtTreeMap Int CAddrInfo compare} {f g : Int → Int → Int}
    (h : Moved m₁ m₂ f) (h' : Moved m₂ m₃ g) : Moved m₁ m₃ fun k n => g k (f k n) := by
  intro k
  rw [h' k, h k, Option.map_map]
  rfl

theorem Moved.drawnAddress {m : ExtTreeMap Int CAddrInfo compare} {f : Int → Int → Int}
    (h : Moved am.mapInfo m f) {v' : List Int} {rnd : Nat → Nat} {v : List Int} {i : Nat}
    {a : CAddress} :
    ({ am with mapInfo := m, vRandom := v' } : CAddrMan).DrawnAddress rnd v i a ↔
      am.DrawnAddress rnd v i a := by
  constructor
  · rintro ⟨nId, info, hdrawn, hi, rfl⟩
    dsimp only at hi
    rw [h nId] at hi
    obtain ⟨info₀, hi₀, rfl⟩ := Option.map_eq_some_iff.1 hi
    exact ⟨nId, info₀, hdrawn, hi₀, rfl⟩
  · rintro ⟨nId, info, hdrawn, hi, rfl⟩
    exact ⟨nId, _, hdrawn, (h nId).trans (congrArg _ hi), rfl⟩

/-- A turn of `GetAddr_` is a turn of the shuffle, and what it draws is known. -/
theorem SwapRandom_turn (rnd : Nat → Nat) (v : List Int) {n : Nat} (h : am.Positioned)
    (hv : am.vRandom = Positions.shuffle (drawPos rnd v.length) v n) (hn : n < v.length) :
    ∃ nId info m f, Positions.drawn (drawPos rnd v.length) v n = some nId ∧
      am.mapInfo[nId]? = some info ∧
      am.SwapRandom n (drawPos rnd v.length n) = .ok { am with
        mapInfo := m
        vRandom := Positions.shuffle (drawPos rnd v.length) v (n + 1) } ∧
      Moved am.mapInfo m f ∧
      ({ am with
        mapInfo := m
        vRandom := Positions.shuffle (drawPos rnd v.length) v (n + 1) } : CAddrMan).Positioned := by
  have hlen : am.vRandom.length = v.length := by rw [hv, Positions.length_shuffle]
  obtain ⟨-, hpos⟩ := draws_drawPos rnd v.length n hn
  have hx : am.vRandom[n]? = some am.vRandom[n] := List.getElem?_eq_getElem (by omega)
  obtain ⟨nId, hy⟩ : ∃ nId, am.vRandom[drawPos rnd v.length n]? = some nId :=
    ⟨_, List.getElem?_eq_getElem (by omega)⟩
  have hdrawn : Positions.drawn (drawPos rnd v.length) v n = some nId := by
    rw [← hy, hv]
    rfl
  have hshuffle : Positions.exchange am.vRandom n (drawPos rnd v.length n) am.vRandom[n] nId =
      Positions.shuffle (drawPos rnd v.length) v (n + 1) := by
    rw [← Positions.swap_eq hx hy, hv]
    rfl
  obtain ⟨info, hinfo⟩ := h.known (List.mem_of_getElem? hy)
  obtain ⟨m, hswap, hm⟩ := SwapRandom_spec h hx hy
  have hpositioned := h.exchange hx hy hm
  rw [hshuffle] at hswap hpositioned
  exact ⟨nId, info, m, _, hdrawn, hinfo, hswap, hm, hpositioned⟩

/-- The loop of `GetAddr_` from turn `n` on shuffles, and returns the addresses of what it draws. -/
theorem GetAddrLoop_eq (rnd : Nat → Nat) (v : List Int) (todo n : Nat) {am : CAddrMan}
    (h : am.Positioned) (hv : am.vRandom = Positions.shuffle (drawPos rnd v.length) v n)
    (hle : n + todo ≤ v.length) (vAddr : List CAddress) :
    ∃ m f addrs, GetAddrLoop rnd todo n am vAddr = .ok ({ am with
          mapInfo := m
          vRandom := Positions.shuffle (drawPos rnd v.length) v (n + todo) }, vAddr ++ addrs) ∧
      Moved am.mapInfo m f ∧
      ({ am with
        mapInfo := m
        vRandom := Positions.shuffle (drawPos rnd v.length) v (n + todo) } : CAddrMan).Positioned ∧
      List.Forall₂ (am.DrawnAddress rnd v) (List.range' n todo) addrs := by
  induction todo generalizing n am vAddr with
  | zero =>
    refine ⟨am.mapInfo, fun _ n => n, [], ?_, fun k => ?_, ?_, .nil⟩
    · rw [List.append_nil, Nat.add_zero, ← hv]
      rfl
    · exact Option.map_id'.symm
    · rw [Nat.add_zero, ← hv]
      exact h
  | succ todo ih =>
    have hlen : am.vRandom.length = v.length := by rw [hv, Positions.length_shuffle]
    obtain ⟨nId, info, m₁, f₁, hdrawn, hinfo, hswap, hm₁, hpositioned⟩ :=
      SwapRandom_turn rnd v h hv (by omega)
    have hat : (Positions.shuffle (drawPos rnd v.length) v (n + 1))[n]? = some nId := by
      rw [Positions.getElem?_shuffle (draws_drawPos rnd v.length) (by omega) (Nat.lt_succ_self n),
        hdrawn]
    obtain ⟨m, f, addrs, hrun, hm, hp, haddrs⟩ := ih (n + 1) hpositioned rfl (by omega)
      (vAddr ++ [info.toCAddress])
    rw [show n + 1 + todo = n + (todo + 1) from by omega] at hrun hp
    refine ⟨m, _, info.toCAddress :: addrs, ?_, hm₁.trans hm, hp, ?_⟩
    · unfold GetAddrLoop
      dsimp only
      rw [hlen, show GetRandInt (rnd n) (v.length - n) + n = drawPos rnd v.length n from rfl, hswap]
      dsimp only [bind, Except.bind]
      rw [readAt_of_getElem? hat]
      dsimp only
      rw [getInfo_of_getElem? ((hm₁ nId).trans (congrArg _ hinfo))]
      dsimp only [Option.map_some]
      rw [hrun, List.append_assoc]
      rfl
    · rw [List.range'_succ]
      refine .cons ⟨nId, info, hdrawn, hinfo, rfl⟩ (haddrs.imp fun i a hia => ?_)
      exact hm₁.drawnAddress.1 hia

/-- Entries moved within a state that lists the ids once have their places as positions. -/
theorem Positioned.reordered {m : ExtTreeMap Int CAddrInfo compare} {f : Int → Int → Int}
    {v : List Int} (hm : Moved am.mapInfo m f) (hperm : v.Perm am.vRandom)
    (h : ({ am with mapInfo := m, vRandom := v } : CAddrMan).Positioned) :
    am.Reordered { am with mapInfo := m, vRandom := v } where
  perm := hperm
  entry := by
    intro nId
    dsimp only
    cases hi : am.mapInfo[nId]? with
    | none => rw [hm nId, hi]; rfl
    | some info =>
      have hi' : m[nId]? = some { info with nRandomPos := f nId info.nRandomPos } := by
        rw [hm nId, hi]
        rfl
      have hmem : nId ∈ v := List.mem_of_getElem? (h.pos hi').2
      have hidx : v[v.idxOf nId]? = some nId := List.getElem?_idxOf hmem
      have hpos : f nId info.nRandomPos = v.idxOf nId := h.pos_eq hi' hidx
      rw [hi', hpos]
      rfl
  others := rfl

/-- Different turns draw different entries. -/
theorem drawn_inj {rnd : Nat → Nat} {v : List Int} (hv : v.Nodup) {i j : Nat} {nId : Int}
    (hi : i < v.length) (hj : j < v.length)
    (hdi : Positions.drawn (drawPos rnd v.length) v i = some nId)
    (hdj : Positions.drawn (drawPos rnd v.length) v j = some nId) : i = j := by
  have hdraws := draws_drawPos rnd v.length
  have hnodup := (Positions.shuffle_perm (drawPos rnd v.length) v v.length).nodup_iff.2 hv
  have hati := (Positions.getElem?_shuffle hdraws le_rfl hi).trans hdi
  have hatj := (Positions.getElem?_shuffle hdraws le_rfl hj).trans hdj
  obtain ⟨hlti, hgei⟩ := List.getElem?_eq_some_iff.1 hati
  obtain ⟨hltj, hgej⟩ := List.getElem?_eq_some_iff.1 hatj
  exact (List.Nodup.getElem_inj_iff hnodup).1 (hgei.trans hgej.symm)

/-- **What `GetAddr_` returns.** -/
theorem GetAddr_returns (h : am.Check_ = 0) (rnd : Nat → Nat) :
    ∃ am' vAddr, am.GetAddr_ rnd = .ok (am', vAddr) ∧
      vAddr.length = min 2500 (23 * am.mapInfo.size / 100) ∧
      (vAddr.map fun a => a.toCNetAddr).Nodup ∧
      (∀ a ∈ vAddr, ∃ (nId : Int) (info : CAddrInfo), am.mapInfo[nId]? = some info ∧
        info.toCAddress = a) ∧
      am.Reordered am' := by
  have hcheck := Check_eq_zero_iff.1 h
  have hlen := hcheck.length_vRandom
  set nNodes := min 2500 (23 * am.mapInfo.size / 100) with hnNodes
  have hle : 0 + nNodes ≤ am.vRandom.length := by omega
  obtain ⟨m, f, addrs, hrun, hm, hpositioned, haddrs⟩ := GetAddrLoop_eq rnd am.vRandom nNodes 0
    hcheck.positioned rfl hle []
  have hcount : addrs.length = nNodes := by
    rw [← haddrs.length_eq, List.length_range']
  have hdrawn : ∀ {i : Nat} (hi : i < addrs.length), am.DrawnAddress rnd am.vRandom i addrs[i] := by
    intro i hi
    have hget := haddrs.get (i := i) (by rw [List.length_range']; omega) hi
    simpa using hget
  refine ⟨_, addrs, ?_, hcount, ?_, ?_,
    hpositioned.reordered hm (Positions.shuffle_perm _ _ _)⟩
  · have hnodes : (if ADDRMAN_GETADDR_MAX < ADDRMAN_GETADDR_MAX_PCT * am.vRandom.length / 100 then
        ADDRMAN_GETADDR_MAX else ADDRMAN_GETADDR_MAX_PCT * am.vRandom.length / 100) = nNodes := by
      rw [hlen]
      simp only [ADDRMAN_GETADDR_MAX, ADDRMAN_GETADDR_MAX_PCT]
      split_ifs <;> omega
    unfold GetAddr_
    dsimp only
    rw [hnodes]
    exact hrun
  · rw [List.nodup_iff_pairwise_ne, List.pairwise_iff_getElem]
    intro i j hi hj hij heq
    rw [List.length_map] at hi hj
    rw [List.getElem_map, List.getElem_map] at heq
    obtain ⟨nId, info, hdi, hinfo, hai⟩ := hdrawn hi
    obtain ⟨nId', info', hdj, hinfo', haj⟩ := hdrawn hj
    rw [← hai, ← haj] at heq
    obtain rfl := hcheck.addr_inj hinfo hinfo' heq
    have := drawn_inj hcheck.positioned.nodup (by omega) (by omega) hdi hdj
    omega
  · intro a ha
    obtain ⟨i, hi, rfl⟩ := List.getElem_of_mem ha
    obtain ⟨nId, info, -, hinfo, haddr⟩ := hdrawn hi
    exact ⟨nId, info, hinfo, haddr⟩

/-- Ten known addresses. -/
def tenTried : CAddrMan := oneTriedBucket 10 fun _ => 1400000000

theorem GetAddr_returns_tenTried :
    ∃ am' vAddr, tenTried.GetAddr_ (fun _ => 7) = .ok (am', vAddr) ∧
      vAddr.length = min 2500 (23 * tenTried.mapInfo.size / 100) ∧
      (vAddr.map fun a => a.toCNetAddr).Nodup ∧
      (∀ a ∈ vAddr, ∃ (nId : Int) (info : CAddrInfo), tenTried.mapInfo[nId]? = some info ∧
        info.toCAddress = a) ∧
      tenTried.Reordered am' :=
  GetAddr_returns (by decide +kernel) fun _ => 7

end CAddrMan

end TriTip
