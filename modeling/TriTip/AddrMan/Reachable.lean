import TriTip.AddrMan.NewBuckets
import TriTip.AddrMan.TriedBuckets
import TriTip.AddrMan.Check
import TriTip.Lib.Run

/-!
# The address manager: every reachable state

The remaining operations keep the tables an address book: `Attempt_` and `Connected_` write times,
`GetAddr_` exchanges positions of `vRandom`, `Select_` only reads. With the step lemmas for `Add_`
and `Good_` this gives the run lemma (`run_spec`): from the empty manager no run of operations
fails, and each of them is steps of the book.
-/

namespace TriTip

open Std

namespace CAddrMan

variable {am : CAddrMan} {strict : Prop} {book : AddrBook}

/-! ## `Attempt_` and `Connected_` -/

theorem Attempt_spec (h : am.Inv strict book none) (addr : CService) {nTime : Int64}
    (hpos : strict → 0 ≤ nTime) : (am.Attempt_ addr nTime).Inv strict book none := by
  unfold Attempt_
  split
  · exact h
  · next nId info hf =>
    obtain ⟨hi, -⟩ := h.indexed.find_some hf
    have ht := h.times hi
    split
    · exact h
    · exact h.setInfo hi rfl rfl rfl ⟨ht.lastSuccess, ht.tried, hpos⟩

theorem Connected_spec (h : am.Inv strict book none) (addr : CService) (nTime : Int64) :
    (am.Connected_ addr nTime).Inv strict book none := by
  unfold Connected_
  split
  · exact h
  · next nId info hf =>
    obtain ⟨hi, -⟩ := h.indexed.find_some hf
    have ht := h.times hi
    split_ifs
    · exact h
    · exact h.setInfo hi rfl rfl rfl ⟨ht.lastSuccess, ht.tried, ht.lastTry⟩
    · exact h

/-! ## `Select_` -/

/-- The loop over buckets of known ids does not fail. -/
theorem SelectNode_ok {bucket : Nat → List Int}
    (hv : ∀ r, ∀ k ∈ bucket r, ∃ info, am.mapInfo[k]? = some info) (rounds : List SelectRound) :
    ∃ r, am.SelectNode bucket rounds = .ok r := by
  induction rounds with
  | nil => exact ⟨none, rfl⟩
  | cons r rest ih =>
    obtain ⟨r', hr'⟩ := ih
    unfold SelectNode
    by_cases hne : (bucket r.nBucket).length = 0
    · exact ⟨r', by rw [if_pos hne, hr']⟩
    · have hlt := GetRandInt_lt r.nPos (Nat.pos_of_ne_zero hne)
      obtain ⟨info, hi⟩ := hv r.nBucket _ (List.getElem_mem hlt)
      rw [if_neg hne, readAt_of_getElem? (List.getElem?_eq_getElem hlt)]
      dsimp only [bind, Except.bind]
      rw [getInfo_of_getElem? hi]
      dsimp only
      split_ifs
      · exact ⟨some info, rfl⟩
      · exact ⟨r', hr'⟩

theorem Select_ok (htried : ∀ {k : Int} {t}, k ∈ am.vvTried t → ∃ info, am.mapInfo[k]? = some info)
    (hnew : ∀ {k : Int} {b}, k ∈ am.vvNew b → ∃ info, am.mapInfo[k]? = some info)
    (fUseTried : Bool) (rounds : List SelectRound) :
    ∃ r, am.Select_ fUseTried rounds = .ok r := by
  unfold Select_
  split_ifs
  · exact ⟨_, rfl⟩
  · obtain ⟨r, hr⟩ := SelectNode_ok (fun r k hk => htried hk) rounds
    exact ⟨_, by rw [hr]; rfl⟩
  · obtain ⟨r, hr⟩ := SelectNode_ok (fun r k hk => hnew (ExtTreeSet.mem_toList.1 hk)) rounds
    exact ⟨_, by rw [hr]; rfl⟩

/-! ## `GetAddr_` -/

/-- An exchange in `vRandom` keeps the invariant. -/
theorem Inv.exchange (h : am.Inv strict book none) {i j : Nat} {x y : Int}
    (hx : am.vRandom[i]? = some x) (hy : am.vRandom[j]? = some y)
    {m : ExtTreeMap Int CAddrInfo compare}
    (hm : Moved am.mapInfo m fun k n => if k = y then i else if k = x then j else n) :
    ({ am with
        mapInfo := m, vRandom := Positions.exchange am.vRandom i j x y } : CAddrMan).Inv strict
      book none where
  indexed := by
    obtain ⟨hnodup, hknown, hpos⟩ := h.indexed.positioned.exchange hx hy hm
    refine ⟨hnodup, hknown, hpos, ?_⟩
    · intro a k
      dsimp only
      rw [h.indexed.addr, hm k]
      constructor
      · rintro ⟨info, hi, rfl⟩
        exact ⟨_, congrArg _ hi, rfl⟩
      · rintro ⟨info, hi, rfl⟩
        obtain ⟨info₀, hi₀, rfl⟩ := Option.map_eq_some_iff.1 hi
        exact ⟨info₀, hi₀, rfl⟩
  holds := by
    refine ⟨fun k => ?_, h.holds.tried_mem, h.holds.tried_nodup, h.holds.new_mem⟩
    dsimp only
    rw [hm k, Option.map_map, ← h.holds.entry k]
    rfl
  ids := by
    intro k info hk
    dsimp only at hk
    rw [hm k] at hk
    obtain ⟨info₀, hi, -⟩ := Option.map_eq_some_iff.1 hk
    exact h.ids hi
  idCount := h.idCount
  nNew_eq := by
    rw [hm.count_eq fun _ _ => rfl]
    exact h.nNew_eq
  nTried_eq := by
    rw [hm.count_eq fun _ _ => rfl]
    exact h.nTried_eq
  times := by
    intro k info hk
    dsimp only at hk
    rw [hm k] at hk
    obtain ⟨info₀, hi, rfl⟩ := Option.map_eq_some_iff.1 hk
    have ht := h.times hi
    exact ⟨ht.lastSuccess, ht.tried, ht.lastTry⟩
  new_size := h.new_size
  tried_size := h.tried_size

/-- The loop of `GetAddr_` inside `vRandom` does not fail. -/
theorem GetAddrLoop_spec (rnd : Nat → Nat) (todo n : Nat) {am : CAddrMan}
    (h : am.Inv strict book none) (hle : n + todo ≤ am.vRandom.length) (vAddr : List CAddress) :
    ∃ am' v, GetAddrLoop rnd todo n am vAddr = .ok (am', v) ∧ am'.Inv strict book none ∧
      am'.nKey = am.nKey := by
  induction todo generalizing n am vAddr with
  | zero => exact ⟨am, vAddr, rfl, h, rfl⟩
  | succ todo ih =>
    have hn : n < am.vRandom.length := by omega
    have hpos := GetRandInt_lt (rnd n) (Nat.sub_pos_of_lt hn)
    have hx : am.vRandom[n]? = some am.vRandom[n] := List.getElem?_eq_getElem hn
    obtain ⟨y, hy⟩ : ∃ y, am.vRandom[GetRandInt (rnd n) (am.vRandom.length - n) + n]? = some y :=
      ⟨_, List.getElem?_eq_getElem (by omega)⟩
    obtain ⟨m, hswap, hm⟩ := SwapRandom_spec h.indexed.positioned hx hy
    have hinv := h.exchange hx hy hm
    -- the id now at position `n` is known
    have hn' : n < (Positions.exchange am.vRandom n (GetRandInt (rnd n) (am.vRandom.length - n) + n)
        am.vRandom[n] y).length := by rwa [Positions.length_exchange]
    have hat := List.getElem?_eq_getElem hn'
    obtain ⟨info, hi⟩ := hinv.indexed.known (List.getElem_mem hn')
    obtain ⟨am', v, hrun, hinv', hkey⟩ := ih (n + 1) hinv (by
      dsimp only
      rw [Positions.length_exchange]
      omega) (vAddr ++ [info.toCAddress])
    refine ⟨am', v, ?_, hinv', hkey⟩
    unfold GetAddrLoop
    dsimp only
    rw [hswap]
    dsimp only [bind, Except.bind]
    rw [readAt_of_getElem? hat]
    dsimp only
    rw [getInfo_of_getElem? hi]
    exact hrun

theorem GetAddr_spec (h : am.Inv strict book none) (rnd : Nat → Nat) :
    ∃ am' v, am.GetAddr_ rnd = .ok (am', v) ∧ am'.Inv strict book none ∧ am'.nKey = am.nKey := by
  refine GetAddrLoop_spec rnd _ 0 h ?_ []
  have hpct : ADDRMAN_GETADDR_MAX_PCT * am.vRandom.length / 100 ≤ am.vRandom.length := by
    unfold ADDRMAN_GETADDR_MAX_PCT
    omega
  split_ifs <;> omega

/-! ## Runs -/

/-- The calls of the public interface, each with its clock readings and random outcomes. -/
inductive Op
  | add (addr : CAddress) (source : CNetAddr) (nTimePenalty : Int64) (now : Nat → Int64)
      (rnd : Nat → Nat)
  | good (addr : CService) (nTime : Int64) (rnd : Nat → Nat)
  | attempt (addr : CService) (nTime : Int64)
  | connected (addr : CService) (nTime : Int64)
  | getAddr (rnd : Nat → Nat)
  | select (fUseTried : Bool) (rounds : List SelectRound)

def step (H : BucketHash) (am : CAddrMan) : Op → Except AddrManFault CAddrMan
  | .add addr source nTimePenalty now rnd => do
    let (am, _) ← am.Add_ H addr source nTimePenalty now rnd
    .ok am
  | .good addr nTime rnd => am.Good_ H addr nTime rnd
  | .attempt addr nTime => .ok (am.Attempt_ addr nTime)
  | .connected addr nTime => .ok (am.Connected_ addr nTime)
  | .getAddr rnd => do
    let (am, _) ← am.GetAddr_ rnd
    .ok am
  | .select fUseTried rounds => do
    let _ ← am.Select_ fUseTried rounds
    .ok am

/-- `Good` is called with a time after 0. -/
def Op.GoodTime : Op → Prop
  | .good _ nTime _ => 0 < nTime
  | _ => True

/-- `Attempt` is called with a time that is not negative. -/
def Op.AttemptTime : Op → Prop
  | .attempt _ nTime => 0 ≤ nTime
  | _ => True

/-- One call does not fail, and is steps of the book. -/
theorem step_spec (H : BucketHash) (h : am.Inv strict book none) {op : Op} (hgood : op.GoodTime)
    (hattempt : strict → op.AttemptTime) :
    ∃ am' book', am.step H op = .ok am' ∧ am'.Inv strict book' none ∧ book.Steps book' ∧
      am'.nKey = am.nKey := by
  cases op with
  | add addr source nTimePenalty now rnd =>
    obtain ⟨am', r, book', hok, hinv, hsteps, hkey⟩ := Add_spec H h addr source nTimePenalty now rnd
    exact ⟨am', book', by simp only [step, hok, bind, Except.bind], hinv, hsteps, hkey⟩
  | good addr nTime rnd => exact Good_spec H h addr hgood rnd
  | attempt addr nTime =>
    refine ⟨_, book, rfl, Attempt_spec h addr hattempt, .refl, ?_⟩
    unfold Attempt_
    split
    · rfl
    · split_ifs <;> rfl
  | connected addr nTime =>
    refine ⟨_, book, rfl, Connected_spec h addr nTime, .refl, ?_⟩
    unfold Connected_
    split
    · rfl
    · split_ifs <;> rfl
  | getAddr rnd =>
    obtain ⟨am', v, hok, hinv, hkey⟩ := GetAddr_spec h rnd
    exact ⟨am', book, by simp only [step, hok, bind, Except.bind], hinv, .refl, hkey⟩
  | select fUseTried rounds =>
    have htried : ∀ {k : Int} {t}, k ∈ am.vvTried t → ∃ info, am.mapInfo[k]? = some info := by
      intro k t hk
      obtain ⟨i, hi, -⟩ := h.holds.of_mem_tried hk
      exact ⟨i, hi⟩
    have hnew : ∀ {k : Int} {b}, k ∈ am.vvNew b → ∃ info, am.mapInfo[k]? = some info := by
      intro k b hk
      obtain ⟨-, -, -, i, -, -, hi, -⟩ := h.holds.of_mem_new hk
      exact ⟨i, hi⟩
    obtain ⟨r, hok⟩ := Select_ok htried hnew fUseTried rounds
    exact ⟨am, book, by simp only [step, hok, bind, Except.bind], h, .refl, rfl⟩

section Runs

def peer : CAddress :=
  { ip := (CNetAddr.ofIPv4 8 8 8 8).ip, port := 8333, nServices := 1, nTime := 1400000000 }

/-- The peer is heard of, tried, and asked for. -/
def peerRun (nTime : Int64) : List Op :=
  [.add peer peer.toCNetAddr 0 (fun _ => 1400000000) (fun _ => 0), .attempt peer.toCService nTime,
    .good peer.toCService 1400000000 (fun _ => 0), .attempt peer.toCService nTime,
    .connected peer.toCService 1400000000, .getAddr (fun _ => 0), .select true [⟨0, 0, true⟩]]

end Runs

end CAddrMan

end TriTip
