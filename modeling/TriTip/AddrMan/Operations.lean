import TriTip.AddrMan.State

/-!
# The address manager: its operations

The member functions of `addrman.cpp`, in the order of the file. A function that asserts returns in
`Except AddrManFault`. The random draws of a call are the function `rnd` (its `k`-th call of
`GetRandInt` uses `rnd k`), the readings of the clock are `now`. `GetChance` is floating point: the
comparisons of `Select_` with it are outcomes given from outside.
-/

namespace TriTip

open Std

namespace CAddrMan

def Find (am : CAddrMan) (addr : CNetAddr) : Option (Int × CAddrInfo) :=
  match am.mapAddr addr with
  | none => none
  | some nId => (am.mapInfo[nId]?).map fun info => (nId, info)

/-- The new manager, the id and the entry made. -/
def Create (am : CAddrMan) (addr : CAddress) (addrSource : CNetAddr) :
    CAddrMan × Int × CAddrInfo :=
  let nId := am.nIdCount
  let info := { CAddrInfo.ofAddress addr addrSource with nRandomPos := am.vRandom.length }
  ({ am with
      nIdCount := nId + 1
      mapInfo := am.mapInfo.insert nId info
      mapAddr := Function.update am.mapAddr addr.toCNetAddr (some nId)
      vRandom := am.vRandom ++ [nId] }, nId, info)

def SwapRandom (am : CAddrMan) (nRndPos1 nRndPos2 : Int) : Except AddrManFault CAddrMan :=
  if nRndPos1 = nRndPos2 then .ok am
  else do
    let nId1 ← readAt am.vRandom nRndPos1 .swapRandomRange
    let nId2 ← readAt am.vRandom nRndPos2 .swapRandomRange
    let info1 ← am.getInfo nId1 .swapRandomId1
    let am := am.setInfo nId1 { info1 with nRandomPos := nRndPos2 }
    let info2 ← am.getInfo nId2 .swapRandomId2
    let am := am.setInfo nId2 { info2 with nRandomPos := nRndPos1 }
    .ok { am with vRandom := (am.vRandom.set nRndPos1.toNat nId2).set nRndPos2.toNat nId1 }

/-- The loop of `SelectTried` from index `i` on; `nOldest` is `-1` before the first element. -/
def SelectTriedLoop (am : CAddrMan) (rnd : Nat → Nat) :
    Nat → Nat → List Int → Int → Int → Except AddrManFault (List Int × Int)
  | 0, _, vTried, _, nOldestPos => .ok (vTried, nOldestPos)
  | todo + 1, i, vTried, nOldest, nOldestPos =>
    if i < vTried.length then do
      let nPos := GetRandInt (rnd i) (vTried.length - i) + i
      let nTemp ← readAt vTried nPos .outOfRange
      let vi ← readAt vTried i .outOfRange
      let vTried := (vTried.set nPos vi).set i nTemp
      if nOldest = -1 then SelectTriedLoop am rnd todo (i + 1) vTried nTemp nPos
      else do
        let info ← am.getInfo nTemp .selectTriedId
        let infoOldest ← am.getInfo nOldest .selectTriedId
        if info.nLastSuccess < infoOldest.nLastSuccess then
          SelectTriedLoop am rnd todo (i + 1) vTried nTemp nPos
        else SelectTriedLoop am rnd todo (i + 1) vTried nOldest nOldestPos
    else .ok (vTried, nOldestPos)

/-- The manager with the bucket reordered, and the position to replace. -/
def SelectTried (am : CAddrMan) (nKBucket : Fin ADDRMAN_TRIED_BUCKET_COUNT) (rnd : Nat → Nat) :
    Except AddrManFault (CAddrMan × Int) := do
  let (vTried, nOldestPos) ←
    am.SelectTriedLoop rnd ADDRMAN_TRIED_ENTRIES_INSPECT_ON_EVICT 0 (am.vvTried nKBucket) (-1) (-1)
  .ok (am.setTried nKBucket vTried, nOldestPos)

/-- `if (--info.nRefCount == 0) {...}` and the erasure from the bucket, which `ShrinkNew` does in
two places. -/
def DropReference (am : CAddrMan) (nUBucket : Fin ADDRMAN_NEW_BUCKET_COUNT) (nId : Int)
    (info : CAddrInfo) : Except AddrManFault CAddrMan := do
  let info := { info with nRefCount := info.nRefCount - 1 }
  let am := am.setInfo nId info
  if info.nRefCount = 0 then do
    let am ← am.SwapRandom info.nRandomPos (am.vRandom.length - 1)
    let am := { am with
      vRandom := am.vRandom.dropLast
      mapAddr := Function.update am.mapAddr info.toCNetAddr none
      mapInfo := am.mapInfo.erase nId
      nNew := am.nNew - 1 }
    .ok (am.eraseNew nUBucket nId)
  else .ok (am.eraseNew nUBucket nId)

/-- The first loop of `ShrinkNew`: the first deletable item of the bucket. -/
def FindTerrible (am : CAddrMan) (now : Nat → Int64) :
    Nat → List Int → Except AddrManFault (Option (Int × CAddrInfo))
  | _, [] => .ok none
  | k, nId :: rest => do
    let info ← am.getInfo nId .shrinkNewId
    if info.IsTerrible (now k) then .ok (some (nId, info)) else FindTerrible am now (k + 1) rest

/-- The second loop of `ShrinkNew`: the oldest of the items at the drawn positions `n`, or `-1`. -/
def FindOldest (am : CAddrMan) (n : List Nat) :
    Nat → List Int → Int → Except AddrManFault Int
  | _, [], nOldest => .ok nOldest
  | nI, nId :: rest, nOldest =>
    if nI ∈ n then
      if nOldest = -1 then FindOldest am n (nI + 1) rest nId
      else do
        let info ← am.getInfo nId .shrinkNewInspected
        let infoOldest ← am.getInfo nOldest .shrinkNewInspected
        if info.nTime < infoOldest.nTime then FindOldest am n (nI + 1) rest nId
        else FindOldest am n (nI + 1) rest nOldest
    else FindOldest am n (nI + 1) rest nOldest

/-- The assert on `nUBucket` is the type of the bucket index. -/
def ShrinkNew (am : CAddrMan) (now : Nat → Int64) (rnd : Nat → Nat)
    (nUBucket : Fin ADDRMAN_NEW_BUCKET_COUNT) : Except AddrManFault (CAddrMan × Int) := do
  let vNew := (am.vvNew nUBucket).toList
  match ← am.FindTerrible now 0 vNew with
  | some (nId, info) =>
    let am ← am.DropReference nUBucket nId info
    .ok (am, 0)
  | none =>
    let n := [0, 1, 2, 3].map fun k => GetRandInt (rnd k) vNew.length
    let nOldest ← am.FindOldest n 0 vNew (-1)
    let info ← am.getInfo nOldest .shrinkNewOldest
    let am ← am.DropReference nUBucket nOldest info
    .ok (am, 1)

/-- The end of `MakeTried`, when the tried bucket is full: one of its entries goes back to a new
bucket, and `nId` takes its position. -/
def ReplaceTried (H : BucketHash) (am : CAddrMan) (info : CAddrInfo) (nId : Int)
    (nOrigin : Fin ADDRMAN_NEW_BUCKET_COUNT) (nKBucket : Fin ADDRMAN_TRIED_BUCKET_COUNT)
    (rnd : Nat → Nat) : Except AddrManFault CAddrMan := do
  let (am, nPos) ← am.SelectTried nKBucket rnd
  let nIdOld ← readAt (am.vvTried nKBucket) nPos .outOfRange
  let infoOld ← am.getInfo nIdOld .makeTriedEvicted
  let nUBucket := infoOld.GetNewBucket H am.nKey infoOld.source
  let am := am.setInfo nIdOld { infoOld with fInTried := false, nRefCount := 1 }
  -- back there if there is place in that one, else to the bucket nId came from
  let nBack := if (am.vvNew nUBucket).size < ADDRMAN_NEW_BUCKET_SIZE then nUBucket else nOrigin
  let am := { am.insertNew nBack nIdOld with nNew := am.nNew + 1 }
  let am := am.setTried nKBucket ((am.vvTried nKBucket).set nPos.toNat nId)
  .ok (am.setInfo nId { info with fInTried := true })

/-- The beginning of `MakeTried`: the entry is removed from all new buckets. -/
def LeaveNew (am : CAddrMan) (info : CAddrInfo) (nId : Int) : CAddrMan × CAddrInfo :=
  let nErased := ((List.finRange ADDRMAN_NEW_BUCKET_COUNT).filter fun b => nId ∈ am.vvNew b).length
  let info := { info with nRefCount := info.nRefCount - nErased }
  ({ am.setInfo nId info with
      vvNew := fun b => (am.vvNew b).erase nId
      nNew := am.nNew - 1 }, info)

/-- `info` is the caller's reference to the entry of `nId`. -/
def MakeTried (H : BucketHash) (am : CAddrMan) (info : CAddrInfo) (nId : Int)
    (nOrigin : Fin ADDRMAN_NEW_BUCKET_COUNT) (rnd : Nat → Nat) :
    Except AddrManFault CAddrMan := do
  require (nId ∈ am.vvNew nOrigin) .makeTriedOrigin
  let (am, info) := am.LeaveNew info nId
  require (info.nRefCount = 0) .makeTriedRefCount
  let nKBucket := info.GetTriedBucket H am.nKey
  if (am.vvTried nKBucket).length < ADDRMAN_TRIED_BUCKET_SIZE then
    let am := am.setTried nKBucket (am.vvTried nKBucket ++ [nId])
    .ok { am.setInfo nId { info with fInTried := true } with nTried := am.nTried + 1 }
  else am.ReplaceTried H info nId nOrigin nKBucket rnd

/-- The bucket `Good_` finds the entry in, searching from a random one on. -/
def FindNewBucket (am : CAddrMan) (nId : Int) (nRnd : Nat) :
    Option (Fin ADDRMAN_NEW_BUCKET_COUNT) :=
  ((List.range ADDRMAN_NEW_BUCKET_COUNT).map fun n => Fin.ofNat _ (n + nRnd)).find?
    fun nB => nId ∈ am.vvNew nB

/-- Draw 0 is the bucket to start from, the later draws are those of `SelectTried`. -/
def Good_ (H : BucketHash) (am : CAddrMan) (addr : CService) (nTime : Int64) (rnd : Nat → Nat) :
    Except AddrManFault CAddrMan :=
  match am.Find addr.toCNetAddr with
  | none => .ok am
  | some (nId, info) =>
    if info.toCService ≠ addr then .ok am
    else
      let info := { info with
        nLastSuccess := nTime
        nLastTry := nTime
        nTime := nTime.toUInt64.toUInt32
        nAttempts := 0 }
      let am := am.setInfo nId info
      if info.fInTried then .ok am
      else
        match am.FindNewBucket nId (GetRandInt (rnd 0) ADDRMAN_NEW_BUCKET_COUNT) with
        | none => .ok am
        | some nUBucket => am.MakeTried H info nId nUBucket fun k => rnd (k + 1)

/-- The end of `Add_`: one more reference, in the bucket the source gives. -/
def AddReference (H : BucketHash) (am : CAddrMan) (nId : Int) (info : CAddrInfo)
    (source : CNetAddr) (now : Nat → Int64) (rnd : Nat → Nat) : Except AddrManFault CAddrMan :=
  let nUBucket := info.GetNewBucket H am.nKey source
  if nId ∈ am.vvNew nUBucket then .ok am
  else do
    let nSize := (am.vvNew nUBucket).size
    let am := am.setInfo nId { info with nRefCount := info.nRefCount + 1 }
    let am ← if nSize = ADDRMAN_NEW_BUCKET_SIZE then do
        let (am, _) ← am.ShrinkNew now rnd nUBucket
        .ok am
      else .ok am
    .ok (am.insertNew nUBucket nId)

/-- What `Add_` does to the time and the services of a known address. -/
def UpdateKnown (info : CAddrInfo) (addr : CAddress) (nTimePenalty nNow : Int64) : CAddrInfo :=
  let fCurrentlyOnline := nNow - seconds addr.nTime < 24 * 60 * 60
  let nUpdateInterval : Int64 := if fCurrentlyOnline then 60 * 60 else 24 * 60 * 60
  let nTime :=
    if addr.nTime ≠ 0 ∧ (info.nTime = 0 ∨
        seconds info.nTime < seconds addr.nTime - nUpdateInterval - nTimePenalty) then
      (max 0 (seconds addr.nTime - nTimePenalty)).toUInt64.toUInt32
    else info.nTime
  { info with nTime := nTime, nServices := info.nServices ||| addr.nServices }

/-- Clock reading 0 is `GetAdjustedTime()`, the later ones are those of `ShrinkNew`; draw 0 is the
stochastic test, the later draws are those of `ShrinkNew`. -/
def Add_ (H : BucketHash) (am : CAddrMan) (addr : CAddress) (source : CNetAddr)
    (nTimePenalty : Int64) (now : Nat → Int64) (rnd : Nat → Nat) :
    Except AddrManFault (CAddrMan × Bool) :=
  if !addr.IsRoutable then .ok (am, false)
  else
    match am.Find addr.toCNetAddr with
    | some (nId, info) =>
      let info := UpdateKnown info addr nTimePenalty (now 0)
      let am := am.setInfo nId info
      -- no new information, already tried, or the maximum reference count is reached
      if addr.nTime = 0 ∨ (info.nTime ≠ 0 ∧ addr.nTime ≤ info.nTime) then .ok (am, false)
      else if info.fInTried then .ok (am, false)
      else if info.nRefCount = (ADDRMAN_NEW_BUCKETS_PER_ADDRESS : Int) then .ok (am, false)
      else
        let nFactor := 2 ^ info.nRefCount.toNat
        if 1 < nFactor ∧ GetRandInt (rnd 0) nFactor ≠ 0 then .ok (am, false)
        else do
          let am ← am.AddReference H nId info source (fun k => now (k + 1)) fun k => rnd (k + 1)
          .ok (am, false)
    | none => do
      let (am, nId, info) := am.Create addr source
      let info := { info with
        nTime := (max 0 (seconds info.nTime - nTimePenalty)).toUInt64.toUInt32 }
      let am := { am.setInfo nId info with nNew := am.nNew + 1 }
      let am ← am.AddReference H nId info source (fun k => now (k + 1)) fun k => rnd (k + 1)
      .ok (am, true)

/-- The entry that `Add_` makes of an unknown address. -/
def newInfo (am : CAddrMan) (addr : CAddress) (source : CNetAddr) (nTimePenalty : Int64) :
    CAddrInfo :=
  { (am.Create addr source).2.2 with
    nTime :=
      (max 0 (seconds (am.Create addr source).2.2.nTime - nTimePenalty)).toUInt64.toUInt32 }

/-- With that entry, to which there is no reference yet. -/
def withNewInfo (am : CAddrMan) (addr : CAddress) (source : CNetAddr) (nTimePenalty : Int64) :
    CAddrMan :=
  { (am.Create addr source).1.setInfo am.nIdCount (am.newInfo addr source nTimePenalty) with
    nNew := am.nNew + 1 }

/-- What `Add_` can do: nothing, bring a known address up to date, with or without one more
reference, or make a new entry with its first one. -/
theorem Add_outcomes (H : BucketHash) (am : CAddrMan) (addr : CAddress) (source : CNetAddr)
    (nTimePenalty : Int64) (now : Nat → Int64) (rnd : Nat → Nat) :
    am.Add_ H addr source nTimePenalty now rnd = .ok (am, false) ∨
    (∃ nId info, am.Find addr.toCNetAddr = some (nId, info) ∧
      (am.Add_ H addr source nTimePenalty now rnd =
          .ok (am.setInfo nId (UpdateKnown info addr nTimePenalty (now 0)), false) ∨
        info.fInTried = false ∧ info.nRefCount ≠ (ADDRMAN_NEW_BUCKETS_PER_ADDRESS : Int) ∧
          am.Add_ H addr source nTimePenalty now rnd =
            ((am.setInfo nId (UpdateKnown info addr nTimePenalty (now 0))).AddReference H nId
              (UpdateKnown info addr nTimePenalty (now 0)) source (fun k => now (k + 1))
              fun k => rnd (k + 1)) >>= fun am' => .ok (am', false))) ∨
    am.Find addr.toCNetAddr = none ∧
      am.Add_ H addr source nTimePenalty now rnd =
        ((am.withNewInfo addr source nTimePenalty).AddReference H am.nIdCount
          (am.newInfo addr source nTimePenalty) source (fun k => now (k + 1))
          fun k => rnd (k + 1)) >>= fun am' => .ok (am', true) := by
  unfold Add_
  by_cases hr : addr.IsRoutable = true
  swap
  · exact Or.inl (by simp [hr])
  simp only [hr, Bool.not_true, Bool.false_eq_true, if_false]
  cases hf : am.Find addr.toCNetAddr with
  | some e =>
    obtain ⟨nId, info⟩ := e
    refine Or.inr (Or.inl ⟨nId, info, rfl, ?_⟩)
    dsimp only
    split_ifs with hold htried hmax hfactor
    · exact Or.inl rfl
    · exact Or.inl rfl
    · exact Or.inl rfl
    · exact Or.inl rfl
    · exact Or.inr ⟨Bool.eq_false_of_not_eq_true htried, hmax, rfl⟩
  | none => exact Or.inr (Or.inr ⟨rfl, rfl⟩)

def Attempt_ (am : CAddrMan) (addr : CService) (nTime : Int64) : CAddrMan :=
  match am.Find addr.toCNetAddr with
  | none => am
  | some (nId, info) =>
    if info.toCService ≠ addr then am
    else am.setInfo nId { info with nLastTry := nTime, nAttempts := info.nAttempts + 1 }

/-- One round of a `while(1)` of `Select_`: the draws, and whether the chance accepts the entry. -/
structure SelectRound where
  nBucket : Nat
  nPos : Nat
  accept : Bool

/-- The loop over the buckets of one table; `none` when the rounds given are used up. -/
def SelectNode (am : CAddrMan) (bucket : Nat → List Int) :
    List SelectRound → Except AddrManFault (Option CAddrInfo)
  | [] => .ok none
  | r :: rest =>
    if (bucket r.nBucket).length = 0 then SelectNode am bucket rest
    else do
      let nId ← readAt (bucket r.nBucket) (GetRandInt r.nPos (bucket r.nBucket).length) .outOfRange
      let info ← am.getInfo nId .selectId
      if r.accept then .ok (some info) else SelectNode am bucket rest

/-- `fUseTried` is the outcome of the first comparison. -/
def Select_ (am : CAddrMan) (fUseTried : Bool) (rounds : List SelectRound) :
    Except AddrManFault (Option CAddress) :=
  if am.vRandom.length = 0 then .ok (some .default)
  else do
    let info ←
      if fUseTried then
        am.SelectNode (fun r => am.vvTried (Fin.ofNat _ (GetRandInt r ADDRMAN_TRIED_BUCKET_COUNT)))
          rounds
      else
        am.SelectNode
          (fun r => (am.vvNew (Fin.ofNat _ (GetRandInt r ADDRMAN_NEW_BUCKET_COUNT))).toList) rounds
    .ok (info.map (·.toCAddress))

/-- The loop of `GetAddr_` from position `n` on, for `todo` more positions. -/
def GetAddrLoop (rnd : Nat → Nat) :
    Nat → Nat → CAddrMan → List CAddress → Except AddrManFault (CAddrMan × List CAddress)
  | 0, _, am, vAddr => .ok (am, vAddr)
  | todo + 1, n, am, vAddr => do
    let nRndPos := GetRandInt (rnd n) (am.vRandom.length - n) + n
    let am ← am.SwapRandom n nRndPos
    let nId ← readAt am.vRandom n .outOfRange
    let info ← am.getInfo nId .getAddrId
    GetAddrLoop rnd todo (n + 1) am (vAddr ++ [info.toCAddress])

def GetAddr_ (am : CAddrMan) (rnd : Nat → Nat) : Except AddrManFault (CAddrMan × List CAddress) :=
  let nNodes := ADDRMAN_GETADDR_MAX_PCT * am.vRandom.length / 100
  let nNodes := if ADDRMAN_GETADDR_MAX < nNodes then ADDRMAN_GETADDR_MAX else nNodes
  GetAddrLoop rnd nNodes 0 am []

def Connected_ (am : CAddrMan) (addr : CService) (nTime : Int64) : CAddrMan :=
  match am.Find addr.toCNetAddr with
  | none => am
  | some (nId, info) =>
    if info.toCService ≠ addr then am
    else if 20 * 60 < nTime - seconds info.nTime then
      am.setInfo nId { info with nTime := nTime.toUInt64.toUInt32 }
    else am

end CAddrMan

end TriTip
