import TriTip.Block.Transaction
import TriTip.Lib.Scan

/-!
# Bitcoins that enter

`scanOutputOfTransaction` and `foundTTtransactions` of `dust_coin/ttenterpointfortransactions.h`.
The sum of what is paid to `m_target` is taken from a variable that is not initialised, a sum that
is negative or has wrapped around is minted too, and the inputs are looked at with the index that
they name, so tipcoins are minted one for one under a condition only
(`foundTTtransactions_iff`). The search in `m_ttTransactions` is read as one by hash,
`scripts.begin()` as the first script, and the return of an empty option as a return.
-/

namespace TriTip.TTcoin

/-- What C++ leaves open: an output that is not there, and the first script of none. -/
inductive EntryFault where
  | voutIndex
  | noScripts
  deriving DecidableEq

structure CTTEnterPointForTransaction (H : Type) where
  m_target : CScript
  m_ttTransactions : List (UInt32 × CTransaction H)
  m_currentBlockTime : UInt32
  deriving DecidableEq

namespace CTTEnterPointForTransaction

variable {H : Type}

section

variable (entry : CTTEnterPointForTransaction H)

def scanOutputOfTransaction (txIn : CTransaction H) : Option (CTransaction H) :=
  if txIn.vout.any fun txout => txout.scriptPubKey = entry.m_target then some txIn else none

/-- The first loop, from what the variable holds. -/
def addTargets (value : Int64) (vout : List CTxOut) : Int64 :=
  vout.foldl
    (fun value txout =>
      if txout.scriptPubKey = entry.m_target then value + txout.nValue else value) value

/-- The total of the outputs that pay the target. -/
def paid (vout : List CTxOut) : Int :=
  ((vout.filter fun txout => txout.scriptPubKey = entry.m_target).map
    fun txout => txout.nValue.toInt).sum

@[simp] theorem paid_nil : entry.paid [] = 0 := rfl

theorem paid_cons (txout : CTxOut) (vout : List CTxOut) :
    entry.paid (txout :: vout) =
      (if txout.scriptPubKey = entry.m_target then txout.nValue.toInt else 0) +
        entry.paid vout := by
  unfold paid
  by_cases h : txout.scriptPubKey = entry.m_target
  · simp [h]
  · simp [h]

/-- The loop adds the total to what the variable held, as far as there is room. -/
theorem toInt_addTargets (value : Int64) (vout : List CTxOut) :
    (entry.addTargets value vout).toInt = (value.toInt + entry.paid vout).bmod (2 ^ 64) := by
  induction vout generalizing value with
  | nil =>
    rw [paid_nil, add_zero, Int.bmod_eq_of_le value.le_toInt value.toInt_lt]
    rfl
  | cons txout vout ih =>
    rw [addTargets, List.foldl_cons, ← addTargets, ih, paid_cons]
    split
    · rw [Int64.toInt_add, Int.bmod_add_bmod, add_assoc]
    · rw [zero_add]

/-- The sum is zero if it is a multiple of what there is room for. -/
theorem addTargets_eq_zero_iff (value : Int64) (vout : List CTxOut) :
    entry.addTargets value vout = 0 ↔ (2 ^ 64 : Int) ∣ value.toInt + entry.paid vout := by
  rw [← Int64.toInt_inj, toInt_addTargets, Int64.toInt_zero]
  exact Int.dvd_iff_bmod_eq_zero.symm

/-- It is the total that is minted, or something else. -/
theorem addTargets_eq_paid_iff (value : Int64) (vout : List CTxOut) :
    (entry.addTargets value vout).toInt = entry.paid vout ↔
      value = 0 ∧ -2 ^ 63 ≤ entry.paid vout ∧ entry.paid vout < 2 ^ 63 := by
  constructor
  · intro h
    have hle := (entry.addTargets value vout).le_toInt
    have hlt := (entry.addTargets value vout).toInt_lt
    rw [h] at hle hlt
    refine ⟨?_, hle, hlt⟩
    have hvalue : value.toInt = 0 := by
      have hle' := value.le_toInt
      have hlt' := value.toInt_lt
      rw [toInt_addTargets] at h
      have hdvd := Int.dvd_self_sub_of_bmod_eq h
      rw [add_sub_cancel_right] at hdvd
      obtain ⟨k, hk⟩ := hdvd
      omega
    exact Int64.toInt_inj.1 hvalue
  · rintro ⟨rfl, hle, hlt⟩
    rw [toInt_addTargets, Int64.toInt_zero, zero_add, Int.bmod_eq_of_le hle hlt]

/-- Minted from nothing, for the first of the owners. -/
def primaryTransaction [Zero H] (value : Int64) (script : CScript) : CTransaction H :=
  { nVersion := 1
    vin := [⟨⟨0, -1⟩, [], -1⟩]
    vout := [⟨value, script⟩]
    nLockTime := 0 }

end

section

variable [DecidableEq H] (GetHash : CTransaction H → H) (getTransact : H → CTransaction H)
  (entry : CTTEnterPointForTransaction H)

def isKnown (txin : CTxIn H) : Bool :=
  entry.m_ttTransactions.any fun p => GetHash p.2 = txin.prevout.hash

/-- The second loop: the scripts of what the inputs spend, and nothing once an input is not
known. -/
def collectScripts : List (CTxIn H) → Except EntryFault (Option (List CScript))
  | [] => .ok (some [])
  | txin :: vin =>
    if entry.isKnown GetHash txin then
      match (getTransact txin.prevout.hash).vout[txin.prevout.n.toNat]? with
      | none => .error .voutIndex
      | some txout =>
        (collectScripts vin).map fun scripts => scripts.map fun l => txout.scriptPubKey :: l
    else .ok none

/-- `value` is what the variable holds before it is added to. -/
def foundTTtransactions [Zero H] (value : Int64) (txIn : CTransaction H) :
    Except EntryFault (CTTEnterPointForTransaction H) :=
  let value := entry.addTargets value txIn.vout
  if value = 0 then .ok entry
  else
    match entry.collectScripts GetHash getTransact txIn.vin with
    | .error fault => .error fault
    | .ok none => .ok entry
    | .ok (some []) => .error .noScripts
    | .ok (some (script :: _)) =>
      .ok { entry with
        m_ttTransactions := entry.m_ttTransactions ++
          [(entry.m_currentBlockTime, primaryTransaction value script)] }

/-! ## What the second loop looks at -/

/-- The input is known, and so is the output that it spends. -/
def Refers (txin : CTxIn H) : Prop :=
  entry.isKnown GetHash txin ∧
    txin.prevout.n.toNat < (getTransact txin.prevout.hash).vout.length

/-- What the loop does with an input. -/
theorem collectScripts_cases (txin : CTxIn H) (vin : List (CTxIn H)) :
    (entry.Refers GetHash getTransact txin ∧
      ∃ script, entry.collectScripts GetHash getTransact (txin :: vin) =
        (entry.collectScripts GetHash getTransact vin).map
          fun scripts => scripts.map fun l => script :: l) ∨
    (entry.isKnown GetHash txin ∧ ¬ entry.Refers GetHash getTransact txin ∧
      entry.collectScripts GetHash getTransact (txin :: vin) = .error .voutIndex) ∨
    (¬ entry.isKnown GetHash txin ∧
      entry.collectScripts GetHash getTransact (txin :: vin) = .ok none) := by
  rw [collectScripts]
  by_cases hknown : entry.isKnown GetHash txin
  · rw [if_pos hknown]
    split
    · next hnone =>
      have hlen := List.getElem?_eq_none_iff.1 hnone
      exact Or.inr (Or.inl ⟨hknown, fun h => Nat.not_lt.2 hlen h.2, rfl⟩)
    · next txout hsome =>
      obtain ⟨hlen, -⟩ := List.getElem?_eq_some_iff.1 hsome
      exact Or.inl ⟨⟨hknown, hlen⟩, txout.scriptPubKey, rfl⟩
  · exact Or.inr (Or.inr ⟨hknown, if_neg hknown⟩)

/-- One of the inputs is not known, and the loop gets to it. -/
def MeetsUnknown (vin : List (CTxIn H)) : Prop :=
  Scan.Reaches (entry.Refers GetHash getTransact) (fun txin => ¬ entry.isKnown GetHash txin) vin

/-- The loop gives up at an input that is not known. -/
theorem collectScripts_eq_none_iff (vin : List (CTxIn H)) :
    entry.collectScripts GetHash getTransact vin = .ok none ↔
      entry.MeetsUnknown GetHash getTransact vin := by
  induction vin with
  | nil => simp [collectScripts, MeetsUnknown]
  | cons txin vin ih =>
    rw [MeetsUnknown, Scan.reaches_cons, ← MeetsUnknown, ← ih]
    obtain ⟨hrefers, script, hcons⟩ | ⟨hknown, hnot, hcons⟩ | ⟨hnot, hcons⟩ :=
      entry.collectScripts_cases GetHash getTransact txin vin
    · rw [hcons]
      cases entry.collectScripts GetHash getTransact vin with
      | error fault => simp [Except.map, hrefers.1]
      | ok scripts => simp [Except.map, hrefers, hrefers.1]
    · simp [hcons, hknown, hnot]
    · simp [hcons, hnot]

/-- It gets through if there is nothing to stop it. -/
theorem collectScripts_eq_some_iff (vin : List (CTxIn H)) :
    (∃ scripts, entry.collectScripts GetHash getTransact vin = .ok (some scripts)) ↔
      ∀ txin ∈ vin, entry.Refers GetHash getTransact txin := by
  induction vin with
  | nil => simp [collectScripts]
  | cons txin vin ih =>
    rw [List.forall_mem_cons, ← ih]
    obtain ⟨hrefers, script, hcons⟩ | ⟨-, hnot, hcons⟩ | ⟨hnot, hcons⟩ :=
      entry.collectScripts_cases GetHash getTransact txin vin
    · rw [hcons]
      cases entry.collectScripts GetHash getTransact vin with
      | error fault => simp [Except.map]
      | ok scripts => cases scripts <;> simp [Except.map, hrefers]
    · simp [hcons, hnot]
    · simp [hcons, Refers, hnot]

theorem length_of_collectScripts {vin : List (CTxIn H)} {scripts : List CScript}
    (h : entry.collectScripts GetHash getTransact vin = .ok (some scripts)) :
    scripts.length = vin.length := by
  induction vin generalizing scripts with
  | nil =>
    cases h
    rfl
  | cons txin vin ih =>
    obtain ⟨-, script, hcons⟩ | ⟨-, -, hcons⟩ | ⟨-, hcons⟩ :=
      entry.collectScripts_cases GetHash getTransact txin vin
    · rw [hcons] at h
      cases hrest : entry.collectScripts GetHash getTransact vin with
      | error fault => simp [hrest, Except.map] at h
      | ok rest =>
        cases rest with
        | none => simp [hrest, Except.map] at h
        | some rest =>
          simp [hrest, Except.map] at h
          simp [← h, ih hrest]
    · rw [hcons] at h
      cases h
    · rw [hcons] at h
      cases h

/-! ## One for one -/

/-- The entry point with the transactions that have been created. -/
def append (created : Option (CTransaction H)) : CTTEnterPointForTransaction H :=
  { entry with
    m_ttTransactions := entry.m_ttTransactions ++
      created.toList.map fun tx => (entry.m_currentBlockTime, tx) }

omit [DecidableEq H] in
@[simp] theorem append_none : entry.append none = entry := by
  simp [append]

omit [DecidableEq H] in
theorem append_inj {created created' : Option (CTransaction H)}
    (h : entry.append created = entry.append created') : created = created' := by
  have hlist := List.append_cancel_left (congrArg m_ttTransactions h)
  have hmap := List.map_injective_iff.2 (Prod.mk_right_injective entry.m_currentBlockTime) hlist
  have hhead := congrArg List.head? hmap
  rwa [Option.head?_toList, Option.head?_toList] at hhead

/-- At most one transaction is created, if there is a total to be minted and all that is spent is
known, and it has one output with that total. -/
def MintsOneForOne (txIn : CTransaction H)
    (result : Except EntryFault (CTTEnterPointForTransaction H)) : Prop :=
  ∃ created : Option (CTransaction H), result = .ok (entry.append created) ∧
    (created.isSome ↔ 0 < entry.paid txIn.vout ∧ ∀ txin ∈ txIn.vin, entry.isKnown GetHash txin) ∧
    ∀ tx ∈ created, tx.vout.map (fun txout => txout.nValue.toInt) = [entry.paid txIn.vout]

/-- What is created tells whether it is one for one. -/
theorem mintsOneForOne_ok_iff (txIn : CTransaction H) (created : Option (CTransaction H)) :
    entry.MintsOneForOne GetHash txIn (.ok (entry.append created)) ↔
      (created.isSome ↔
        0 < entry.paid txIn.vout ∧ ∀ txin ∈ txIn.vin, entry.isKnown GetHash txin) ∧
      ∀ tx ∈ created, tx.vout.map (fun txout => txout.nValue.toInt) = [entry.paid txIn.vout] := by
  constructor
  · rintro ⟨created', h, hsome⟩
    cases entry.append_inj (Except.ok.inj h)
    exact hsome
  · intro h
    exact ⟨created, rfl, h⟩

theorem not_mintsOneForOne_error (txIn : CTransaction H) (fault : EntryFault) :
    ¬ entry.MintsOneForOne GetHash txIn (.error fault) := by
  rintro ⟨created, h, -⟩
  cases h

/-- Nothing is created. -/
theorem mintsOneForOne_same_iff (txIn : CTransaction H) :
    entry.MintsOneForOne GetHash txIn (.ok entry) ↔
      ¬ (0 < entry.paid txIn.vout ∧ ∀ txin ∈ txIn.vin, entry.isKnown GetHash txin) := by
  have h := entry.mintsOneForOne_ok_iff GetHash txIn none
  simpa using h

theorem all_isKnown_of_refers {vin : List (CTxIn H)}
    (h : ∀ txin ∈ vin, entry.Refers GetHash getTransact txin) :
    ∀ txin ∈ vin, entry.isKnown GetHash txin :=
  fun txin htxin => (h txin htxin).1

theorem not_all_isKnown {vin : List (CTxIn H)}
    (h : entry.MeetsUnknown GetHash getTransact vin) :
    ¬ ∀ txin ∈ vin, entry.isKnown GetHash txin := by
  obtain ⟨txin, htxin, hnot⟩ := h.exists_mem
  exact fun hall => hnot (hall txin htxin)

/-- When there is something to mint, the loop over the inputs decides. -/
theorem foundTTtransactions_iff_of_ne [Zero H] {value : Int64} {txIn : CTransaction H}
    (hne : entry.addTargets value txIn.vout ≠ 0) :
    entry.MintsOneForOne GetHash txIn
        (entry.foundTTtransactions GetHash getTransact value txIn) ↔
      entry.MeetsUnknown GetHash getTransact txIn.vin ∨
      value = 0 ∧ 0 < entry.paid txIn.vout ∧ entry.paid txIn.vout < 2 ^ 63 ∧ txIn.vin ≠ [] ∧
        ∀ txin ∈ txIn.vin, entry.Refers GetHash getTransact txin := by
  have hnone := entry.collectScripts_eq_none_iff GetHash getTransact txIn.vin
  have hsome := entry.collectScripts_eq_some_iff GetHash getTransact txIn.vin
  unfold foundTTtransactions
  dsimp only
  rw [if_neg hne]
  cases hscripts : entry.collectScripts GetHash getTransact txIn.vin with
  | error fault =>
    simp only [hscripts, reduceCtorEq, exists_false, false_iff] at hnone hsome
    simp [not_mintsOneForOne_error, hnone, hsome]
  | ok scripts =>
    cases scripts with
    | none =>
      have hreach := hnone.1 hscripts
      have hnot := entry.not_all_isKnown GetHash getTransact hreach
      simp [mintsOneForOne_same_iff, hreach, hnot]
    | some scripts =>
      have hall := hsome.1 ⟨scripts, hscripts⟩
      have hknown := entry.all_isKnown_of_refers GetHash getTransact hall
      have hlen := entry.length_of_collectScripts GetHash getTransact hscripts
      have hreach : ¬ entry.MeetsUnknown GetHash getTransact txIn.vin :=
        fun h => entry.not_all_isKnown GetHash getTransact h hknown
      cases scripts with
      | nil =>
        have hvin : txIn.vin = [] := List.length_eq_zero_iff.1 hlen.symm
        rw [hvin] at hreach
        simp [not_mintsOneForOne_error, hreach, hvin]
      | cons script scripts =>
        have hvin : txIn.vin ≠ [] := by
          intro heq
          simp [heq] at hlen
        have hcreated := entry.mintsOneForOne_ok_iff GetHash txIn
          (some (primaryTransaction (entry.addTargets value txIn.vout) script))
        have hpaid := entry.addTargets_eq_paid_iff value txIn.vout
        simp only [append, Option.toList_some, List.map_cons, List.map_nil] at hcreated
        rw [hcreated]
        simp [primaryTransaction, hpaid, hreach, hvin]
        constructor
        · rintro ⟨⟨hpos, -⟩, hvalue, -, hlt⟩
          exact ⟨hvalue, hpos, hlt, hall⟩
        · rintro ⟨hvalue, hpos, hlt, -⟩
          exact ⟨⟨hpos, hknown⟩, hvalue, by omega, hlt⟩

/-- **Minting from an unset variable.** Tipcoins are minted one for one if and only if the sum comes
out as zero when there is nothing to be minted; or it does not, and the loop over the inputs gets to
one that is not known; or the variable held zero, the total is positive and has room, and there are
inputs, with what they refer to. -/
theorem foundTTtransactions_iff [Zero H] (value : Int64) (txIn : CTransaction H) :
    entry.MintsOneForOne GetHash txIn
        (entry.foundTTtransactions GetHash getTransact value txIn) ↔
      (2 ^ 64 : Int) ∣ value.toInt + entry.paid txIn.vout ∧
        ¬ (0 < entry.paid txIn.vout ∧ ∀ txin ∈ txIn.vin, entry.isKnown GetHash txin) ∨
      ¬ (2 ^ 64 : Int) ∣ value.toInt + entry.paid txIn.vout ∧
        entry.MeetsUnknown GetHash getTransact txIn.vin ∨
      value = 0 ∧ 0 < entry.paid txIn.vout ∧ entry.paid txIn.vout < 2 ^ 63 ∧ txIn.vin ≠ [] ∧
        ∀ txin ∈ txIn.vin, entry.Refers GetHash getTransact txin := by
  by_cases hzero : entry.addTargets value txIn.vout = 0
  · have hdvd := (entry.addTargets_eq_zero_iff value txIn.vout).1 hzero
    have hsame : entry.foundTTtransactions GetHash getTransact value txIn = .ok entry := by
      unfold foundTTtransactions
      exact if_pos hzero
    rw [hsame, mintsOneForOne_same_iff]
    simp only [hdvd, not_true_eq_false, false_and, true_and, false_or]
    constructor
    · exact Or.inl
    · rintro (h | ⟨rfl, hpos, hlt, -⟩)
      · exact h
      · -- a total with room that is a multiple is zero
        rw [Int64.toInt_zero, zero_add] at hdvd
        obtain ⟨k, hk⟩ := hdvd
        omega
  · have hdvd : ¬ (2 ^ 64 : Int) ∣ value.toInt + entry.paid txIn.vout := fun h =>
      hzero ((entry.addTargets_eq_zero_iff value txIn.vout).2 h)
    rw [foundTTtransactions_iff_of_ne GetHash getTransact entry hzero]
    simp only [hdvd, not_false_eq_true, true_and, false_and, false_or]

/-- Nothing is paid to the target, and the variable happened to hold five. -/
theorem foundTTtransactions_mints :
    let spent : CTransaction Nat := ⟨1, [], [⟨7, [81]⟩], 0⟩
    let entry : CTTEnterPointForTransaction Nat := ⟨[], [(0, spent)], 0⟩
    let txIn : CTransaction Nat := ⟨1, [⟨⟨1, 0⟩, [], -1⟩], [⟨7, [81]⟩], 0⟩
    ¬ entry.MintsOneForOne (fun _ => 1) txIn
      (entry.foundTTtransactions (fun _ => 1) (fun _ => spent) 5 txIn) := by
  intro spent entry txIn
  have hfound : entry.foundTTtransactions (fun _ => 1) (fun _ => spent) 5 txIn =
      .ok (entry.append (some (primaryTransaction 5 [81]))) := by
    decide
  have hpaid : entry.paid txIn.vout = 0 := by decide
  rw [hfound, mintsOneForOne_ok_iff, hpaid]
  simp

end

end CTTEnterPointForTransaction

end TriTip.TTcoin
