import TriTip.Wallet.SelectCoins

/-!
# Creating a transaction

`CreateTransaction` of `wallet.cpp` selects coins for the payees and the fee, gives back the change
or adds it to the fee, and begins again with a higher fee if this one is too low for the transaction
it got. `CreateTransaction_pays`: what it returns pays each payee once, and its inputs are worth its
outputs and the fee. The fee settings and `GetMinFee` are any amounts for which the sums fit.
-/

namespace TriTip

open ExactInt64

/-! ## The coins of a wallet -/

/-- A wallet: `mapWallet` has one transaction for each hash. -/
structure CWallet (H P : Type) where
  mapWallet : List P
  mem : P → CWalletTx H
  nodup : mapWallet.Nodup
  GetHash_inj : ∀ p ∈ mapWallet, ∀ q ∈ mapWallet, (mem p).GetHash = (mem q).GetHash → p = q
  vout_lt : ∀ p ∈ mapWallet, (mem p).vout.length < 2 ^ 32
  IsFinalTx : P → Bool
  IsConfirmed : P → Bool
  IsCoinBase : P → Bool
  GetBlocksToMaturity : P → Int
  GetDepthInMainChain : P → Int
  IsSpent : P → UInt32 → Bool
  IsMine : CTxOut → Bool
  IsLockedCoin : H → UInt32 → Bool

namespace CWallet

variable {H P : Type} (wallet : CWallet H P)

/-- Whether the coins of a transaction are passed over. -/
def passesOver (fOnlyConfirmed : Bool) (pcoin : P) : Bool :=
  !wallet.IsFinalTx pcoin || fOnlyConfirmed && !wallet.IsConfirmed pcoin ||
    wallet.IsCoinBase pcoin && 0 < wallet.GetBlocksToMaturity pcoin

def isAvailable (pcoin : P) (i : UInt32) (txout : CTxOut) : Bool :=
  !wallet.IsSpent pcoin i && wallet.IsMine txout &&
    !wallet.IsLockedCoin (wallet.mem pcoin).GetHash i && 0 < txout.nValue

def availableOutputs (pcoin : P) : List (COutput P) :=
  ((List.finRange (wallet.mem pcoin).vout.length).filter fun i =>
    wallet.isAvailable pcoin (.ofNat i.val) ((wallet.mem pcoin).vout.get i)).map fun i =>
      ⟨pcoin, .ofNat i.val, wallet.GetDepthInMainChain pcoin⟩

def AvailableCoins (fOnlyConfirmed : Bool) : List (COutput P) :=
  wallet.mapWallet.flatMap fun pcoin =>
    if wallet.passesOver fOnlyConfirmed pcoin then [] else wallet.availableOutputs pcoin

end CWallet

/-! ## The transaction -/

/-- The fee settings, and what is called of other files. -/
structure SendRules (H P : Type) where
  nTransactionFee : Int64
  nMinTxFee : Int64
  nMinRelayTxFee : Int64
  CENT : Int64
  MAX_STANDARD_TX_SIZE : UInt32
  /-- `GetSerializeSize` of an output, and of a transaction -/
  txoutSize : CTxOut → UInt32
  txSize : CTransaction H → UInt32
  /-- `AllowFree` of the priority that coins have in so many bytes -/
  AllowFree : Finset (P × UInt32) → UInt32 → Bool
  GetMinFee : CTransaction H → Bool → Int64
  /-- the `scriptSig` for an input -/
  SignSignature : P → CTransaction H → Nat → Option CScript
  /-- the order of a set of pointers -/
  order : (s : Finset (P × UInt32)) → { l : List (P × UInt32) // l.Nodup ∧ ∀ c, c ∈ l ↔ c ∈ s }

/-- The choices of one round of the loop. -/
structure RoundChoices (P : Type) where
  coins : Fin 3 → CoinChoices P
  /-- the script for the key that is reserved -/
  GetReservedKey : Option CScript
  GetRandInt : (n : Nat) → Fin (n + 1)

/-- Why a round does not return a transaction. -/
inductive RoundStop where
  | failed (strFailReason : String) (nFeeRet : Int64)
  | assertFailed
  | retry (nFeeRet : Int64)

/-- How `CreateTransaction` ends. -/
inductive CreateResult (H : Type) where
  | failed (strFailReason : String) (nFeeRet : Int64)
  | assertFailed
  | created (wtxNew : CTransaction H) (nFeeRet : Int64)
  deriving DecidableEq

section

variable {H P : Type} [DecidableEq P] (rules : SendRules H P)

def SendRules.IsDust (txout : CTxOut) : Bool :=
  txout.nValue * 1000 / (3 * ((rules.txoutSize txout).toInt32 + 148)).toInt64 <
    rules.nMinRelayTxFee

/-- The payees' outputs. -/
def payeeOutputs (vecSend : List (CScript × Int64)) : List CTxOut :=
  vecSend.map fun s => ⟨s.2, s.1⟩

/-- The sum of the amounts; a sum that is negative is refused. -/
def sumAmounts : Int64 → List (CScript × Int64) → Option Int64
  | nValue, [] => if nValue < 0 then none else some nValue
  | nValue, s :: vecSend => if nValue < 0 then none else sumAmounts (nValue + s.2) vecSend

/-- How much of a change of less than a cent goes to the fee. -/
def nMoveToFee (nChange nFeeRet : Int64) : Int64 :=
  if nFeeRet < rules.nMinTxFee ∧ 0 < nChange ∧ nChange < rules.CENT then
    if rules.nMinTxFee - nFeeRet < nChange then rules.nMinTxFee - nFeeRet else nChange
  else 0

/-- The change is an output at a random place, or part of the fee if it is dust. -/
def addChange (choices : RoundChoices P) (vout : List CTxOut) (nChange nFeeRet : Int64) :
    Except RoundStop (List CTxOut × Int64) :=
  if 0 < nChange then
    match choices.GetReservedKey with
    | none => .error .assertFailed
    | some scriptChange =>
      let newTxOut : CTxOut := ⟨nChange, scriptChange⟩
      if rules.IsDust newTxOut then .ok (vout, nFeeRet + nChange)
      else .ok (vout.insertIdx (choices.GetRandInt vout.length) newTxOut, nFeeRet)
  else .ok (vout, nFeeRet)

/-- The inputs from the one with number `nIn` on are signed. -/
def signInputs : List (P × UInt32) → Nat → CTransaction H → Option (CTransaction H)
  | [], _, wtxNew => some wtxNew
  | coin :: coins, nIn, wtxNew =>
    match rules.SignSignature coin.1 wtxNew nIn with
    | none => none
    | some scriptSig =>
      signInputs coins (nIn + 1)
        { wtxNew with vin := wtxNew.vin.modify nIn fun txin => { txin with scriptSig } }

def nPayFee (wtxNew : CTransaction H) : Int64 :=
  rules.nTransactionFee * .ofInt (1 + (rules.txSize wtxNew).toNat / 1000)

/-- `GetMinFee` for a transaction that spends these coins. -/
def nMinFee (setCoins : Finset (P × UInt32)) (wtxNew : CTransaction H) : Int64 :=
  rules.GetMinFee wtxNew (rules.AllowFree setCoins (rules.txSize wtxNew))

/-- The fee that a transaction has to pay. -/
def nFeeNeeded (setCoins : Finset (P × UInt32)) (wtxNew : CTransaction H) : Int64 :=
  if nPayFee rules wtxNew < nMinFee rules setCoins wtxNew then nMinFee rules setCoins wtxNew
  else nPayFee rules wtxNew

variable (wallet : CWallet H P) (fOnlyConfirmed : Bool) (vecSend : List (CScript × Int64))
  (nValue : Int64)

def CWallet.prevout (coin : P × UInt32) : COutPoint H := ⟨(wallet.mem coin.1).GetHash, coin.2⟩

/-- A round up to the signatures: the coins, the transaction and its fee. -/
def fundRound (choices : RoundChoices P) (wtxNew : CTransaction H) (nFeeRet : Int64) :
    Except RoundStop (Finset (P × UInt32) × CTransaction H × Int64) := do
  let vout := payeeOutputs vecSend
  ensure (vout.all fun txout => !rules.IsDust txout)
    (.failed "Transaction amount too small" nFeeRet)
  let selection := SelectCoins wallet.mem rules.CENT choices.coins (nValue + nFeeRet)
    (wallet.AvailableCoins fOnlyConfirmed)
  ensure selection.fSelected (.failed "Insufficient funds" nFeeRet)
  let setCoins := selection.setCoinsRet
  let nChange := selection.nValueRet - nValue - nFeeRet
  let nMove := nMoveToFee rules nChange nFeeRet
  let (vout, nFeeRet) ← addChange rules choices vout (nChange - nMove) (nFeeRet + nMove)
  let vin := (rules.order setCoins).1.map fun coin => ⟨wallet.prevout coin, [], -1⟩
  match signInputs rules (rules.order setCoins) 0 { wtxNew with vin, vout } with
  | some wtxNew => .ok (setCoins, wtxNew, nFeeRet)
  | none => .error (.failed "Signing transaction failed" nFeeRet)

/-- One round of the loop. -/
def createRound (choices : RoundChoices P) (wtxNew : CTransaction H) (nFeeRet : Int64) :
    Except RoundStop (CTransaction H × Int64) := do
  let (setCoins, wtxNew, nFeeRet) ←
    fundRound rules wallet fOnlyConfirmed vecSend nValue choices wtxNew nFeeRet
  ensure (rules.txSize wtxNew < rules.MAX_STANDARD_TX_SIZE)
    (.failed "Transaction too large" nFeeRet)
  ensure (nFeeNeeded rules setCoins wtxNew ≤ nFeeRet)
    (.retry (nFeeNeeded rules setCoins wtxNew))
  return (wtxNew, nFeeRet)

/-- The loop, for so many rounds at most. -/
def createLoop (choices : Nat → RoundChoices P) (wtxNew : CTransaction H) :
    (rounds : Nat) → (round : Nat) → (nFeeRet : Int64) → Option (CreateResult H)
  | 0, _, _ => none
  | rounds + 1, round, nFeeRet =>
    match createRound rules wallet fOnlyConfirmed vecSend nValue (choices round) wtxNew nFeeRet with
    | .ok (wtxNew, nFeeRet) => some (.created wtxNew nFeeRet)
    | .error (.failed strFailReason nFeeRet) => some (.failed strFailReason nFeeRet)
    | .error .assertFailed => some .assertFailed
    | .error (.retry nFeeRet) => createLoop choices wtxNew rounds (round + 1) nFeeRet

/-- `none` if that takes more rounds. -/
def CreateTransaction (choices : Nat → RoundChoices P) (wtxNew : CTransaction H)
    (nFeeRet : Int64) (rounds : Nat) : Option (CreateResult H) :=
  match vecSend, sumAmounts 0 vecSend with
  | _ :: _, some nValue =>
    createLoop rules wallet fOnlyConfirmed vecSend nValue choices wtxNew rounds 0
      rules.nTransactionFee
  | _, _ => some (.failed "Transaction amounts must be positive" nFeeRet)

end

/-! ## What a wallet offers -/

namespace CWallet

variable {H P : Type} {wallet : CWallet H P} {fOnlyConfirmed : Bool}

theorem mem_availableOutputs {pcoin : P} (hlt : (wallet.mem pcoin).vout.length < 2 ^ 32)
    {output : COutput P} (h : output ∈ wallet.availableOutputs pcoin) :
    output.tx = pcoin ∧ 0 < coinValue wallet.mem output.coin := by
  unfold availableOutputs at h
  rw [List.mem_map] at h
  obtain ⟨i, hi, rfl⟩ := h
  refine ⟨rfl, ?_⟩
  have hpos := (List.mem_filter.1 hi).2
  unfold isAvailable at hpos
  rw [Bool.and_eq_true, decide_eq_true_iff] at hpos
  have hval : coinValue wallet.mem (pcoin, .ofNat i.val) =
      ((wallet.mem pcoin).vout.get i).nValue := by
    unfold coinValue
    rw [UInt32.toNat_ofNat_of_lt' (i.isLt.trans hlt)]
    simp
  exact hval ▸ hpos.2

theorem nodup_availableOutputs {pcoin : P} (hlt : (wallet.mem pcoin).vout.length < 2 ^ 32) :
    ((wallet.availableOutputs pcoin).map COutput.coin).Nodup := by
  unfold availableOutputs
  rw [List.map_map]
  refine List.Nodup.map_on (fun i _ j _ hij => ?_) ((List.nodup_finRange _).filter _)
  have hn : (UInt32.ofNat i.val).toNat = (UInt32.ofNat j.val).toNat :=
    congrArg (fun c : P × UInt32 => c.2.toNat) hij
  rw [UInt32.toNat_ofNat_of_lt' (i.isLt.trans hlt), UInt32.toNat_ofNat_of_lt' (j.isLt.trans hlt)]
    at hn
  exact Fin.ext hn

theorem mem_AvailableCoins {output : COutput P}
    (h : output ∈ wallet.AvailableCoins fOnlyConfirmed) :
    output.tx ∈ wallet.mapWallet ∧ 0 < coinValue wallet.mem output.coin := by
  unfold AvailableCoins at h
  rw [List.mem_flatMap] at h
  obtain ⟨pcoin, hpcoin, h⟩ := h
  split at h
  · cases h
  · obtain ⟨rfl, hpos⟩ := mem_availableOutputs (wallet.vout_lt pcoin hpcoin) h
    exact ⟨hpcoin, hpos⟩

theorem nodup_AvailableCoins (wallet : CWallet H P) (fOnlyConfirmed : Bool) :
    ((wallet.AvailableCoins fOnlyConfirmed).map COutput.coin).Nodup := by
  unfold AvailableCoins
  rw [List.map_flatMap, List.nodup_flatMap]
  refine ⟨fun pcoin hpcoin => ?_, wallet.nodup.imp_of_mem fun {p q} hp hq hne => ?_⟩
  · split
    · exact List.nodup_nil
    · exact nodup_availableOutputs (wallet.vout_lt pcoin hpcoin)
  · have htx : ∀ {p c}, p ∈ wallet.mapWallet → c ∈ List.map COutput.coin
        (if wallet.passesOver fOnlyConfirmed p then [] else wallet.availableOutputs p) →
        c.1 = p := by
      intro p c hp hc
      obtain ⟨output, houtput, rfl⟩ := List.mem_map.1 hc
      split at houtput
      · cases houtput
      · exact (mem_availableOutputs (wallet.vout_lt p hp) houtput).1
    intro c hcp hcq
    exact hne ((htx hp hcp).symm.trans (htx hq hcq))

end CWallet

section

variable {H P : Type} {rules : SendRules H P}

/-! ## Payees, change and signatures -/

theorem total_payeeOutputs (vecSend : List (CScript × Int64)) :
    total (payeeOutputs vecSend) = (vecSend.map fun s => s.2.toInt).sum := by
  unfold total payeeOutputs
  rw [List.map_map]
  rfl

theorem total_perm {vout vout' : List CTxOut} (h : vout.Perm vout') : total vout = total vout' :=
  (h.map _).sum_eq

theorem total_append (vout vout' : List CTxOut) :
    total (vout ++ vout') = total vout + total vout' := by
  unfold total
  rw [List.map_append, List.sum_append]

/-- Amounts that are not negative add up exactly. -/
theorem sumAmounts_eq {vecSend : List (CScript × Int64)} (hpos : ∀ s ∈ vecSend, 0 ≤ s.2.toInt)
    {nValue r : Int64} (h0 : 0 ≤ nValue.toInt)
    (hfits : Fits (nValue.toInt + (vecSend.map fun s => s.2.toInt).sum))
    (h : sumAmounts nValue vecSend = some r) :
    r.toInt = nValue.toInt + (vecSend.map fun s => s.2.toInt).sum := by
  have hnneg : ¬ nValue < 0 := Int64.not_lt.2 (Int64.le_iff_toInt_le.2 h0)
  induction vecSend generalizing nValue with
  | nil =>
    rw [sumAmounts, if_neg hnneg] at h
    obtain rfl := Option.some.inj h
    simp
  | cons s vecSend ih =>
    rw [List.forall_mem_cons] at hpos
    rw [List.map_cons, List.sum_cons] at hfits ⊢
    rw [sumAmounts, if_neg hnneg] at h
    have hrest : 0 ≤ (vecSend.map fun s => s.2.toInt).sum :=
      List.sum_nonneg (List.forall_mem_map.2 hpos.2)
    have hadd : (nValue + s.2).toInt = nValue.toInt + s.2.toInt :=
      toInt_add ⟨by omega, by have := hfits.2; omega⟩
    have hle : 0 ≤ (nValue + s.2).toInt := by omega
    rw [ih hpos.2 hle (by rwa [hadd, add_assoc]) h (Int64.not_lt.2 (Int64.le_iff_toInt_le.2 hle)),
      hadd, add_assoc]

/-- What is moved to the fee is part of the change. -/
theorem nMoveToFee_mem (rules : SendRules H P) {nChange nFeeRet : Int64}
    (hchange : 0 ≤ nChange.toInt)
    (hfits : nFeeRet.toInt < rules.nMinTxFee.toInt →
      Fits (rules.nMinTxFee.toInt - nFeeRet.toInt)) :
    0 ≤ (nMoveToFee rules nChange nFeeRet).toInt ∧
      (nMoveToFee rules nChange nFeeRet).toInt ≤ nChange.toInt := by
  unfold nMoveToFee
  split_ifs with hmove hless
  · rw [Int64.lt_iff_toInt_lt] at hmove
    have hsub := toInt_sub (hfits hmove.1)
    rw [Int64.lt_iff_toInt_lt] at hless
    omega
  · exact ⟨hchange, le_rfl⟩
  · exact ⟨le_rfl, hchange⟩

/-- The change is given back or added to the fee. -/
theorem addChange_eq_ok {choices : RoundChoices P} {vout vout' : List CTxOut}
    {nChange nFeeRet nFeeRet' : Int64} (hchange : 0 ≤ nChange.toInt)
    (hfits : Fits (nFeeRet.toInt + nChange.toInt))
    (h : addChange rules choices vout nChange nFeeRet = .ok (vout', nFeeRet')) :
    nFeeRet.toInt ≤ nFeeRet'.toInt ∧ ∃ change : Option CTxOut,
      vout'.Perm (vout ++ change.toList) ∧ (∀ txout ∈ change, rules.IsDust txout = false) ∧
        total change.toList + nFeeRet'.toInt = nChange.toInt + nFeeRet.toInt := by
  unfold addChange at h
  split at h
  · cases hkey : choices.GetReservedKey with
    | none => simp [hkey] at h
    | some scriptChange =>
      simp only [hkey] at h
      split at h
      · obtain ⟨rfl, rfl⟩ := Prod.mk.inj (Except.ok.inj h)
        have hadd := toInt_add hfits
        refine ⟨by omega, none, by simp, by simp, ?_⟩
        rw [hadd]
        simp [total]
        omega
      · rename_i hdust
        obtain ⟨rfl, rfl⟩ := Prod.mk.inj (Except.ok.inj h)
        refine ⟨le_rfl, some ⟨nChange, scriptChange⟩, ?_, by simpa using hdust, by simp [total]⟩
        refine (List.perm_insertIdx _ vout (Nat.le_of_lt_succ (Fin.isLt _))).trans ?_
        exact (List.perm_append_singleton _ vout).symm
  · rename_i hzero
    obtain ⟨rfl, rfl⟩ := Prod.mk.inj (Except.ok.inj h)
    rw [Int64.lt_iff_toInt_lt] at hzero
    have : nChange.toInt = 0 := le_antisymm (not_lt.1 hzero) hchange
    exact ⟨le_rfl, none, by simp, by simp, by simp [total, this]⟩

theorem map_modify_of_eq {α β : Type} {f : α → α} {g : α → β} (hfg : ∀ a, g (f a) = g a)
    (l : List α) (n : Nat) : (l.modify n f).map g = l.map g := by
  induction l generalizing n with
  | nil => simp
  | cons a l ih =>
    cases n with
    | zero => simp [hfg]
    | succ n => simp [ih]

/-- Signing changes neither what is spent nor the outputs. -/
theorem signInputs_eq_some {coins : List (P × UInt32)} {nIn : Nat} {wtxNew wtx : CTransaction H}
    (h : signInputs rules coins nIn wtxNew = some wtx) :
    wtx.vin.map CTxIn.prevout = wtxNew.vin.map CTxIn.prevout ∧ wtx.vout = wtxNew.vout := by
  induction coins generalizing nIn wtxNew with
  | nil =>
    obtain rfl := Option.some.inj h
    exact ⟨rfl, rfl⟩
  | cons coin coins ih =>
    unfold signInputs at h
    split at h
    · cases h
    · obtain ⟨hvin, hvout⟩ := ih h
      refine ⟨hvin.trans ?_, hvout⟩
      exact map_modify_of_eq (by exact fun _ => rfl) wtxNew.vin nIn

/-! ## A round -/

variable [DecidableEq P]

/-- Amounts for which no sum wraps. -/
structure SumsFit (rules : SendRules H P) : Prop where
  CENT_pos : 0 < rules.CENT
  CENT_le : rules.CENT.toInt ≤ 2 ^ 61
  MAX_STANDARD_TX_SIZE_le : rules.MAX_STANDARD_TX_SIZE.toNat ≤ 100000
  nTransactionFee_ge : -2 ^ 61 ≤ 100 * rules.nTransactionFee.toInt
  nTransactionFee_le : 100 * rules.nTransactionFee.toInt ≤ 2 ^ 61
  nMinTxFee_le : rules.nMinTxFee.toInt ≤ 2 ^ 61
  GetMinFee_le : ∀ wtxNew fAllowFree, (rules.GetMinFee wtxNew fAllowFree).toInt ≤ 2 ^ 61

/-- A transaction that pays the payees from coins of the wallet, with what is left for the fee. -/
structure Funds (rules : SendRules H P) (wallet : CWallet H P) (fOnlyConfirmed : Bool)
    (vecSend : List (CScript × Int64)) (setCoins : Finset (P × UInt32)) (wtxNew : CTransaction H)
    (nFeeRet : Int64) : Prop where
  /-- the coins are the wallet's -/
  available : ∀ coin ∈ setCoins,
    ∃ output ∈ wallet.AvailableCoins fOnlyConfirmed, output.coin = coin
  /-- each of them is an input once, and there is no other input -/
  inputs : (wtxNew.vin.map CTxIn.prevout : Multiset (COutPoint H)) =
    setCoins.val.map wallet.prevout
  distinct : (wtxNew.vin.map CTxIn.prevout).Nodup
  /-- the outputs are those of the payees and at most one for the change -/
  outputs : ∃ change : Option CTxOut, wtxNew.vout.Perm (payeeOutputs vecSend ++ change.toList)
  noDust : ∀ txout ∈ wtxNew.vout, rules.IsDust txout = false
  balance : ∑ coin ∈ setCoins, (coinValue wallet.mem coin).toInt =
    total wtxNew.vout + nFeeRet.toInt

variable {wallet : CWallet H P} {fOnlyConfirmed : Bool} {vecSend : List (CScript × Int64)}
  {nValue : Int64}

omit [DecidableEq P] in
/-- The coins of the wallet are of different outpoints. -/
theorem CWallet.prevout_inj {coin coin' : P × UInt32}
    (h : ∃ output ∈ wallet.AvailableCoins fOnlyConfirmed, output.coin = coin)
    (h' : ∃ output ∈ wallet.AvailableCoins fOnlyConfirmed, output.coin = coin')
    (heq : wallet.prevout coin = wallet.prevout coin') : coin = coin' := by
  obtain ⟨output, houtput, rfl⟩ := h
  obtain ⟨output', houtput', rfl⟩ := h'
  obtain ⟨hhash, hn⟩ := COutPoint.mk.inj heq
  exact Prod.ext (wallet.GetHash_inj _ (mem_AvailableCoins houtput).1 _
    (mem_AvailableCoins houtput').1 hhash) hn

/-- What the steps of a round have returned. -/
theorem fundRound_cases {choices : RoundChoices P} {wtxNew wtx : CTransaction H}
    {nFeeRet nFee : Int64} {setCoins : Finset (P × UInt32)}
    (h : fundRound rules wallet fOnlyConfirmed vecSend nValue choices wtxNew nFeeRet =
      .ok (setCoins, wtx, nFee)) :
    ∃ selection vout nChange, selection = SelectCoins wallet.mem rules.CENT choices.coins
        (nValue + nFeeRet) (wallet.AvailableCoins fOnlyConfirmed) ∧
      selection.fSelected = true ∧ setCoins = selection.setCoinsRet ∧
      (∀ txout ∈ payeeOutputs vecSend, rules.IsDust txout = false) ∧
      nChange = selection.nValueRet - nValue - nFeeRet ∧
      addChange rules choices (payeeOutputs vecSend) (nChange - nMoveToFee rules nChange nFeeRet)
        (nFeeRet + nMoveToFee rules nChange nFeeRet) = .ok (vout, nFee) ∧
      signInputs rules (rules.order setCoins) 0
        { wtxNew with
          vin := (rules.order setCoins).1.map fun coin => ⟨wallet.prevout coin, [], -1⟩
          vout } = some wtx := by
  unfold fundRound at h
  obtain ⟨hdust, h⟩ := ensure_bind_eq_ok_iff.1 h
  obtain ⟨hsel, h⟩ := ensure_bind_eq_ok_iff.1 h
  obtain ⟨⟨vout, nFee'⟩, hadd, h⟩ := bind_eq_ok_iff.1 h
  refine ⟨_, vout, (SelectCoins wallet.mem rules.CENT choices.coins (nValue + nFeeRet)
    (wallet.AvailableCoins fOnlyConfirmed)).nValueRet - nValue - nFeeRet, rfl, hsel, ?_⟩
  simp only [] at h
  split at h
  · rename_i hsign
    obtain ⟨rfl, hrest⟩ := Prod.mk.inj (Except.ok.inj h)
    obtain ⟨rfl, rfl⟩ := Prod.mk.inj hrest
    refine ⟨rfl, fun txout htxout => ?_, rfl, hadd, hsign⟩
    simpa using List.all_eq_true.1 hdust txout htxout
  · cases h

/-- The transaction of a round. -/
theorem fundRound_eq_ok (hrules : SumsFit rules) {MAX_MONEY : Int64}
    (hmoney : MAX_MONEY = 21000000 * COIN)
    (htotal : ((wallet.AvailableCoins fOnlyConfirmed).map fun output =>
      (coinValue wallet.mem output.coin).toInt).sum ≤ 2 ^ 62)
    (hvalue : nValue.toInt = total (payeeOutputs vecSend)) (hvalue0 : 0 ≤ nValue.toInt)
    (hvalueMax : nValue.toInt ≤ MAX_MONEY.toInt) {choices : RoundChoices P}
    {wtxNew wtx : CTransaction H} {nFeeRet nFee : Int64} (hfee : -2 ^ 61 ≤ nFeeRet.toInt)
    (hfee' : nFeeRet.toInt ≤ 2 ^ 61) {setCoins : Finset (P × UInt32)}
    (h : fundRound rules wallet fOnlyConfirmed vecSend nValue choices wtxNew nFeeRet =
      .ok (setCoins, wtx, nFee)) :
    Funds rules wallet fOnlyConfirmed vecSend setCoins wtx nFee ∧ nFeeRet.toInt ≤ nFee.toInt := by
  have hmax : MAX_MONEY.toInt = 2100000000000000 := by rw [hmoney]; decide
  have hpos := fun output (houtput : output ∈ wallet.AvailableCoins fOnlyConfirmed) =>
    (CWallet.mem_AvailableCoins houtput).2
  have hdistinct := wallet.nodup_AvailableCoins fOnlyConfirmed
  have hspend := spendable_eligibleCoins hdistinct hpos (htotal.trans_lt (by omega))
  obtain ⟨hCENT, hCENT', hsize, hpay, hpay', hmin, hGetMinFee⟩ := hrules
  have htarget : (nValue + nFeeRet).toInt = nValue.toInt + nFeeRet.toInt :=
    toInt_add ⟨by omega, by omega⟩
  have hcent : 0 < rules.CENT.toInt := Int64.lt_iff_toInt_lt.1 hCENT
  obtain ⟨selection, vout, nChange, hselect, hsel, rfl, hdust, hnChange, hadd, hsign⟩ :=
    fundRound_cases h
  obtain ⟨nConfMine, nConfTheirs, -, -, hselection⟩ := SelectCoins_selects hCENT
    ⟨by omega, by omega⟩ hdistinct hspend choices.coins (hselect ▸ hsel)
  rw [← hselect] at hselection
  have havailable : ∀ coin ∈ selection.setCoinsRet,
      ∃ output ∈ wallet.AvailableCoins fOnlyConfirmed, output.coin = coin := by
    intro coin hcoin
    have hcoin := eligibleCoins_subset _ _ _ (hselection.subset hcoin)
    rwa [List.mem_toFinset, List.mem_map] at hcoin
  have hin : selection.nValueRet.toInt ≤ 2 ^ 62 := by
    rw [hselection.value]
    exact (Finset.sum_le_sum_of_subset_of_nonneg hselection.subset
      fun coin hcoin _ => (hspend _ _).nonneg coin hcoin).trans
        ((sum_eligibleCoins_le hdistinct hpos _ _).trans htotal)
  have hreach := htarget ▸ hselection.reaches
  have hsub : (selection.nValueRet - nValue).toInt = selection.nValueRet.toInt - nValue.toInt :=
    toInt_sub ⟨by omega, by omega⟩
  have hchange : nChange.toInt =
      selection.nValueRet.toInt - nValue.toInt - nFeeRet.toInt := by
    rw [hnChange, toInt_sub ⟨by omega, by omega⟩, hsub]
  have hmove : 0 ≤ (nMoveToFee rules nChange nFeeRet).toInt ∧
      (nMoveToFee rules nChange nFeeRet).toInt ≤ nChange.toInt :=
    nMoveToFee_mem rules (by omega) fun _ => ⟨by omega, by omega⟩
  have hrest : (nChange - nMoveToFee rules nChange nFeeRet).toInt =
      nChange.toInt - (nMoveToFee rules nChange nFeeRet).toInt := toInt_sub ⟨by omega, by omega⟩
  have hraised : (nFeeRet + nMoveToFee rules nChange nFeeRet).toInt =
      nFeeRet.toInt + (nMoveToFee rules nChange nFeeRet).toInt := toInt_add ⟨by omega, by omega⟩
  obtain ⟨hle, change, hperm, hchangeDust, hbalance⟩ :=
    addChange_eq_ok (by omega) ⟨by omega, by omega⟩ hadd
  obtain ⟨hvin, hvout⟩ := signInputs_eq_some hsign
  replace hvin : (wtx.vin.map CTxIn.prevout) =
      (rules.order selection.setCoinsRet).1.map wallet.prevout := by
    rw [hvin]
    simp [Function.comp_def]
  replace hvout : wtx.vout = vout := hvout
  obtain ⟨hnd, hmem⟩ := (rules.order selection.setCoinsRet).2
  refine ⟨⟨havailable, ?_, ?_, ⟨change, hvout ▸ hperm⟩, ?_, ?_⟩, by omega⟩
  · rw [hvin, ← Multiset.map_coe]
    have hnodup := selection.setCoinsRet.nodup
    exact congrArg _ ((Multiset.Nodup.ext (Multiset.coe_nodup.2 hnd) hnodup).2 hmem)
  · rw [hvin]
    exact hnd.map_on fun coin hcoin coin' hcoin' heq => CWallet.prevout_inj
      (havailable coin ((hmem coin).1 hcoin)) (havailable coin' ((hmem coin').1 hcoin')) heq
  · intro txout htxout
    rw [hvout, hperm.mem_iff, List.mem_append] at htxout
    rcases htxout with htxout | htxout
    · exact hdust txout htxout
    · exact hchangeDust txout (Option.mem_toList.1 htxout)
  · rw [hvout, total_perm hperm, total_append, ← hvalue, ← hselection.value]
    omega

/-! ## The loop -/

omit [DecidableEq P] in
theorem le_nFeeNeeded (rules : SendRules H P) (setCoins : Finset (P × UInt32))
    (wtx : CTransaction H) :
    nPayFee rules wtx ≤ nFeeNeeded rules setCoins wtx ∧
      nMinFee rules setCoins wtx ≤ nFeeNeeded rules setCoins wtx := by
  unfold nFeeNeeded
  split_ifs with hless
  · exact ⟨Int64.le_of_lt hless, Int64.le_refl _⟩
  · exact ⟨Int64.le_refl _, Int64.not_lt.1 hless⟩

theorem mul_mem_of_le {t k b n : Int} (hlow : -b ≤ n * t) (hhigh : n * t ≤ b)
    (hk : 0 ≤ k) (hkn : k ≤ n) : -b ≤ t * k ∧ t * k ≤ b := by
  rcases le_total 0 t with ht | ht
  · have h0 : 0 ≤ t * k := mul_nonneg ht hk
    have hle : t * k ≤ t * n := mul_le_mul_of_nonneg_left hkn ht
    rw [mul_comm t n] at hle
    omega
  · have h0 : t * k ≤ 0 := mul_nonpos_of_nonpos_of_nonneg ht hk
    have hle : t * n ≤ t * k := mul_le_mul_of_nonpos_left hkn ht
    rw [mul_comm t n] at hle
    omega

omit [DecidableEq P] in
/-- The fee setting for each started kilobyte. -/
theorem toInt_nPayFee {wtx : CTransaction H}
    (h : Fits (rules.nTransactionFee.toInt * (1 + (rules.txSize wtx).toNat / 1000))) :
    (nPayFee rules wtx).toInt =
      rules.nTransactionFee.toInt * (1 + (rules.txSize wtx).toNat / 1000) := by
  have hlt := (rules.txSize wtx).toNat_lt
  have hfactor : (Int64.ofInt (1 + (rules.txSize wtx).toNat / 1000)).toInt =
      1 + (rules.txSize wtx).toNat / 1000 :=
    Int64.toInt_ofInt_of_le (by omega) (by omega)
  unfold nPayFee
  rw [toInt_mul (by rwa [hfactor]), hfactor]

omit [DecidableEq P] in
/-- The fee that a transaction of a standard size needs. -/
theorem nFeeNeeded_mem (hrules : SumsFit rules) (setCoins : Finset (P × UInt32))
    {wtx : CTransaction H} (hsize : rules.txSize wtx < rules.MAX_STANDARD_TX_SIZE) :
    -2 ^ 61 ≤ (nFeeNeeded rules setCoins wtx).toInt ∧
      (nFeeNeeded rules setCoins wtx).toInt ≤ 2 ^ 61 := by
  have hbytes : (rules.txSize wtx).toNat / 1000 ≤ 99 := by
    have hlt := UInt32.lt_iff_toNat_lt.1 hsize
    have hmax := hrules.MAX_STANDARD_TX_SIZE_le
    omega
  have hmul := mul_mem_of_le (k := 1 + (rules.txSize wtx).toNat / 1000)
    hrules.nTransactionFee_ge hrules.nTransactionFee_le (by omega) (by omega)
  have hfits : Fits (rules.nTransactionFee.toInt * (1 + (rules.txSize wtx).toNat / 1000)) :=
    ⟨by omega, by omega⟩
  have hpay := toInt_nPayFee hfits
  have hmin : (nMinFee rules setCoins wtx).toInt ≤ 2 ^ 61 := hrules.GetMinFee_le _ _
  unfold nFeeNeeded
  split_ifs with hless
  · rw [Int64.lt_iff_toInt_lt] at hless
    omega
  · omega

theorem bind_eq_error_iff {ε α β : Type} {x : Except ε α} {f : α → Except ε β} {e : ε} :
    x >>= f = .error e ↔ x = .error e ∨ ∃ a, x = .ok a ∧ f a = .error e := by
  cases x with
  | error e' =>
    constructor
    · exact fun h => .inl (congrArg Except.error (Except.error.inj h))
    · rintro (h | ⟨a, h, -⟩)
      · exact congrArg Except.error (Except.error.inj h)
      · cases h
  | ok a =>
    constructor
    · exact fun h => .inr ⟨a, rfl, h⟩
    · rintro (h | ⟨a', h, hf⟩)
      · cases h
      · cases h
        exact hf

theorem ensure_eq_error_iff {ε : Type} {ok : Bool} {e e' : ε} :
    ensure ok e = .error e' ↔ ok = false ∧ e' = e := by
  cases ok <;> simp [ensure, eq_comm]

theorem fundRound_ne_retry {choices : RoundChoices P} {wtxNew : CTransaction H}
    {nFeeRet nFee : Int64} :
    fundRound rules wallet fOnlyConfirmed vecSend nValue choices wtxNew nFeeRet ≠
      .error (.retry nFee) := by
  intro h
  unfold fundRound at h
  rcases bind_eq_error_iff.1 h with h | ⟨-, -, h⟩
  · cases (ensure_eq_error_iff.1 h).2
  rcases bind_eq_error_iff.1 h with h | ⟨-, -, h⟩
  · cases (ensure_eq_error_iff.1 h).2
  rcases bind_eq_error_iff.1 h with h | ⟨⟨vout, nFee'⟩, -, h⟩
  · unfold addChange at h
    split at h
    · split at h
      · cases h
      · simp only [] at h
        split at h <;> cases h
    · cases h
  · simp only [] at h
    split at h <;> cases h

/-- What a transaction that is returned is to be. -/
structure Pays (rules : SendRules H P) (wallet : CWallet H P) (fOnlyConfirmed : Bool)
    (vecSend : List (CScript × Int64)) (setCoins : Finset (P × UInt32)) (wtxNew : CTransaction H)
    (nFeeRet : Int64) : Prop
    extends Funds rules wallet fOnlyConfirmed vecSend setCoins wtxNew nFeeRet where
  nPayFee_le : nPayFee rules wtxNew ≤ nFeeRet
  nMinFee_le : nMinFee rules setCoins wtxNew ≤ nFeeRet

/-- The amounts of a payment: the payees' are in range, and no sum of the coins' wraps. -/
structure AmountsFit (rules : SendRules H P) (wallet : CWallet H P) (fOnlyConfirmed : Bool)
    (vecSend : List (CScript × Int64)) (MAX_MONEY : Int64) : Prop extends SumsFit rules where
  MAX_MONEY_eq : MAX_MONEY = 21000000 * COIN
  coins_le : ((wallet.AvailableCoins fOnlyConfirmed).map fun output =>
    (coinValue wallet.mem output.coin).toInt).sum ≤ 2 ^ 62
  payees_pos : ∀ s ∈ vecSend, 0 < s.2
  payees_le : (vecSend.map fun s => s.2.toInt).sum ≤ MAX_MONEY.toInt

variable {MAX_MONEY : Int64}

omit [DecidableEq P] in
theorem AmountsFit.nValue_eq (h : AmountsFit rules wallet fOnlyConfirmed vecSend MAX_MONEY)
    (hvalue : sumAmounts 0 vecSend = some nValue) :
    nValue.toInt = total (payeeOutputs vecSend) ∧ 0 ≤ nValue.toInt ∧
      nValue.toInt ≤ MAX_MONEY.toInt := by
  have hpos : ∀ s ∈ vecSend, 0 ≤ s.2.toInt :=
    fun s hs => (Int64.lt_iff_toInt_lt.1 (h.payees_pos s hs)).le
  have hnonneg : 0 ≤ (vecSend.map fun s => s.2.toInt).sum :=
    List.sum_nonneg (List.forall_mem_map.2 hpos)
  have hle := h.payees_le
  have hsum : nValue.toInt = (0 : Int64).toInt + (vecSend.map fun s => s.2.toInt).sum := by
    refine sumAmounts_eq hpos le_rfl ?_ hvalue
    exact (fits_toInt 0).of_le_of_le (fits_toInt MAX_MONEY) (by simpa using hnonneg)
      (by simpa using hle)
  rw [Int64.toInt_zero, zero_add] at hsum
  exact ⟨hsum.trans (total_payeeOutputs vecSend).symm, hsum ▸ hnonneg, hsum ▸ hle⟩

/-- A round returns a transaction that pays, or asks for a higher fee that is in range. -/
theorem createRound_spec (hfit : AmountsFit rules wallet fOnlyConfirmed vecSend MAX_MONEY)
    (hvalue : sumAmounts 0 vecSend = some nValue) (choices : RoundChoices P)
    (wtxNew : CTransaction H) {nFeeRet : Int64} (hfee : -2 ^ 61 ≤ nFeeRet.toInt)
    (hfee' : nFeeRet.toInt ≤ 2 ^ 61) :
    (∀ wtx nFee, createRound rules wallet fOnlyConfirmed vecSend nValue choices wtxNew nFeeRet =
        .ok (wtx, nFee) →
      ∃ setCoins, Pays rules wallet fOnlyConfirmed vecSend setCoins wtx nFee) ∧
      ∀ nFee, createRound rules wallet fOnlyConfirmed vecSend nValue choices wtxNew nFeeRet =
        .error (.retry nFee) →
      nFeeRet.toInt < nFee.toInt ∧ nFee.toInt ≤ 2 ^ 61 := by
  obtain ⟨hsum, hnonneg, hle⟩ := hfit.nValue_eq hvalue
  have hfund : ∀ {setCoins wtx nFee}, fundRound rules wallet fOnlyConfirmed vecSend nValue choices
      wtxNew nFeeRet = .ok (setCoins, wtx, nFee) →
      Funds rules wallet fOnlyConfirmed vecSend setCoins wtx nFee ∧ nFeeRet.toInt ≤ nFee.toInt :=
    fundRound_eq_ok hfit.toSumsFit hfit.MAX_MONEY_eq hfit.coins_le hsum hnonneg hle hfee hfee'
  constructor
  · intro wtx nFee h
    unfold createRound at h
    obtain ⟨⟨setCoins, wtx', nFee'⟩, hround, h⟩ := bind_eq_ok_iff.1 h
    obtain ⟨-, h⟩ := ensure_bind_eq_ok_iff.1 h
    obtain ⟨hneeded, h⟩ := ensure_bind_eq_ok_iff.1 h
    obtain ⟨rfl, rfl⟩ := Prod.mk.inj (pure_eq_ok_iff.1 h)
    have hneeded := of_decide_eq_true hneeded
    obtain ⟨hpay, hmin⟩ := le_nFeeNeeded rules setCoins wtx
    exact ⟨setCoins, (hfund hround).1, Int64.le_trans hpay hneeded, Int64.le_trans hmin hneeded⟩
  · intro nFee h
    unfold createRound at h
    rcases bind_eq_error_iff.1 h with h | ⟨⟨setCoins, wtx, nFee'⟩, hround, h⟩
    · exact absurd h fundRound_ne_retry
    rcases bind_eq_error_iff.1 h with h | ⟨⟨⟩, hsize, h⟩
    · cases (ensure_eq_error_iff.1 h).2
    rcases bind_eq_error_iff.1 h with h | ⟨-, -, h⟩
    · obtain ⟨hless, heq⟩ := ensure_eq_error_iff.1 h
      obtain rfl : nFee = nFeeNeeded rules setCoins wtx := RoundStop.retry.inj heq
      have hless := Int64.lt_iff_toInt_lt.1 (Int64.not_le.1 (of_decide_eq_false hless))
      have hmem := nFeeNeeded_mem hfit.toSumsFit setCoins
        (of_decide_eq_true (ensure_eq_ok.1 hsize))
      exact ⟨(hfund hround).2.trans_lt hless, hmem.2⟩
    · cases h

theorem createLoop_spec (hfit : AmountsFit rules wallet fOnlyConfirmed vecSend MAX_MONEY)
    (hvalue : sumAmounts 0 vecSend = some nValue) {choices : Nat → RoundChoices P}
    {wtxNew wtx : CTransaction H} {rounds round : Nat} {nFeeRet nFee : Int64}
    (hfee : -2 ^ 61 ≤ nFeeRet.toInt) (hfee' : nFeeRet.toInt ≤ 2 ^ 61)
    (h : createLoop rules wallet fOnlyConfirmed vecSend nValue choices wtxNew rounds round nFeeRet =
      some (.created wtx nFee)) :
    ∃ setCoins, Pays rules wallet fOnlyConfirmed vecSend setCoins wtx nFee := by
  induction rounds generalizing round nFeeRet with
  | zero => cases h
  | succ rounds ih =>
    obtain ⟨hok, hretry⟩ := createRound_spec hfit hvalue (choices round) wtxNew hfee hfee'
    unfold createLoop at h
    split at h
    · rename_i hround
      cases h
      exact hok _ _ hround
    · cases h
    · cases h
    · rename_i hround
      obtain ⟨hless, hle⟩ := hretry _ hround
      exact ih (hfee.trans hless.le) hle h

/-- Each round asks for a higher fee than the one before, so there is a last one. -/
theorem createLoop_ends (hfit : AmountsFit rules wallet fOnlyConfirmed vecSend MAX_MONEY)
    (hvalue : sumAmounts 0 vecSend = some nValue) (choices : Nat → RoundChoices P)
    (wtxNew : CTransaction H) (round : Nat) {nFeeRet : Int64} (hfee : -2 ^ 61 ≤ nFeeRet.toInt)
    (hfee' : nFeeRet.toInt ≤ 2 ^ 61) :
    ∃ rounds, (createLoop rules wallet fOnlyConfirmed vecSend nValue choices wtxNew rounds round
      nFeeRet).isSome := by
  induction hleft : (2 ^ 61 - nFeeRet.toInt).toNat using Nat.strong_induction_on
    generalizing round nFeeRet with
  | _ left ih =>
    have hretry := (createRound_spec hfit hvalue (choices round) wtxNew hfee hfee').2
    cases hround : createRound rules wallet fOnlyConfirmed vecSend nValue (choices round) wtxNew
        nFeeRet with
    | ok result => exact ⟨1, by simp [createLoop, hround]⟩
    | error stop =>
      cases stop with
      | failed strFailReason nFeeRet => exact ⟨1, by simp [createLoop, hround]⟩
      | assertFailed => exact ⟨1, by simp [createLoop, hround]⟩
      | retry nFee =>
        obtain ⟨hless, hle⟩ := hretry _ hround
        obtain ⟨rounds, hrounds⟩ := ih _ (by omega) (round + 1) (by omega) hle rfl
        exact ⟨rounds + 1, by simpa [createLoop, hround] using hrounds⟩

/-- The function returns. -/
theorem CreateTransaction_ends (hfit : AmountsFit rules wallet fOnlyConfirmed vecSend MAX_MONEY)
    (choices : Nat → RoundChoices P) (wtxNew : CTransaction H) (nFeeRet : Int64) :
    ∃ rounds, (CreateTransaction rules wallet fOnlyConfirmed vecSend choices wtxNew nFeeRet
      rounds).isSome := by
  have hlow := hfit.nTransactionFee_ge
  have hhigh := hfit.nTransactionFee_le
  unfold CreateTransaction
  split
  · rename_i hvalue
    exact createLoop_ends hfit hvalue choices wtxNew 0 (by omega) (by omega)
  · exact ⟨0, rfl⟩

/-- What is returned pays each payee once, from coins that are worth the outputs and the fee. -/
theorem CreateTransaction_pays
    (hfit : AmountsFit rules wallet fOnlyConfirmed vecSend MAX_MONEY)
    {choices : Nat → RoundChoices P} {wtxNew wtx : CTransaction H} {rounds : Nat}
    {nFeeRet nFee : Int64}
    (h : CreateTransaction rules wallet fOnlyConfirmed vecSend choices wtxNew nFeeRet rounds =
      some (.created wtx nFee)) :
    ∃ setCoins, Pays rules wallet fOnlyConfirmed vecSend setCoins wtx nFee := by
  have hlow := hfit.nTransactionFee_ge
  have hhigh := hfit.nTransactionFee_le
  unfold CreateTransaction at h
  split at h
  · rename_i hvalue
    exact createLoop_spec hfit hvalue (by omega) (by omega) h
  · cases h

end

/-! ## A run -/

/-- A wallet of one transaction with outputs of these values. -/
def oneTxWallet (values : List Int64) (h : values.length < 2 ^ 32) : CWallet Nat Unit where
  mapWallet := [()]
  mem _ := walletTx values
  nodup := List.nodup_singleton _
  GetHash_inj _ _ _ _ _ := rfl
  vout_lt _ _ := by simpa [walletTx] using h
  IsFinalTx _ := true
  IsConfirmed _ := true
  IsCoinBase _ := false
  GetBlocksToMaturity _ := 0
  GetDepthInMainChain _ := 6
  IsSpent _ _ := false
  IsMine _ := true
  IsLockedCoin _ _ := false

/-- A fee setting, and no fee that is asked for besides. -/
def plainRules (nTransactionFee : Int64) : SendRules Nat Unit where
  nTransactionFee := nTransactionFee
  nMinTxFee := 10000
  nMinRelayTxFee := 10000
  CENT := 1000000
  MAX_STANDARD_TX_SIZE := 100000
  txoutSize _ := 34
  txSize _ := 200
  AllowFree _ _ := true
  GetMinFee _ _ := 0
  SignSignature _ _ _ := some []
  order s := ⟨(s.image Prod.snd).sort.map fun i => ((), i), by
    refine ⟨(Finset.sort_nodup _ _).map fun i j h => congrArg Prod.snd h, fun c => ?_⟩
    simp only [List.mem_map, Finset.mem_sort, Finset.mem_image]
    constructor
    · rintro ⟨i, ⟨c', hc', rfl⟩, rfl⟩
      exact hc'
    · intro hc
      exact ⟨c.2, ⟨c, hc, rfl⟩, rfl⟩⟩

/-- Nothing is left to chance. -/
def plainRound : RoundChoices Unit where
  coins _ := plainChoices Unit
  GetReservedKey := some []
  GetRandInt := Fin.last

theorem CreateTransaction_pays_exactCoin :
    ∃ setCoins, Pays (plainRules 50000) (oneTxWallet [150000] (by decide)) true [([], 100000)]
      setCoins ⟨1, [⟨⟨0, 0⟩, [], -1⟩], [⟨100000, []⟩], 0⟩ 50000 := by
  refine CreateTransaction_pays (show AmountsFit _ _ _ _ (21000000 * COIN) from ?_)
    (show CreateTransaction _ _ true _ (fun _ => plainRound) ⟨1, [], [], 0⟩ 0 1 = _ from
      by decide +kernel)
  exact ⟨⟨by decide, by decide, by decide, by decide, by decide, by decide,
    fun _ _ => by show (0 : Int64).toInt ≤ 2 ^ 61; decide⟩, rfl, by decide, by decide, by decide⟩

/-- A fee setting that makes the amount and the fee wrap: no coin is selected for them. -/
theorem CreateTransaction_wraps :
    ∃ wtx nFee, CreateTransaction (plainRules (.ofInt (2 ^ 63 - 100000)))
        (oneTxWallet [] (by decide)) true [([], 100000)] (fun _ => plainRound) ⟨1, [], [], 0⟩ 0 1 =
        some (.created wtx nFee) ∧
      ∀ setCoins, ¬ Funds (plainRules (.ofInt (2 ^ 63 - 100000))) (oneTxWallet [] (by decide)) true
        [([], 100000)] setCoins wtx nFee := by
  refine ⟨⟨1, [], [⟨100000, []⟩], 0⟩, .ofInt (2 ^ 63 - 100000), by decide +kernel, ?_⟩
  intro setCoins h
  have hnone : setCoins = ∅ := by
    rw [← Finset.val_eq_zero, ← Multiset.map_eq_zero]
    exact h.inputs.symm
  have hbalance := h.balance
  rw [hnone, Finset.sum_empty] at hbalance
  exact absurd hbalance (by decide)

end TriTip
