import TriTip.Block.MerkleTree

/-!
# What `CheckTransaction` accepts

The outputs are added up in an `int64`. As each amount is at most `MAX_MONEY` when it is added, and
the total so far is in range, no sum wraps before it is refused (`addOutput_no_overflow`); so the
tests are those of the exact sum (`CheckTransaction_iff`).
-/

namespace TriTip

def COIN : Int64 := 100000000

theorem bind_eq_ok_iff {ε α β : Type} {x : Except ε α} {f : α → Except ε β} {b : β} :
    x >>= f = .ok b ↔ ∃ a, x = .ok a ∧ f a = .ok b := by
  refine ⟨exists_of_bind_eq_ok, ?_⟩
  rintro ⟨a, rfl, h⟩
  exact h

theorem pure_eq_ok_iff {ε α : Type} {a b : α} : (pure a : Except ε α) = .ok b ↔ b = a := by
  rw [eq_comm (a := b)]
  exact Except.ok.injEq a b ▸ Iff.rfl

theorem ensure_bind_eq_ok_iff {ε β : Type} {ok : Bool} {e : ε} {f : Unit → Except ε β} {b : β} :
    ensure ok e >>= f = .ok b ↔ ok = true ∧ f () = .ok b := by
  rw [bind_eq_ok_iff]
  refine ⟨?_, fun h => ⟨(), ensure_eq_ok.2 h.1, h.2⟩⟩
  rintro ⟨⟨⟩, hok, h⟩
  exact ⟨ensure_eq_ok.1 hok, h⟩

theorem foldlM_concat_eq_ok_iff {ε σ α : Type} {step : σ → α → Except ε σ} {s s' : σ} {l : List α}
    {a : α} :
    (l ++ [a]).foldlM step s = .ok s' ↔ ∃ t, l.foldlM step s = .ok t ∧ step t a = .ok s' := by
  rw [List.foldlM_append, bind_eq_ok_iff]
  simp only [List.foldlM_cons, List.foldlM_nil, bind_pure]

/-! ## The outputs -/

section

variable {H : Type} {R : Consensus H}

/-- The exact sum of the amounts. -/
def total (vout : List CTxOut) : Int := (vout.map fun txout => txout.nValue.toInt).sum

/-- `MoneyRange`. -/
def Consensus.MoneyRange (R : Consensus H) (nValue : Int64) : Prop :=
  0 ≤ nValue ∧ nValue ≤ R.MAX_MONEY

/-- Two amounts in range do not wrap. -/
def Consensus.Summable (R : Consensus H) : Prop := 2 * R.MAX_MONEY.toInt < 2 ^ 63

theorem Consensus.summable_of_eq (h : R.MAX_MONEY = 21000000 * COIN) : R.Summable := by
  unfold Consensus.Summable
  rw [h]
  decide

theorem toInt_add_of_moneyRange (hsum : R.Summable) {a b : Int64} (ha : R.MoneyRange a)
    (hb : R.MoneyRange b) : (a + b).toInt = a.toInt + b.toInt := by
  unfold Consensus.Summable at hsum
  obtain ⟨ha0, ha⟩ := ha
  obtain ⟨hb0, hb⟩ := hb
  rw [Int64.le_iff_toInt_le] at ha0 ha hb0 hb
  change 0 ≤ a.toInt at ha0
  change 0 ≤ b.toInt at hb0
  rw [Int64.toInt_add]
  exact Int.bmod_eq_of_le (by omega) (by omega)

theorem addOutput_eq_ok {nValueOut nValueOut' : Int64} {txout : CTxOut} :
    addOutput R nValueOut txout = .ok nValueOut' ↔
      R.MoneyRange txout.nValue ∧ R.MoneyRange (nValueOut + txout.nValue) ∧
        nValueOut' = nValueOut + txout.nValue := by
  unfold addOutput Consensus.MoneyRange
  simp only [ensure_bind_eq_ok_iff, Bool.not_eq_true', decide_eq_false_iff_not, Int64.not_lt,
    decide_eq_true_eq, pure_eq_ok_iff]
  tauto

/-- One output more: the total in range is still exact. -/
theorem addOutput_no_overflow (hsum : R.Summable) {vout : List CTxOut} {nValueOut : Int64}
    (h : vout.foldlM (addOutput R) 0 = .ok nValueOut) {txout : CTxOut}
    (hin : R.MoneyRange txout.nValue) (hzero : R.MoneyRange 0) :
    nValueOut.toInt = total vout ∧
      (nValueOut + txout.nValue).toInt = nValueOut.toInt + txout.nValue.toInt := by
  suffices hrun : R.MoneyRange nValueOut ∧ nValueOut.toInt = total vout from
    ⟨hrun.2, toInt_add_of_moneyRange hsum hrun.1 hin⟩
  induction vout using List.reverseRecOn generalizing nValueOut with
  | nil =>
    cases h
    exact ⟨hzero, rfl⟩
  | append_singleton vout last ih =>
    obtain ⟨before, hbefore, h⟩ := foldlM_concat_eq_ok_iff.1 h
    obtain ⟨hrange, hexact⟩ := ih hbefore
    obtain ⟨hlast, hsum', rfl⟩ := addOutput_eq_ok.1 h
    refine ⟨hsum', ?_⟩
    rw [toInt_add_of_moneyRange hsum hrange hlast, hexact]
    unfold total
    rw [List.map_append, List.sum_append, List.map_singleton, List.sum_singleton]

/-- The amounts are accepted if and only if each is in range and their exact sum is. -/
theorem foldlM_addOutput_isOk_iff (hsum : R.Summable) (hzero : R.MoneyRange 0)
    (vout : List CTxOut) :
    (∃ nValueOut, vout.foldlM (addOutput R) 0 = .ok nValueOut) ↔
      (∀ txout ∈ vout, R.MoneyRange txout.nValue) ∧ total vout ≤ R.MAX_MONEY.toInt := by
  induction vout using List.reverseRecOn with
  | nil =>
    refine ⟨fun _ => ⟨nofun, ?_⟩, fun _ => ⟨0, rfl⟩⟩
    exact Int64.le_iff_toInt_le.1 hzero.2
  | append_singleton vout last ih =>
    have htotal : total (vout ++ [last]) = total vout + last.nValue.toInt := by
      unfold total
      rw [List.map_append, List.sum_append, List.map_singleton, List.sum_singleton]
    rw [List.forall_mem_append, List.forall_mem_singleton, htotal]
    constructor
    · rintro ⟨nValueOut, h⟩
      obtain ⟨before, hbefore, h⟩ := foldlM_concat_eq_ok_iff.1 h
      obtain ⟨hlast, hrange, -⟩ := addOutput_eq_ok.1 h
      obtain ⟨hexact, hadd⟩ := addOutput_no_overflow hsum hbefore hlast hzero
      refine ⟨⟨(ih.1 ⟨before, hbefore⟩).1, hlast⟩, ?_⟩
      rw [← hexact, ← hadd]
      exact Int64.le_iff_toInt_le.1 hrange.2
    · rintro ⟨⟨hvout, hlast⟩, hle⟩
      have hpos : 0 ≤ last.nValue.toInt := Int64.le_iff_toInt_le.1 hlast.1
      obtain ⟨before, hbefore⟩ := ih.2 ⟨hvout, by omega⟩
      obtain ⟨hexact, hadd⟩ := addOutput_no_overflow hsum hbefore hlast hzero
      have hnonneg : 0 ≤ total vout := by
        refine List.sum_nonneg fun n hn => ?_
        obtain ⟨txout, hmem, rfl⟩ := List.mem_map.1 hn
        exact Int64.le_iff_toInt_le.1 (hvout txout hmem).1
      refine ⟨before + last.nValue, foldlM_concat_eq_ok_iff.2 ⟨before, hbefore, ?_⟩⟩
      refine addOutput_eq_ok.2 ⟨hlast, ⟨?_, ?_⟩, rfl⟩
      · rw [Int64.le_iff_toInt_le, hadd, hexact]
        exact Int.add_nonneg hnonneg hpos
      · rw [Int64.le_iff_toInt_le, hadd, hexact]
        exact hle

end

/-! ## The inputs -/

section

variable {H : Type} [DecidableEq H]

theorem addInput_eq_ok {vInOutPoints vInOutPoints' : List (COutPoint H)} {txin : CTxIn H} :
    addInput vInOutPoints txin = .ok vInOutPoints' ↔
      txin.prevout ∉ vInOutPoints ∧ vInOutPoints' = txin.prevout :: vInOutPoints := by
  unfold addInput
  rw [ensure_bind_eq_ok_iff, pure_eq_ok_iff]
  simp

/-- The inputs are accepted if and only if their outpoints are distinct. -/
theorem foldlM_addInput_isOk_iff {vin : List (CTxIn H)} {vInOutPoints : List (COutPoint H)} :
    (∃ seen, vin.foldlM addInput vInOutPoints = .ok seen) ↔
      (vin.map fun txin => txin.prevout).Nodup ∧
        ∀ txin ∈ vin, txin.prevout ∉ vInOutPoints := by
  induction vin generalizing vInOutPoints with
  | nil => exact ⟨fun _ => ⟨List.nodup_nil, nofun⟩, fun _ => ⟨_, rfl⟩⟩
  | cons txin vin ih =>
    rw [List.map_cons, List.nodup_cons, List.forall_mem_cons]
    constructor
    · rintro ⟨seen, h⟩
      rw [List.foldlM_cons, bind_eq_ok_iff] at h
      obtain ⟨next, hnext, h⟩ := h
      obtain ⟨hnew, rfl⟩ := addInput_eq_ok.1 hnext
      obtain ⟨hnodup, hfresh⟩ := ih.1 ⟨seen, h⟩
      refine ⟨⟨fun hmem => ?_, hnodup⟩, hnew, fun other hother hmem => ?_⟩
      · obtain ⟨other, hother, heq⟩ := List.mem_map.1 hmem
        exact hfresh other hother (heq ▸ List.mem_cons_self)
      · exact hfresh other hother (List.mem_cons_of_mem _ hmem)
    · rintro ⟨⟨hnotin, hnodup⟩, hnew, hfresh⟩
      have hfresh' : ∀ other ∈ vin, other.prevout ∉ txin.prevout :: vInOutPoints := by
        intro other hother hmem
        rcases List.mem_cons.1 hmem with heq | hmem
        · exact hnotin (heq ▸ List.mem_map_of_mem hother)
        · exact hfresh other hother hmem
      obtain ⟨seen, h⟩ := ih.2 ⟨hnodup, hfresh'⟩
      refine ⟨seen, ?_⟩
      rw [List.foldlM_cons, bind_eq_ok_iff]
      exact ⟨_, addInput_eq_ok.2 ⟨hnew, rfl⟩, h⟩

variable [Zero H]

theorem CTransaction.isCoinBase_iff {tx : CTransaction H} :
    tx.IsCoinBase = true ↔ ∃ txin, tx.vin = [txin] ∧ txin.prevout.IsNull = true := by
  unfold CTransaction.IsCoinBase
  split
  next txin h => simp [h]
  next h =>
    refine ⟨nofun, ?_⟩
    rintro ⟨txin, hvin, -⟩
    exact (h txin hvin).elim

/-- The tests that depend on whether the transaction is a coinbase. -/
theorem coinbaseTests_iff {tx : CTransaction H} :
    (if tx.IsCoinBase then
      ensure (!((tx.vin.head?.map fun txin => txin.scriptSig.length).getD 0 < 2 ||
        100 < (tx.vin.head?.map fun txin => txin.scriptSig.length).getD 0)) .coinbaseScriptSize
    else ensure (tx.vin.all fun txin => !txin.prevout.IsNull) .prevoutNull :
      Except TransactionError Unit) = .ok () ↔
    (tx.IsCoinBase = true ∧
      ∀ txin ∈ tx.vin, 2 ≤ txin.scriptSig.length ∧ txin.scriptSig.length ≤ 100) ∨
    ∀ txin ∈ tx.vin, txin.prevout.IsNull = false := by
  split
  next hcoinbase =>
    obtain ⟨txin, hvin, hnull⟩ := CTransaction.isCoinBase_iff.1 hcoinbase
    have hsize : (tx.vin.head?.map fun txin => txin.scriptSig.length).getD 0 =
        txin.scriptSig.length := by
      rw [hvin]
      rfl
    rw [ensure_eq_ok, hsize, hvin, List.forall_mem_singleton, List.forall_mem_singleton]
    simp [hcoinbase, hnull, Nat.succ_le_iff]
  next hcoinbase =>
    rw [ensure_eq_ok]
    simp [hcoinbase]

end

/-- The tests one after the other. -/
theorem CheckTransaction_eq_ok_iff {H : Type} [Zero H] [DecidableEq H] (R : Consensus H)
    (tx : CTransaction H) :
    CheckTransaction R tx = .ok () ↔
      tx.vin ≠ [] ∧ tx.vout ≠ [] ∧ R.txSize tx ≤ R.MAX_BLOCK_SIZE ∧
      (∃ nValueOut, tx.vout.foldlM (addOutput R) 0 = .ok nValueOut) ∧
      (∃ seen, tx.vin.foldlM addInput [] = .ok seen) ∧
      ((tx.IsCoinBase = true ∧
        ∀ txin ∈ tx.vin, 2 ≤ txin.scriptSig.length ∧ txin.scriptSig.length ≤ 100) ∨
      ∀ txin ∈ tx.vin, txin.prevout.IsNull = false) := by
  have hempty : ∀ {α : Type} (l : List α), (!l.isEmpty) = true ↔ l ≠ [] := by
    intro α l
    rw [Bool.not_eq_true', ← Bool.not_eq_true, List.isEmpty_iff]
  unfold CheckTransaction
  rw [ensure_bind_eq_ok_iff, ensure_bind_eq_ok_iff, ensure_bind_eq_ok_iff, bind_eq_ok_iff, hempty,
    hempty, Bool.not_eq_true', decide_eq_false_iff_not, Nat.not_lt]
  simp only [bind_eq_ok_iff (x := tx.vin.foldlM addInput []), coinbaseTests_iff, exists_and_right]

/-- **`CheckTransaction` says what a well-formed transaction is**: the sum of its amounts is the
exact one, for no output list does the `int64` total wrap before the list is refused. -/
theorem CheckTransaction_iff {H : Type} [Zero H] [DecidableEq H] (R : Consensus H)
    (hmoney : R.MAX_MONEY = 21000000 * COIN) :
    (∀ tx : CTransaction H, CheckTransaction R tx = .ok () ↔
      tx.vin ≠ [] ∧ tx.vout ≠ [] ∧ R.txSize tx ≤ R.MAX_BLOCK_SIZE ∧
      (∀ txout ∈ tx.vout, 0 ≤ txout.nValue ∧ txout.nValue ≤ R.MAX_MONEY) ∧
      (tx.vout.map fun txout => txout.nValue.toInt).sum ≤ R.MAX_MONEY.toInt ∧
      (tx.vin.map fun txin => txin.prevout).Nodup ∧
      ((tx.IsCoinBase = true ∧
        ∀ txin ∈ tx.vin, 2 ≤ txin.scriptSig.length ∧ txin.scriptSig.length ≤ 100) ∨
      ∀ txin ∈ tx.vin, txin.prevout.IsNull = false)) ∧
    ∀ (vout : List CTxOut) (nValueOut : Int64) (txout : CTxOut),
      vout.foldlM (addOutput R) 0 = .ok nValueOut →
      0 ≤ txout.nValue → txout.nValue ≤ R.MAX_MONEY →
        nValueOut.toInt = (vout.map fun txout => txout.nValue.toInt).sum ∧
        (nValueOut + txout.nValue).toInt = nValueOut.toInt + txout.nValue.toInt := by
  have hsum := Consensus.summable_of_eq hmoney
  have hzero : R.MoneyRange 0 := ⟨by decide, by rw [hmoney]; decide⟩
  refine ⟨fun tx => ?_, fun vout nValueOut txout h hnonneg hle =>
    addOutput_no_overflow hsum h ⟨hnonneg, hle⟩ hzero⟩
  have houtputs := foldlM_addOutput_isOk_iff hsum hzero tx.vout
  have hinputs : (∃ seen, tx.vin.foldlM addInput [] = .ok seen) ↔
      (tx.vin.map fun txin => txin.prevout).Nodup := by
    rw [foldlM_addInput_isOk_iff]
    simp
  rw [CheckTransaction_eq_ok_iff, houtputs, hinputs, and_assoc]
  exact Iff.rfl

/-- A transaction with one input and one output. -/
theorem CheckTransaction_iff_simple :
    CheckTransaction .numbers (CTransaction.simple 5 0 0) = .ok () :=
  ((CheckTransaction_iff .numbers rfl).1 (.simple 5 0 0)).2 (by decide)

end TriTip
