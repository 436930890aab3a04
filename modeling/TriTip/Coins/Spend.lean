import TriTip.Coins.Serialize
import TriTip.Lib.Blank

/-!
# Spending outputs

`CCoins::Spend` and `CTxInUndo` of `core.h`. Spending takes outputs out of a record, and `Cleanup`
drops the end of the record when it becomes null; the undo information of the last output has the
metadata of the record. Putting the outputs back in reverse order gives the record
(`spends_spec`), if its null outputs are as `SetNull` makes them.
-/

namespace TriTip

structure CTxInUndo where
  /-- the txout data before being spent -/
  txout : CTxOut
  /-- if the outpoint was the last unspent: whether it belonged to a coinbase -/
  fCoinBase : Bool
  /-- if the outpoint was the last unspent: its height -/
  nHeight : UInt32
  /-- if the outpoint was the last unspent: its version -/
  nVersion : Int32
  deriving DecidableEq

namespace CTxInUndo

/-- `CTxInUndo()`. -/
def new : CTxInUndo := ⟨.SetNull, false, 0, 0⟩

/-- `CTxInUndo(txout)`. -/
def ofTxOut (txout : CTxOut) : CTxInUndo := ⟨txout, false, 0, 0⟩

def code (undo : CTxInUndo) : UInt32 := undo.nHeight * 2 + (if undo.fCoinBase then 1 else 0)

variable (F : CoinFormat)

def Serialize (undo : CTxInUndo) : List UInt8 :=
  F.unsigned.write undo.code.toNat ++
    (if 0 < undo.nHeight then F.int.write undo.nVersion else []) ++
    F.CTxOutCompressor.write undo.txout

/-- The version, which is only there with a height. -/
def readVersion (nHeight : UInt32) (nVersion : Int32) : Parser Int32 :=
  if 0 < nHeight then F.int.read else pure nVersion

/-- `Unserialize` into `undo`. -/
def Unserialize (undo : CTxInUndo) : Parser CTxInUndo := do
  let nCode := UInt32.ofNat (← F.unsigned.read)
  let nHeight := nCode / 2
  let fCoinBase := nCode &&& 1 != 0
  let nVersion ← readVersion F nHeight undo.nVersion
  let txout ← F.CTxOutCompressor.read
  pure { txout, fCoinBase, nHeight, nVersion }

variable {F} {undo : CTxInUndo}

theorem code_spec (h : undo.nHeight.toNat < 2 ^ 31) :
    undo.code / 2 = undo.nHeight ∧ (undo.code &&& 1 != 0) = undo.fCoinBase := by
  have hcode : undo.code.toNat = undo.nHeight.toNat * 2 + (if undo.fCoinBase then 1 else 0) := by
    unfold code
    rw [UInt32.toNat_add, UInt32.toNat_mul]
    cases undo.fCoinBase
    · simp
      omega
    · simp
      omega
  constructor
  · rw [← UInt32.toNat_inj, UInt32.toNat_div, hcode]
    cases undo.fCoinBase
    · simp
    · simp
      omega
  · rw [Bool.eq_iff_iff, bne_iff_ne, Ne, ← UInt32.toNat_inj, UInt32.toNat_and, hcode]
    have hone : (1 : UInt32).toNat = 2 ^ 1 - 1 := rfl
    rw [hone, Nat.and_two_pow_sub_one_eq_mod]
    cases undo.fCoinBase <;> simp

/-- Undo information is read back; the version is left out with the height. -/
theorem Unserialize_Serialize_undo (hunsigned : ∀ n, F.unsigned.RoundTrips n)
    (hheight : undo.nHeight.toNat < 2 ^ 31) {old : CTxInUndo}
    (hold : undo.nHeight = 0 → undo.nVersion = old.nVersion)
    (hversion : undo.nHeight ≠ 0 → F.int.RoundTrips undo.nVersion)
    (htxout : F.CTxOutCompressor.RoundTrips undo.txout) (rest : List UInt8) :
    CTxInUndo.Unserialize F old (undo.Serialize F ++ rest) = some (undo, rest) := by
  obtain ⟨hdiv, hcoinbase⟩ := code_spec hheight
  unfold Serialize
  rw [List.append_assoc, List.append_assoc]
  refine Parser.bind_eq_some.2 ⟨undo.code.toNat, _, hunsigned _ _, ?_⟩
  rw [UInt32.ofNat_toNat, hdiv, hcoinbase]
  refine Parser.bind_eq_some.2 ⟨undo.nVersion, F.CTxOutCompressor.write undo.txout ++ rest, ?_,
    Parser.bind_eq_some.2 ⟨undo.txout, rest, htxout rest, rfl⟩⟩
  unfold readVersion
  by_cases hzero : undo.nHeight = 0
  · rw [hzero, hold hzero]
    rfl
  · have hpos : 0 < undo.nHeight := by
      rw [UInt32.lt_iff_toNat_lt]
      exact Nat.pos_of_ne_zero fun h => hzero (UInt32.toNat_inj.1 h)
    rw [if_pos hpos, if_pos hpos]
    exact hversion hzero _

end CTxInUndo

namespace CCoins

variable {H : Type}

/-- mark an outpoint spent, and construct undo information -/
def Spend (coins : CCoins) (out : COutPoint H) (undo : CTxInUndo) : Bool × CCoins × CTxInUndo :=
  match coins.vout[out.n.toNat]? with
  | none => (false, coins, undo)
  | some txout =>
    if txout.IsNull then (false, coins, undo)
    else
      let undo := CTxInUndo.ofTxOut txout
      let coins := Cleanup { coins with vout := coins.vout.set out.n.toNat .SetNull }
      if coins.vout.length = 0 then
        (true, coins,
          { undo with
            nHeight := coins.nHeight.toUInt32, fCoinBase := coins.fCoinBase
            nVersion := coins.nVersion })
      else (true, coins, undo)

/-- Outputs spent one after another: what each `Spend` gives. -/
def spends (hash : H) (coins : CCoins) : List UInt32 → List (Bool × CCoins × CTxInUndo)
  | [] => []
  | n :: ns =>
    let r := coins.Spend ⟨hash, n⟩ .new
    r :: spends hash r.2.1 ns

/-- The record that is left. -/
def spentAll (hash : H) (coins : CCoins) (ns : List UInt32) : CCoins :=
  ns.foldl (fun coins n => (coins.Spend ⟨hash, n⟩ .new).2.1) coins

/-- Put an output back, with the metadata if it was the last one. -/
def putBack (coins : CCoins) (n : Nat) (undo : CTxInUndo) : CCoins :=
  let coins :=
    if undo.nHeight = 0 then coins
    else { coins with
      fCoinBase := undo.fCoinBase, nHeight := undo.nHeight.toInt32, nVersion := undo.nVersion }
  { coins with
    vout :=
      (coins.vout ++ List.replicate (n + 1 - coins.vout.length) CTxOut.SetNull).set n undo.txout }

/-- Put outputs back in reverse order. -/
def putBackAll (coins : CCoins) (spent : List (UInt32 × CTxInUndo)) : CCoins :=
  spent.foldr (fun entry coins => coins.putBack entry.1.toNat entry.2) coins

/-! ## One output -/

/-- A record with one output less. -/
def blank (coins : CCoins) (n : Nat) : CCoins :=
  Cleanup { coins with vout := coins.vout.set n .SetNull }

variable (hash : H) {coins : CCoins} {n : UInt32}

/-- What is not available is not spent. -/
theorem spend_of_not_available (h : coins.IsAvailable n.toNat = false) (undo : CTxInUndo) :
    coins.Spend ⟨hash, n⟩ undo = (false, coins, undo) := by
  unfold IsAvailable at h
  unfold Spend
  split
  · rfl
  · next txout htx =>
    dsimp only at htx
    rw [htx] at h
    rw [if_pos (by simpa using h)]

/-- What is available is. -/
theorem spend_of_available (h : coins.IsAvailable n.toNat = true) (undo : CTxInUndo) :
    ∃ txout, coins.vout[n.toNat]? = some txout ∧ txout.IsNull = false ∧
      coins.Spend ⟨hash, n⟩ undo = (true, coins.blank n.toNat,
        if (coins.blank n.toNat).vout = [] then
          ⟨txout, coins.fCoinBase, coins.nHeight.toUInt32, coins.nVersion⟩
        else .ofTxOut txout) := by
  unfold IsAvailable at h
  rcases htx : coins.vout[n.toNat]? with _ | txout
  · rw [htx] at h
    cases h
  · rw [htx] at h
    have hnull : txout.IsNull = false := by simpa using h
    refine ⟨txout, rfl, hnull, ?_⟩
    unfold Spend
    dsimp only
    rw [htx]
    dsimp only
    rw [if_neg (by rw [hnull]; exact Bool.false_ne_true)]
    change (if (coins.blank n.toNat).vout.length = 0 then _ else _) = _
    by_cases hempty : (coins.blank n.toNat).vout = []
    · rw [if_pos hempty, if_pos (List.length_eq_zero_iff.2 hempty)]
      rfl
    · rw [if_neg hempty, if_neg (mt List.length_eq_zero_iff.1 hempty)]
      rfl

theorem cleanup_trimmed (coins : CCoins) : coins.Cleanup.Trimmed := by
  intro txout h
  have hne : coins.vout.rdropWhile CTxOut.IsNull ≠ [] := by
    intro hnil
    unfold Cleanup at h
    rw [hnil] at h
    cases h
  unfold Cleanup at h
  rw [List.getLast?_eq_some_getLast hne] at h
  rw [← Option.some.inj h, Bool.eq_false_iff]
  exact List.rdropWhile_last_not CTxOut.IsNull _ hne

theorem cleanup_nullsEmpty (h : coins.NullsEmpty) : coins.Cleanup.NullsEmpty := fun txout hmem =>
  h txout ((List.rdropWhile_prefix CTxOut.IsNull coins.vout).subset hmem)

theorem blank_trimmed (coins : CCoins) (n : Nat) : (coins.blank n).Trimmed :=
  cleanup_trimmed _

theorem blank_nullsEmpty (h : coins.NullsEmpty) (n : Nat) : (coins.blank n).NullsEmpty := by
  refine cleanup_nullsEmpty fun txout hmem hnull => ?_
  rcases List.mem_or_eq_of_mem_set hmem with hmem | rfl
  · exact h txout hmem hnull
  · rfl

theorem isAvailable_cleanup (coins : CCoins) (m : Nat) :
    coins.Cleanup.IsAvailable m = coins.IsAvailable m := by
  obtain ⟨w, hw, hnull⟩ := Blank.exists_blank_end CTxOut.IsNull coins.vout
  unfold IsAvailable Cleanup
  dsimp only
  conv_rhs => rw [hw]
  by_cases hlt : m < (coins.vout.rdropWhile CTxOut.IsNull).length
  · rw [List.getElem?_append_left hlt]
  · rw [List.getElem?_append_right (Nat.not_lt.1 hlt), List.getElem?_eq_none (Nat.not_lt.1 hlt)]
    rcases htx : w[m - (coins.vout.rdropWhile CTxOut.IsNull).length]? with _ | txout
    · rfl
    · dsimp only
      rw [hnull txout (List.mem_of_getElem? htx)]
      rfl

theorem isAvailable_blank (coins : CCoins) {n m : Nat} (h : m ≠ n) :
    (coins.blank n).IsAvailable m = coins.IsAvailable m := by
  unfold blank
  rw [isAvailable_cleanup]
  unfold IsAvailable
  dsimp only
  rw [List.getElem?_set_ne (Ne.symm h)]

theorem isPruned_iff (h : coins.Trimmed) : coins.IsPruned = true ↔ coins.vout = [] := by
  unfold IsPruned
  constructor
  · intro hall
    by_contra hne
    have hlast := h _ (List.getLast?_eq_some_getLast hne)
    rw [List.all_eq_true.1 hall _ (List.getLast_mem hne)] at hlast
    cases hlast
  · intro hnil
    rw [hnil]
    rfl

theorem height_ne_zero (h : 1 ≤ coins.nHeight) : coins.nHeight.toUInt32 ≠ 0 := by
  intro hzero
  have hz : coins.nHeight = 0 := by
    rw [← Int32.toInt32_toUInt32 coins.nHeight, hzero]
    rfl
  rw [hz] at h
  exact absurd h (by decide)

/-- What is spent is put back: the record as it was, from what is left of it, or from any record
without outputs if nothing is left. -/
theorem putBack_blank {txout : CTxOut} {start : CCoins} (htrimmed : coins.Trimmed)
    (hnull : coins.NullsEmpty) (hheight : 1 ≤ coins.nHeight) {n : Nat}
    (hn : coins.vout[n]? = some txout) (hvout : start.vout = (coins.blank n).vout)
    (hrest : (coins.blank n).vout ≠ [] → start = coins.blank n) :
    start.putBack n
      (if (coins.blank n).vout = [] then
        ⟨txout, coins.fCoinBase, coins.nHeight.toUInt32, coins.nVersion⟩
      else .ofTxOut txout) = coins := by
  obtain ⟨hlt, rfl⟩ := List.getElem?_eq_some_iff.1 hn
  have hback : (start.vout ++ List.replicate (n + 1 - start.vout.length) CTxOut.SetNull).set n
      coins.vout[n] = coins.vout := by
    rw [hvout]
    exact Blank.set_of_blanked rfl hlt htrimmed hnull
  unfold putBack
  by_cases hempty : (coins.blank n).vout = []
  · rw [if_pos hempty, if_neg (height_ne_zero hheight)]
    dsimp only
    rw [hback, Int32.toInt32_toUInt32]
  · obtain rfl := hrest hempty
    rw [if_neg hempty]
    unfold CTxInUndo.ofTxOut
    rw [if_pos rfl]
    dsimp only
    rw [hback]
    rfl

/-! ## Many outputs -/

theorem spentAll_cons (h : coins.IsAvailable n.toNat = true) (ns : List UInt32) :
    spentAll hash coins (n :: ns) = spentAll hash (coins.blank n.toNat) ns := by
  obtain ⟨txout, -, -, hspend⟩ := spend_of_available hash h .new
  unfold spentAll
  rw [List.foldl_cons, hspend]

/-- The other positions stay available. -/
theorem available_blank {ns : List UInt32} (hnodup : (n :: ns).Nodup)
    (havail : ∀ m ∈ n :: ns, coins.IsAvailable m.toNat = true) :
    ∀ m ∈ ns, (coins.blank n.toNat).IsAvailable m.toNat = true := by
  intro m hm
  rw [isAvailable_blank coins]
  · exact havail m (List.mem_cons_of_mem n hm)
  · intro heq
    rw [UInt32.toNat_inj] at heq
    exact (List.nodup_cons.1 hnodup).1 (heq ▸ hm)

/-- What is left when distinct available positions have been spent. -/
theorem spentAll_eq (htrimmed : coins.Trimmed) (ns : List UInt32) (hnodup : ns.Nodup)
    (havail : ∀ m ∈ ns, coins.IsAvailable m.toNat = true) :
    spentAll hash coins ns = { coins with
      vout :=
        ((ns.map UInt32.toNat).foldl (fun l n => l.set n CTxOut.SetNull) coins.vout).rdropWhile
          CTxOut.IsNull } := by
  induction ns generalizing coins with
  | nil =>
    change coins = { coins with vout := coins.vout.rdropWhile CTxOut.IsNull }
    rw [rdropWhile_of_trimmed htrimmed]
  | cons n ns ih =>
    rw [spentAll_cons hash (havail n List.mem_cons_self), ih (blank_trimmed coins n.toNat)
      (List.nodup_cons.1 hnodup).2 (available_blank hnodup havail)]
    unfold blank Cleanup
    dsimp only
    rw [Blank.rdropWhile_foldl_set CTxOut.IsNull_SetNull]
    rfl

/-- Whether a `Spend` of the run has the metadata of the record in its undo information. -/
def MetadataOf (coins : CCoins) (r : Bool × CCoins × CTxInUndo) : Prop :=
  (r.2.2.nHeight, r.2.2.fCoinBase, r.2.2.nVersion) =
    if r.2.1.IsPruned then (coins.nHeight.toUInt32, coins.fCoinBase, coins.nVersion)
    else (0, false, 0)

namespace MetadataOf

variable {r : Bool × CCoins × CTxInUndo}

/-- The undo information has the height and the version of the record, or zeros. -/
theorem height_version (h : MetadataOf coins r) :
    r.2.2.nHeight = coins.nHeight.toUInt32 ∧ r.2.2.nVersion = coins.nVersion ∨
      r.2.2.nHeight = 0 ∧ r.2.2.nVersion = 0 := by
  unfold MetadataOf at h
  split at h
  · obtain ⟨hheight, h⟩ := Prod.mk.inj h
    exact .inl ⟨hheight, (Prod.mk.inj h).2⟩
  · obtain ⟨hheight, h⟩ := Prod.mk.inj h
    exact .inr ⟨hheight, (Prod.mk.inj h).2⟩

theorem height_lt (h : MetadataOf coins r) (hheight : 1 ≤ coins.nHeight) :
    r.2.2.nHeight.toNat < 2 ^ 31 := by
  rcases h.height_version with ⟨heq, -⟩ | ⟨heq, -⟩
  · have hpos : 0 ≤ coins.nHeight := Int32.le_trans (by decide) hheight
    have hlt := Int32.toInt_lt coins.nHeight
    rw [heq, Int32.toNat_toUInt32_of_le hpos]
    unfold Int32.toNatClampNeg
    omega
  · rw [heq]
    decide

theorem version_of_zero (h : MetadataOf coins r) (hheight : 1 ≤ coins.nHeight)
    (hzero : r.2.2.nHeight = 0) : r.2.2.nVersion = CTxInUndo.new.nVersion := by
  rcases h.height_version with ⟨heq, -⟩ | ⟨-, heq⟩
  · exact absurd (heq.symm.trans hzero) (height_ne_zero hheight)
  · exact heq

theorem roundTrips {F : CoinFormat} (h : MetadataOf coins r)
    (hint : F.int.RoundTrips coins.nVersion) (hne : r.2.2.nHeight ≠ 0) :
    F.int.RoundTrips r.2.2.nVersion := by
  rcases h.height_version with ⟨-, heq⟩ | ⟨hzero, -⟩
  · rw [heq]
    exact hint
  · exact absurd hzero hne

end MetadataOf

/-- Each `Spend` of a run succeeds, and has the metadata if it prunes the record. -/
theorem spends_each (ns : List UInt32) (hnodup : ns.Nodup)
    (havail : ∀ m ∈ ns, coins.IsAvailable m.toNat = true) :
    ∀ r ∈ spends hash coins ns, r.1 = true ∧ MetadataOf coins r ∧ r.2.2.txout.IsNull = false := by
  induction ns generalizing coins with
  | nil => exact nofun
  | cons n ns ih =>
    obtain ⟨txout, -, hnull, hspend⟩ :=
      spend_of_available hash (havail n List.mem_cons_self) .new
    unfold spends
    dsimp only
    rw [hspend]
    refine List.forall_mem_cons.2 ⟨⟨rfl, ?_, ?_⟩, ?_⟩
    · unfold MetadataOf
      dsimp only
      by_cases hempty : (coins.blank n.toNat).vout = []
      · rw [if_pos hempty, if_pos ((isPruned_iff (blank_trimmed coins _)).2 hempty)]
      · rw [if_neg hempty, if_neg (mt (isPruned_iff (blank_trimmed coins _)).1 hempty)]
        rfl
    · dsimp only
      split
      · exact hnull
      · exact hnull
    · exact ih (List.nodup_cons.1 hnodup).2 (available_blank hnodup havail)

/-- Putting all outputs back gives the record. -/
theorem putBackAll_spends (htrimmed : coins.Trimmed) (hnull : coins.NullsEmpty)
    (hheight : 1 ≤ coins.nHeight) (ns : List UInt32) (hnodup : ns.Nodup)
    (havail : ∀ m ∈ ns, coins.IsAvailable m.toNat = true) (start : CCoins)
    (hstart : start = spentAll hash coins ns ∨
      ns ≠ [] ∧ (spentAll hash coins ns).vout = [] ∧ start.vout = []) :
    putBackAll start (ns.zip ((spends hash coins ns).map fun r => r.2.2)) = coins := by
  induction ns generalizing coins with
  | nil =>
    rcases hstart with rfl | ⟨hne, -⟩
    · rfl
    · exact absurd rfl hne
  | cons n ns ih =>
    have hn := havail n List.mem_cons_self
    obtain ⟨txout, htx, -, hspend⟩ := spend_of_available hash hn .new
    rw [spentAll_cons hash hn] at hstart
    unfold spends
    dsimp only
    rw [hspend, List.map_cons, List.zip_cons_cons]
    unfold putBackAll
    rw [List.foldr_cons]
    dsimp only
    have ih := ih (blank_trimmed coins n.toNat) (blank_nullsEmpty hnull n.toNat) hheight
      (List.nodup_cons.1 hnodup).2 (available_blank hnodup havail)
    rcases ns with _ | ⟨m, ns⟩
    · -- the last output: the record that is left, or any record without outputs
      change start.putBack n.toNat _ = coins
      change start = coins.blank n.toNat ∨ _ ∧ (coins.blank n.toNat).vout = [] ∧ start.vout = []
        at hstart
      rcases hstart with rfl | ⟨-, hempty, hstart⟩
      · exact putBack_blank htrimmed hnull hheight htx rfl fun _ => rfl
      · exact putBack_blank htrimmed hnull hheight htx (hstart.trans hempty.symm)
          fun hne => absurd hempty hne
    · have hrest := ih (hstart.imp_right fun h => ⟨List.cons_ne_nil m ns, h.2⟩)
      unfold putBackAll at hrest
      rw [hrest]
      exact putBack_blank htrimmed hnull hheight htx rfl fun _ => rfl

end CCoins

/-- **Spending outputs and putting them back.** Of a record without null outputs at the end,
distinct available positions are spent in any order: every `Spend` succeeds, an unavailable
position is refused, the record that is left only depends on which positions they are, and the
`Spend` that prunes the record is the one that has its metadata. The undo information is read back
from its bytes, and if the null outputs of the record are as `SetNull` makes them, putting the
outputs back in reverse order gives the record, from what is left or, if that is nothing, from any
record without outputs. -/
theorem spends_spec {H : Type} (F : CoinFormat) (hunsigned : ∀ n, F.unsigned.RoundTrips n)
    (htxout : ∀ txout : CTxOut, txout.IsNull = false → F.CTxOutCompressor.RoundTrips txout)
    (hash : H) (coins : CCoins) (hint : F.int.RoundTrips coins.nVersion) (htrimmed : coins.Trimmed)
    (hheight : 1 ≤ coins.nHeight) (ns : List UInt32) (hnodup : ns.Nodup)
    (havail : ∀ n ∈ ns, coins.IsAvailable n.toNat = true) :
    (∀ r ∈ CCoins.spends hash coins ns, r.1 = true) ∧
    (∀ (left : CCoins) (n : UInt32) (undo : CTxInUndo), left.IsAvailable n.toNat = false →
      left.Spend ⟨hash, n⟩ undo = (false, left, undo)) ∧
    (∀ ns' : List UInt32, ns'.Nodup → (∀ n, n ∈ ns' ↔ n ∈ ns) →
      CCoins.spentAll hash coins ns' = CCoins.spentAll hash coins ns) ∧
    (∀ r ∈ CCoins.spends hash coins ns, CCoins.MetadataOf coins r) ∧
    (∀ r ∈ CCoins.spends hash coins ns, ∀ rest,
      CTxInUndo.Unserialize F .new (r.2.2.Serialize F ++ rest) = some (r.2.2, rest)) ∧
    (coins.NullsEmpty → ∀ start : CCoins,
      start = CCoins.spentAll hash coins ns ∨
        ns ≠ [] ∧ (CCoins.spentAll hash coins ns).vout = [] ∧ start.vout = [] →
      CCoins.putBackAll start (ns.zip ((CCoins.spends hash coins ns).map fun r => r.2.2)) =
        coins) := by
  have heach := CCoins.spends_each hash ns hnodup havail
  refine ⟨fun r hr => (heach r hr).1,
    fun left n undo h => CCoins.spend_of_not_available hash h undo, fun ns' hnodup' hsame => ?_,
    fun r hr => (heach r hr).2.1, fun r hr rest => ?_, fun hnull start hstart =>
    CCoins.putBackAll_spends hash htrimmed hnull hheight ns hnodup havail start hstart⟩
  · have havail' : ∀ n ∈ ns', coins.IsAvailable n.toNat = true :=
      fun n hn => havail n ((hsame n).1 hn)
    have hmap : ∀ n, n ∈ ns'.map UInt32.toNat ↔ n ∈ ns.map UInt32.toNat := by
      intro n
      simp only [List.mem_map, hsame]
    rw [CCoins.spentAll_eq hash htrimmed ns' hnodup' havail',
      CCoins.spentAll_eq hash htrimmed ns hnodup havail, Blank.foldl_set_congr hmap]
  · obtain ⟨-, hmeta, hnull⟩ := heach r hr
    exact CTxInUndo.Unserialize_Serialize_undo hunsigned (hmeta.height_lt hheight)
      (hmeta.version_of_zero hheight) (hmeta.roundTrips hint) (htxout _ hnull) rest

theorem spends_spec_twoOfThree :
    (∀ r ∈ CCoins.spends 0 CCoins.twoOfThree [2, 0], r.1 = true) ∧
    (∀ (left : CCoins) (n : UInt32) (undo : CTxInUndo), left.IsAvailable n.toNat = false →
      left.Spend ⟨0, n⟩ undo = (false, left, undo)) ∧
    (∀ ns' : List UInt32, ns'.Nodup → (∀ n, n ∈ ns' ↔ n ∈ [2, 0]) →
      CCoins.spentAll 0 CCoins.twoOfThree ns' = CCoins.spentAll 0 CCoins.twoOfThree [2, 0]) ∧
    (∀ r ∈ CCoins.spends 0 CCoins.twoOfThree [2, 0], CCoins.MetadataOf .twoOfThree r) ∧
    (∀ r ∈ CCoins.spends 0 CCoins.twoOfThree [2, 0], ∀ rest,
      CTxInUndo.Unserialize .small .new (r.2.2.Serialize .small ++ rest) = some (r.2.2, rest)) ∧
    (CCoins.twoOfThree.NullsEmpty → ∀ start : CCoins,
      start = CCoins.spentAll 0 CCoins.twoOfThree [2, 0] ∨
        [2, 0] ≠ ([] : List UInt32) ∧ (CCoins.spentAll 0 CCoins.twoOfThree [2, 0]).vout = [] ∧
          start.vout = [] →
      CCoins.putBackAll start
        ([2, 0].zip ((CCoins.spends 0 CCoins.twoOfThree [2, 0]).map fun r => r.2.2)) =
          .twoOfThree) :=
  spends_spec .small CoinFormat.number_roundTrips (fun txout _ => CoinFormat.small_txout txout)
    (0 : Nat) .twoOfThree (CoinFormat.small_int 1 (by decide))
    (fun txout h => by rw [← Option.some.inj h]; rfl) (by decide) [2, 0] (by decide)
    (List.forall_mem_cons.2 ⟨rfl, List.forall_mem_cons.2 ⟨rfl, nofun⟩⟩)

/-- A null output with a script, below an output with another amount. -/
def CCoins.scriptOfNull (scriptPubKey : List UInt8) : CCoins where
  fCoinBase := false
  vout := [⟨-1, scriptPubKey⟩, ⟨0, []⟩]
  nHeight := 1
  nVersion := 1

/-- The script of a null output is in no undo information: two records that differ in it give the
same undo information and leave the same record. -/
theorem nulls_not_recovered :
    CCoins.Trimmed (.scriptOfNull [1]) ∧ CCoins.Trimmed (.scriptOfNull []) ∧
    1 ≤ (CCoins.scriptOfNull [1]).nHeight ∧ 1 ≤ (CCoins.scriptOfNull []).nHeight ∧
    (CCoins.scriptOfNull [1]).IsAvailable 1 = true ∧ (CCoins.scriptOfNull []).IsAvailable 1 = true ∧
    CCoins.spends (0 : Nat) (.scriptOfNull [1]) [1] = CCoins.spends 0 (.scriptOfNull []) [1] ∧
    CCoins.scriptOfNull [1] ≠ .scriptOfNull [] :=
  ⟨fun txout h => by rw [← Option.some.inj h]; rfl, fun txout h => by rw [← Option.some.inj h]; rfl,
    by decide, by decide, by decide, by decide, by decide, by decide⟩

end TriTip
