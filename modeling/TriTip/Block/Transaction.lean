import Mathlib

/-!
# Transactions

`COutPoint`, `CTxIn`, `CTxOut` and `CTransaction` of `core.h`, and `CheckTransaction`
(`bitcoin_messages_handlers.cpp`). The hashes are of any type: `uint256` is not in the tree, and
what is proved about trees of hashes assumes that they do not collide.
-/

namespace TriTip

abbrev CScript := List UInt8

structure COutPoint (H : Type) where
  hash : H
  n : UInt32
  deriving DecidableEq

structure CTxIn (H : Type) where
  prevout : COutPoint H
  scriptSig : CScript
  nSequence : UInt32
  deriving DecidableEq

structure CTxOut where
  nValue : Int64
  scriptPubKey : CScript
  deriving DecidableEq

structure CTransaction (H : Type) where
  nVersion : Int32
  vin : List (CTxIn H)
  vout : List CTxOut
  nLockTime : UInt32
  deriving DecidableEq

section

variable {H : Type} [Zero H] [DecidableEq H]

def COutPoint.IsNull (prevout : COutPoint H) : Bool :=
  prevout.hash = 0 ∧ prevout.n = -1

def CTransaction.IsCoinBase (tx : CTransaction H) : Bool :=
  match tx.vin with
  | [txin] => txin.prevout.IsNull
  | _ => false

end

/-- The tests of `CheckTransaction`, by what they say. -/
inductive TransactionError where
  | vinEmpty
  | voutEmpty
  | sizeLimits
  | nValueNegative
  | nValueTooHigh
  | totalOutOfRange
  | duplicateInputs
  | coinbaseScriptSize
  | prevoutNull
  deriving DecidableEq

/-- The first argument of `state.DoS`. -/
def TransactionError.nDoS : TransactionError → Int32
  | .vinEmpty => 10
  | .voutEmpty => 10
  | .prevoutNull => 10
  | _ => 100

/-- What the tests of transactions and blocks use of `main.h`, `script.h`, `serialize.h` and
`bignum.h`. -/
structure Consensus (H : Type) where
  /-- of two hashes one after the other -/
  Hash : H → H → H
  txHash : CTransaction H → H
  txSize : CTransaction H → Nat
  GetSigOpCount : CScript → UInt32
  MAX_BLOCK_SIZE : Nat
  MAX_BLOCK_SIGOPS : UInt32
  MAX_MONEY : Int64

/-- Test a condition. -/
def ensure {ε : Type} (ok : Bool) (e : ε) : Except ε Unit := if ok then .ok () else .error e

@[simp] theorem ensure_eq_ok {ε : Type} {ok : Bool} {e : ε} :
    ensure ok e = .ok () ↔ ok = true := by
  cases ok <;> simp [ensure]

/-- A computation that succeeds has succeeded in its first part. -/
theorem exists_of_bind_eq_ok {ε α β : Type} {x : Except ε α} {f : α → Except ε β} {b : β}
    (h : x >>= f = .ok b) : ∃ a, x = .ok a ∧ f a = .ok b := by
  cases x with
  | error e => cases h
  | ok a => exact ⟨a, rfl, h⟩

section

variable {H : Type} [Zero H] [DecidableEq H] (R : Consensus H)

/-- One output, onto the total so far. -/
def addOutput (nValueOut : Int64) (txout : CTxOut) : Except TransactionError Int64 := do
  ensure (!txout.nValue < 0) .nValueNegative
  ensure (!R.MAX_MONEY < txout.nValue) .nValueTooHigh
  let nValueOut := nValueOut + txout.nValue
  ensure (0 ≤ nValueOut ∧ nValueOut ≤ R.MAX_MONEY) .totalOutOfRange
  return nValueOut

/-- One input, with the outpoints before it. -/
def addInput (vInOutPoints : List (COutPoint H)) (txin : CTxIn H) :
    Except TransactionError (List (COutPoint H)) := do
  ensure (!vInOutPoints.contains txin.prevout) .duplicateInputs
  return txin.prevout :: vInOutPoints

def CheckTransaction (tx : CTransaction H) : Except TransactionError Unit := do
  ensure (!tx.vin.isEmpty) .vinEmpty
  ensure (!tx.vout.isEmpty) .voutEmpty
  ensure (!R.MAX_BLOCK_SIZE < R.txSize tx) .sizeLimits
  -- Check for negative or overflow output values
  let _ ← tx.vout.foldlM (addOutput R) 0
  -- Check for duplicate inputs
  let _ ← tx.vin.foldlM addInput []
  if tx.IsCoinBase then
    let nSize := (tx.vin.head?.map fun txin => txin.scriptSig.length).getD 0
    ensure (!(nSize < 2 || 100 < nSize)) .coinbaseScriptSize
  else ensure (tx.vin.all fun txin => !txin.prevout.IsNull) .prevoutNull

end

end TriTip
