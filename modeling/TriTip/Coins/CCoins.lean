import TriTip.Block.Transaction
import TriTip.Lib.ByteSet
import TriTip.Lib.Codec

/-!
# Coin records

`CCoins` of `core.h`: the unspent outputs of a transaction. A spent output is null, and null
outputs at the end are dropped. The bytes of a record start with a code and a mask of the outputs
that are there; the mask ends with its last byte that is not zero, and the code has the number of
such bytes. `VARINT` and the parts of `CTxOutCompressor` are not in the tree. A record has fewer
outputs than an `int` counts, so that the code does not overflow.
-/

namespace TriTip

namespace CTxOut

/-- The output that `SetNull` makes. -/
def SetNull : CTxOut := ⟨-1, []⟩

def IsNull (txout : CTxOut) : Bool := txout.nValue = -1

@[simp] theorem IsNull_SetNull : SetNull.IsNull = true := rfl

end CTxOut

structure CCoins where
  /-- whether transaction is a coinbase -/
  fCoinBase : Bool
  /-- unspent transaction outputs; spent outputs are .IsNull(); spent outputs at the end of the
  array are dropped -/
  vout : List CTxOut
  /-- at which height this transaction was included in the active block chain -/
  nHeight : Int32
  nVersion : Int32
  deriving DecidableEq

/-- The encodings that records are made of. -/
structure CoinFormat where
  /-- `VARINT` of an `int` -/
  int : Codec Int32
  /-- `VARINT` of an `unsigned int` -/
  unsigned : Codec Nat
  CTxOutCompressor : Codec CTxOut

namespace CCoins

/-- `CCoins()`. -/
def new : CCoins := ⟨false, [], 0, 0⟩

/-- remove spent outputs at the end of vout -/
def Cleanup (coins : CCoins) : CCoins := { coins with vout := coins.vout.rdropWhile CTxOut.IsNull }

def IsAvailable (coins : CCoins) (nPos : Nat) : Bool :=
  match coins.vout[nPos]? with
  | some txout => !txout.IsNull
  | none => false

def IsPruned (coins : CCoins) : Bool := coins.vout.all CTxOut.IsNull

/-- The loop of `CalcMaskSize` from byte `b` of the mask on. -/
def calcMask (coins : CCoins) : (turns b nLastUsedByte nNonzeroBytes : Nat) → Nat × Nat
  | 0, _, nLastUsedByte, nNonzeroBytes => (nLastUsedByte, nNonzeroBytes)
  | turns + 1, b, nLastUsedByte, nNonzeroBytes =>
    if 2 + b * 8 < coins.vout.length then
      let fZero := (List.range 8).all fun i => !coins.IsAvailable (2 + b * 8 + i)
      if !fZero then calcMask coins turns (b + 1) (b + 1) (nNonzeroBytes + 1)
      else calcMask coins turns (b + 1) nLastUsedByte nNonzeroBytes
    else (nLastUsedByte, nNonzeroBytes)

/-- calculate number of bytes for the bitmask, and its number of non-zero bytes -/
def CalcMaskSize (coins : CCoins) : Nat × Nat := coins.calcMask coins.vout.length 0 0 0

/-- The header code. -/
def headerCode (coins : CCoins) (nMaskCode : Nat) : Nat :=
  let fFirst := coins.IsAvailable 0
  let fSecond := coins.IsAvailable 1
  8 * (nMaskCode - (if fFirst || fSecond then 0 else 1)) + (if coins.fCoinBase then 1 else 0) +
    (if fFirst then 2 else 0) + (if fSecond then 4 else 0)

/-- Byte `b` of the spentness bitmask. -/
def maskByte (coins : CCoins) (b : Nat) : UInt8 :=
  ByteSet.byteOf fun i => coins.IsAvailable (2 + b * 8 + i)

section

variable (F : CoinFormat)

/-- `Serialize`; `none` if the assert fails. -/
def Serialize (coins : CCoins) : Option (List UInt8) :=
  let (nMaskSize, nMaskCode) := coins.CalcMaskSize
  if coins.IsAvailable 0 || coins.IsAvailable 1 || nMaskCode != 0 then
    some (F.int.write coins.nVersion ++
      F.unsigned.write (coins.headerCode nMaskCode) ++
      (List.range nMaskSize).map coins.maskByte ++
      (coins.vout.filter fun txout => !txout.IsNull).flatMap F.CTxOutCompressor.write ++
      F.int.write coins.nHeight)
  else none

/-- The outputs that are available; the others are null. -/
def readOutputs : List Bool → Parser (List CTxOut)
  | [] => pure []
  | true :: vAvail => do
    let txout ← F.CTxOutCompressor.read
    let vout ← readOutputs vAvail
    pure (txout :: vout)
  | false :: vAvail => do
    let vout ← readOutputs vAvail
    pure (.SetNull :: vout)

def Unserialize : Parser CCoins := do
  let nVersion ← F.int.read
  let nCode ← F.unsigned.read
  let fCoinBase := nCode &&& 1 != 0
  let vAvail := [nCode &&& 2 != 0, nCode &&& 4 != 0]
  let nMaskCode := nCode / 8 + (if nCode &&& 6 != 0 then 0 else 1)
  let vAvail ← ByteSet.readNonzero nMaskCode vAvail
  let vout ← readOutputs F vAvail
  let nHeight ← F.int.read
  pure (CCoins.Cleanup { fCoinBase, vout, nHeight, nVersion })

end

/-! ## The mask -/

variable {coins : CCoins}

theorem maskByte_eq_zero_iff {b : Nat} :
    coins.maskByte b = 0 ↔ ∀ i < 8, coins.IsAvailable (2 + b * 8 + i) = false :=
  ByteSet.byteOf_eq_zero_iff

/-- What `CalcMaskSize` finds: the mask ends with a byte that is not zero, the bytes after it are
zero, and the number of bytes that are not zero is right. -/
structure MaskSize (coins : CCoins) (nBytes nNonzeroBytes : Nat) : Prop where
  count : nNonzeroBytes = ((List.range nBytes).map coins.maskByte).countP (· ≠ 0)
  last : ∀ b, nBytes = b + 1 → coins.maskByte b ≠ 0
  after : ∀ b, nBytes ≤ b → coins.maskByte b = 0

end CCoins

end TriTip
