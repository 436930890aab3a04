import TriTip.Block.Transaction
import TriTip.Lib.Lowest

/-!
# Replaced transactions

`CTransaction::IsNewerThan` (`core.h`): of two transactions that spend the same outputs, the newer
one is that whose lowest differing sequence number is higher. The pass over the inputs is the one of
`Lowest`, with the inputs of the transaction on the left.
-/

namespace TriTip

section

variable {H : Type}

variable [DecidableEq H]

end

end TriTip
