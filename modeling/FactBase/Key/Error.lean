import FactBase.Text.Numeral
import FactBase.Value
/-!
# Key.Error — what can be wrong with a key
-/
namespace FactBase

inductive Key.Error where
  /-- An index name is there, but not five segments after it. -/
  | malformed (key : String)
  /-- The name is no ordering of the five position letters. -/
  | unknownIndex (name : String)
  /-- The transaction segment is not six base-36 digits. -/
  | invalidTransaction (segment : String)
  /-- The operation segment is neither of the two flags. -/
  | invalidOperation (segment : String)
  /-- The transaction number needs more digits than the segment has. -/
  | transactionOutOfRange (txn : TxnNumber)
  deriving DecidableEq

/-- The largest transaction number that six base-36 digits can hold. -/
def maxTxn : TxnNumber := 2176782335

def Key.Error.message : Key.Error → String
  | .malformed key => "malformed index key: " ++ key
  | .unknownIndex name => "unknown index name: " ++ name
  | .invalidTransaction segment => "invalid transaction segment: " ++ segment
  | .invalidOperation segment => "invalid operation segment: " ++ segment
  | .transactionOutOfRange txn =>
    "transaction id " ++ Numeral.decimal txn.toNat ++ " exceeds the largest encodable id " ++
      Numeral.decimal maxTxn.toNat

end FactBase
