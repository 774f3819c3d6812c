import FactBase.Text.Numeral
/-!
# Value — what patterns mention and answers hold

Entities, attributes and values are texts, transactions are numbers, and the operation of a fact is a truth value:
`true` asserts, `false` retracts.
-/
namespace FactBase

/-- The number of a transaction; the first one is 1. -/
abbrev TxnNumber := UInt64

inductive Value where
  | boolean (b : Bool)
  | integer (n : TxnNumber)
  | text (s : String)
  deriving DecidableEq

namespace Value

def asText? : Value → Option String
  | text s => some s
  | _ => none

def asInteger? : Value → Option TxnNumber
  | integer n => some n
  | _ => none

def asBoolean? : Value → Option Bool
  | boolean b => some b
  | _ => none

/-- The bare spelling: a text stands for itself. -/
def render : Value → String
  | boolean true => "true"
  | boolean false => "false"
  | integer n => Numeral.decimal n.toNat
  | text s => s

end Value
end FactBase
