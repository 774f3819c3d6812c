import FactBase.Key.Error
/-!
# Key.Segment — the transaction and operation segments

A transaction is six base-36 digits with leading zeros, so segments sort as the numbers do.  An operation is one digit.
-/
namespace FactBase
namespace Segment

def ofTxn (txn : TxnNumber) : Except Key.Error String :=
  if txn ≤ maxTxn then .ok (String.ofList (Numeral.fixed 36 6 txn.toNat))
  else .error (.transactionOutOfRange txn)

def toTxn (segment : String) : Except Key.Error TxnNumber :=
  if segment.toList.length = 6 then
    match Numeral.read? 36 segment.toList with
    | some n => .ok (UInt64.ofNat n)
    | none => .error (.invalidTransaction segment)
  else .error (.invalidTransaction segment)

def ofOperation : Bool → String
  | true => "1"
  | false => "0"

def toOperation (segment : String) : Except Key.Error Bool :=
  if segment = "1" then .ok true
  else if segment = "0" then .ok false
  else .error (.invalidOperation segment)

theorem toOperation_ofOperation (b : Bool) : toOperation (ofOperation b) = .ok b := by cases b <;> rfl

end Segment
end FactBase
