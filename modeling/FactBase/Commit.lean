import FactBase.Dictionary
import FactBase.Key.Codec
/-!
# Commit — writing facts as transactions

A transaction takes the number after the last one.  It registers entity, attribute and value of each of its rows, in
order, and then writes one key for each row in a single batch; so a transaction that fails has at most registered
literals.  Metadata is asserted on an entity of the transaction's own, named by its segment.  The last number is not
stored: opening finds the highest one among the stored keys.
-/
namespace FactBase

/-- A fact to be written; `operation` is false for a retraction. -/
structure Row where
  entity : String
  attr : String
  value : String
  operation : Bool
  deriving DecidableEq

structure Transaction where
  facts : List Row
  /-- Attributes and values of the transaction itself. -/
  metadata : List (String × String)
  deriving DecidableEq

namespace Transaction

def isEmpty (t : Transaction) : Bool := t.facts.isEmpty && t.metadata.isEmpty

/-- The facts that the transaction writes when its segment is given. -/
def rows (t : Transaction) (txnSegment : String) : List Row :=
  t.facts ++ t.metadata.map fun (attr, value) => ⟨txnSegment, attr, value, true⟩

end Transaction

inductive Commit.Error where
  | emptyTransaction
  | key (cause : Key.Error)
  | dictionary (cause : Dictionary.Error)
  | store (cause : Store.Error)
  deriving DecidableEq

namespace Commit.Error

def message : Commit.Error → String
  | emptyTransaction => "transaction has no facts"
  | key cause => "key error: " ++ cause.message
  | dictionary cause => "dictionary error: " ++ cause.message
  | store cause => "store error: " ++ cause.message

def causes : Commit.Error → List String
  | emptyTransaction => []
  | key cause => [cause.message]
  | dictionary cause => cause.message :: cause.causes
  | store cause => cause.message :: cause.causes

end Commit.Error

namespace Commit

def index : IndexOrder := .eavto

def registerLiteral (literal : String) : Run Commit.Error Identifier :=
  (Dictionary.register literal).mapError .dictionary

def encodeRow (txn : TxnNumber) (txnSegment : String) (row : Row) : Run Commit.Error String := do
  let entity ← registerLiteral row.entity
  let attr ← registerLiteral row.attr
  let value ← registerLiteral row.value
  return Key.encode index (StoredFact.segments ⟨entity, attr, value, txn, row.operation⟩ txnSegment)

def encodeRows (txn : TxnNumber) (txnSegment : String) : List Row → Run Commit.Error (List String)
  | [] => return []
  | row :: rows => do
    let key ← encodeRow txn txnSegment row
    let keys ← encodeRows txn txnSegment rows
    return key :: keys

/-- Writes a transaction after the last one and gives its number. -/
def run (lastTxn : TxnNumber) (t : Transaction) : Run Commit.Error TxnNumber := do
  if t.isEmpty then throw .emptyTransaction
  let txn := lastTxn + 1
  let txnSegment ← Run.ofExcept ((Segment.ofTxn txn).mapError .key)
  let keys ← encodeRows txn txnSegment (t.rows txnSegment)
  (Run.write (keys.map fun key => (key, ""))).mapError .store
  Run.tell (.committed txn t.facts.length t.metadata.length keys.length)
  return txn

/-- The highest transaction number in keys, or the error of the first key that cannot be read. -/
def highestTxn (keys : List String) : Except Key.Error TxnNumber :=
  keys.foldlM (fun highest key => (StoredFact.decode key).map fun f => max highest f.txn) 0

/-- Finds the last transaction number among the stored keys.  A bad key is reported before an error that breaks off
the scan behind it. -/
def recover : Run Commit.Error TxnNumber := do
  let (keys, fault) ← Run.scan (.under (Key.stem index))
  let lastTxn ← Run.ofExcept ((highestTxn keys).mapError .key)
  match fault with
  | some cause => throw (.store cause)
  | none =>
    Run.tell (.recoveredTransaction lastTxn)
    return lastTxn

end Commit
end FactBase
