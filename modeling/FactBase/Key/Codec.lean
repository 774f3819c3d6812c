import FactBase.Identifier
import FactBase.Key.IndexOrder
import FactBase.Key.Segment
/-!
# Key.Codec — stored facts as index keys

A key is the name of its index and five segments in that index's order, a separator before each.  Segments hold no
separator, so a key splits in one way only.
-/
namespace FactBase
namespace Key

def separator : Char := '!'

/-- Stands for a segment that is left open; such a key is shown, never stored. -/
def openSegment : String := "*"

/-- What every key of the index starts with. -/
def stem (index : IndexOrder) : String := index.name.push separator

/-- Parts with a separator between each two. -/
def join (parts : List String) : String := String.ofList ([separator].intercalate (parts.map String.toList))

def encode (index : IndexOrder) (segments : Tuple (Option String)) : String :=
  join (index.name :: index.order.map fun p => (segments.get p).getD openSegment)

/-- The index and the five segments, by position. -/
def split (key : String) : Except Key.Error (IndexOrder × Tuple String) :=
  match key.toList.splitOn separator with
  | [] => .error (.malformed key)
  | name :: segments =>
    match IndexOrder.ofName? (String.ofList name) with
    | none => .error (.unknownIndex (String.ofList name))
    | some index =>
      if segments.length = 5 then
        .ok (index, Tuple.ofFn fun p => String.ofList (segments.getD (index.slot p) []))
      else .error (.malformed key)

end Key

/-- A fact as a key holds it: identifiers in place of literals. -/
structure StoredFact where
  entity : Identifier
  attr : Identifier
  value : Identifier
  txn : TxnNumber
  operation : Bool
  deriving DecidableEq

namespace StoredFact

def segments (f : StoredFact) (txnSegment : String) : Tuple (Option String) where
  entity := some f.entity.segment
  attr := some f.attr.segment
  value := some f.value.segment
  txn := some txnSegment
  operation := some (Segment.ofOperation f.operation)

def encode (index : IndexOrder) (f : StoredFact) : Except Key.Error String :=
  (Segment.ofTxn f.txn).map fun txnSegment => Key.encode index (f.segments txnSegment)

/-- Reads a key of any index; of two bad segments the transaction is reported. -/
def decode (key : String) : Except Key.Error StoredFact := do
  let (_, segments) ← Key.split key
  let txn ← Segment.toTxn segments.txn
  let operation ← Segment.toOperation segments.operation
  return ⟨⟨segments.entity⟩, ⟨segments.attr⟩, ⟨segments.value⟩, txn, operation⟩

end StoredFact
end FactBase
