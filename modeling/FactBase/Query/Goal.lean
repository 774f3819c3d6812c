import FactBase.Dictionary
import FactBase.Key.Codec
import FactBase.Pattern
/-!
# Query.Goal — a pattern with its literals resolved

Each element of a pattern becomes a term: blank, a variable, or a literal together with the segment that keys hold for
it.  Texts go through the dictionary; transactions and operations have segments of their own.  A literal that no key
can hold is unknown, whether it was never registered or is a transaction number that no segment can hold.
-/
namespace FactBase

inductive Term where
  | blank
  | var (name : String)
  | concrete (value : Value) (segment : String)
  deriving DecidableEq

namespace Term

def isBlank : Term → Bool
  | blank => true
  | _ => false

def variableName? : Term → Option String
  | var name => some name
  | _ => none

def segment? : Term → Option String
  | concrete _ segment => some segment
  | _ => none

end Term

/-- One term for each position. -/
abbrev Goal := Tuple Term

inductive Query.Error where
  /-- A pattern has more elements than a fact has positions. -/
  | patternTooLong (count : Nat)
  /-- A literal has a type that its position never holds. -/
  | illTyped (position : Position)
  | unknownLiteral (text : String)
  /-- The dictionary has no literal for a stored identifier. -/
  | dictionary (cause : Dictionary.Error)
  | key (cause : Key.Error)
  | store (cause : Store.Error)
  deriving DecidableEq

namespace Query.Error

def message : Query.Error → String
  | patternTooLong count =>
    "invalid argument: pattern has " ++ Numeral.decimal count ++ " elements, at most " ++
      Numeral.decimal Pattern.capacity ++ " allowed"
  | illTyped position => "invalid type at " ++ position.name
  | unknownLiteral text => "not found: " ++ text
  | dictionary cause => "dictionary error: " ++ cause.message
  | key cause => "key error: " ++ cause.message
  | store cause => "store error: " ++ cause.message

def causes : Query.Error → List String
  | patternTooLong _ | illTyped _ | unknownLiteral _ => []
  | dictionary cause => cause.message :: cause.causes
  | key cause => [cause.message]
  | store cause => cause.message :: cause.causes

/-- A failed look-up of a literal: one that has no slot is unknown. -/
def ofForward : Dictionary.Error → Query.Error
  | .notFound text => unknownLiteral text
  | .store cause => store cause
  | cause => dictionary cause

/-- A failed look-up of a stored identifier: one that has no literal is a broken dictionary, never an empty answer. -/
def ofReverse : Dictionary.Error → Query.Error
  | .store cause => store cause
  | cause => dictionary cause

end Query.Error

namespace Goal

def openPlaces (g : Goal) : List (Position × String) :=
  Position.all.filterMap fun p => (g.get p).variableName?.map (p, ·)

/-- Whether only the newest fact of each entity and attribute is asked for: the transaction is left blank. -/
def wantsNewest (g : Goal) : Bool := g.txn.isBlank

/-- The segment under which a literal is stored at a position. -/
def segmentOf (p : Position) (value : Value) : Run Query.Error String :=
  match p, value with
  | .entity, .text s | .attr, .text s | .value, .text s => do
    let id ← (Dictionary.idOf s).mapError Query.Error.ofForward
    return id.segment
  | .txn, .integer n =>
    Run.ofExcept ((Segment.ofTxn n).mapError fun _ => .unknownLiteral (Value.integer n).render)
  | .operation, .boolean b => return Segment.ofOperation b
  | p, _ => throw (.illTyped p)

def termOf (pattern : Pattern) (p : Position) : Run Query.Error Term :=
  match pattern.element p with
  | .blank => return .blank
  | .var name => return .var name
  | .literal value => do
    let segment ← segmentOf p value
    return .concrete value segment

/-- Resolves the elements in tuple order, up to the first that fails. -/
def ofPattern (pattern : Pattern) : Run Query.Error Goal := do
  if pattern.isTooLong then throw (.patternTooLong pattern.elements.length)
  let entity ← termOf pattern .entity
  let attr ← termOf pattern .attr
  let value ← termOf pattern .value
  let txn ← termOf pattern .txn
  let operation ← termOf pattern .operation
  return ⟨entity, attr, value, txn, operation⟩

end Goal
end FactBase
