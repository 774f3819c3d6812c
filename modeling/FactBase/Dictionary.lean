import FactBase.Crc32
import FactBase.Identifier
import FactBase.Session
import FactBase.Text.Quoted
/-!
# Dictionary — identifiers for literals, and back

The dictionary lives in the store: the slot of an identifier holds the literal that it was issued for.  A literal has
a chain of sixteen candidate identifiers.  The first is the checksum of its bytes, each later one the checksum of its
bytes and the number of the attempt.  Registering takes the first slot of the chain that is free or already holds the
literal.  Looking up walks the same chain and ends at the first free slot, so a literal that was never registered is
told apart from one that collides.
-/
namespace FactBase

inductive Dictionary.Error where
  /-- The literal or the identifier has no slot. -/
  | notFound (text : String)
  /-- Other literals hold the whole chain. -/
  | probeLimit (literal : String)
  | store (cause : Store.Error)
  deriving DecidableEq

namespace Dictionary

def stem : String := "hash!"

def chainLength : Nat := 16

def candidate (literal : String) (attempt : Nat) : Identifier :=
  let bytes := Bytes.ofText literal
  .ofDigest (Crc32.checksum (if attempt = 0 then bytes else bytes ++ Bytes.ofWord attempt))

/-- The probe chain of a literal. -/
def chain (literal : String) : List Identifier := (List.range chainLength).map (candidate literal)

def slot (id : Identifier) : String := stem ++ id.segment

def read (id : Identifier) : Run Dictionary.Error (Option String) := (Run.get (slot id)).mapError .store

/-- Follows a chain to the slot of a literal. -/
def find (literal : String) : List Identifier → Run Dictionary.Error Identifier
  | [] => throw (.notFound literal)
  | id :: rest => do
    match ← read id with
    | some held => if held = literal then return id else find literal rest
    | none => throw (.notFound literal)

/-- Follows a chain to the slot of a literal, or to the first free one, which it fills. -/
def claim (literal : String) : List Identifier → Run Dictionary.Error Identifier
  | [] => throw (.probeLimit literal)
  | id :: rest => do
    match ← read id with
    | some held => if held = literal then return id else claim literal rest
    | none =>
      (Run.write [(slot id, literal)]).mapError .store
      return id

def idOf (literal : String) : Run Dictionary.Error Identifier := find literal (chain literal)

/-- The identifier of a literal, which is registered if it is not. -/
def register (literal : String) : Run Dictionary.Error Identifier := claim literal (chain literal)

/-- The literal that an identifier was issued for. -/
def literalOf (id : Identifier) : Run Dictionary.Error String := do
  match ← read id with
  | some literal => return literal
  | none => throw (.notFound id.segment)

end Dictionary

namespace Dictionary.Error

def message : Dictionary.Error → String
  | notFound text => "not found in hash dictionary: " ++ Quoted.render text
  | probeLimit literal =>
    "no free identifier for " ++ Quoted.render literal ++ " after " ++ Numeral.decimal Dictionary.chainLength ++
      " probes"
  | store cause => "dictionary store error: " ++ cause.message

def causes : Dictionary.Error → List String
  | store cause => cause.message :: cause.causes
  | _ => []

end Dictionary.Error
end FactBase
