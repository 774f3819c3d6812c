/-!
# Position — the five places of a fact, and tuples over them

A fact is an entity, an attribute, a value, the transaction that wrote it and its operation, always in this order.
Whatever has one component for each place (a goal's terms, a key's segments) is a `Tuple`, read by position.
-/
namespace FactBase

inductive Position where
  | entity
  | attr
  | value
  | txn
  | operation
  deriving DecidableEq

namespace Position

def all : List Position := [entity, attr, value, txn, operation]

def index : Position → Nat
  | entity => 0
  | attr => 1
  | value => 2
  | txn => 3
  | operation => 4

/-- The letter that stands for the position in the name of an index. -/
def letter : Position → Char
  | entity => 'e'
  | attr => 'a'
  | value => 'v'
  | txn => 't'
  | operation => 'o'

def ofLetter? : Char → Option Position
  | 'e' => some entity
  | 'a' => some attr
  | 'v' => some value
  | 't' => some txn
  | 'o' => some operation
  | _ => none

/-- Whether literals at the position are stored under an identifier of the dictionary. -/
def isHashed : Position → Bool
  | entity | attr | value => true
  | txn | operation => false

def name : Position → String
  | entity => "entity (0)"
  | attr => "attribute (1)"
  | value => "value (2)"
  | txn => "transaction (3)"
  | operation => "operation (4)"

theorem ofLetter?_letter (p : Position) : ofLetter? p.letter = some p := by cases p <;> rfl

theorem mem_all (p : Position) : p ∈ all := by cases p <;> decide

end Position

/-- One component for each position. -/
structure Tuple (α : Type) where
  entity : α
  attr : α
  value : α
  txn : α
  operation : α
  deriving DecidableEq

namespace Tuple

variable {α β : Type}

def get (t : Tuple α) : Position → α
  | .entity => t.entity
  | .attr => t.attr
  | .value => t.value
  | .txn => t.txn
  | .operation => t.operation

def ofFn (f : Position → α) : Tuple α :=
  ⟨f .entity, f .attr, f .value, f .txn, f .operation⟩

def map (f : α → β) (t : Tuple α) : Tuple β := ofFn fun p => f (t.get p)

@[simp] theorem get_ofFn (f : Position → α) (p : Position) : (ofFn f).get p = f p := by cases p <;> rfl

@[simp] theorem get_map (f : α → β) (t : Tuple α) (p : Position) : (t.map f).get p = f (t.get p) := get_ofFn _ p

theorem ext_get {t u : Tuple α} (h : ∀ p, t.get p = u.get p) : t = u := by
  obtain ⟨e, a, v, x, o⟩ := t
  obtain ⟨e', a', v', x', o'⟩ := u
  have he := h .entity
  have ha := h .attr
  have hv := h .value
  have hx := h .txn
  have ho := h .operation
  simp only [get] at he ha hv hx ho
  rw [he, ha, hv, hx, ho]

end Tuple
end FactBase
