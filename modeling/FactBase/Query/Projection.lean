import FactBase.Query.Goal
/-!
# Query.Projection — from agreeing keys to what they bind

Each key is read as a stored fact and projected onto the variables of the goal.  Facts contend for places among the
answers: where the goal asks for the newest facts only, for one place of each entity and attribute, otherwise each fact
has a place of its own.  A place goes to the fact of the highest transaction, and of several to the one that comes last.
What a place was given for is kept as a candidate under its mark, a text made of its cells.  At the end the places hand
the candidates out, each of them once, so of equal projections the first is kept.
-/
namespace FactBase

/-- What a variable is bound to before literals are looked up. -/
inductive Cell where
  | hashed (id : Identifier)
  | native (value : Value)
  deriving DecidableEq

/-- What a cell puts into a mark: an identifier, the segment of an operation, or a number in decimal. -/
def Cell.text : Cell → String
  | .hashed id => id.segment
  | .native (.boolean b) => Segment.ofOperation b
  | .native value => value.render

/-- Variables with their cells, in tuple order. -/
abbrev Projection := List (String × Cell)

namespace Projection

def cell (f : StoredFact) : Position → Cell
  | .entity => .hashed f.entity
  | .attr => .hashed f.attr
  | .value => .hashed f.value
  | .txn => .native (.integer f.txn)
  | .operation => .native (.boolean f.operation)

def project (g : Goal) (f : StoredFact) : Projection := g.openPlaces.map fun (p, name) => (name, cell f p)

/-- What projections of one goal are told apart by: their cells' texts, with separators. -/
def mark (projection : Projection) : String := Key.join (projection.map fun entry => entry.2.text)

/-- What facts contend for. -/
inductive Place where
  | newest (entity attr : Identifier)
  /-- The place of one key, by its number. -/
  | scanned (number : Nat)
  deriving DecidableEq

def placeOf (newestOnly : Bool) (number : Nat) (f : StoredFact) : Place :=
  if newestOnly then .newest f.entity f.attr else .scanned number

/-- The fact that has a place: its transaction, and the mark of its projection. -/
structure Holder where
  place : Place
  txn : TxnNumber
  mark : String

/-- Seats a holder in its place, which is a new one at the end if nobody has held it. -/
def Holder.seat (h : Holder) : List Holder → List Holder
  | [] => [h]
  | h' :: rest => if h'.place = h.place then h :: rest else h' :: seat h rest

/-- The holders, in the order in which their places were first taken, and all candidates so far by their marks. -/
structure Contest where
  holders : List Holder
  candidates : KeyMap Projection

namespace Contest

def start : Contest := ⟨[], .empty⟩

/-- Lets a fact contend for its place, which it does not get from a holder of a higher transaction. -/
def enter (g : Goal) (number : Nat) (f : StoredFact) (c : Contest) : Contest :=
  let place := placeOf g.wantsNewest number f
  if (c.holders.find? fun h => h.place = place).any fun h => f.txn < h.txn then c
  else
    let projection := project g f
    ⟨(Holder.mk place f.txn projection.mark).seat c.holders, c.candidates.insert projection.mark projection⟩

/-- Enters the facts of keys, numbered on from `number`, up to the first key that cannot be read. -/
def enterKeys (g : Goal) : Nat → List String → Contest → Except Key.Error Contest
  | _, [], c => .ok c
  | number, key :: keys, c => do
    let f ← StoredFact.decode key
    enterKeys g (number + 1) keys (c.enter g number f)

/-- Gives each holder its candidate, unless one before it has taken it. -/
def handOut : List Holder → KeyMap Projection → List Projection
  | [], _ => []
  | h :: rest, candidates =>
    match candidates.get? h.mark with
    | some projection => projection :: handOut rest (candidates.erase h.mark)
    | none => handOut rest candidates

end Contest

/-- The distinct projections of the facts that have the places, or the error of the first key that cannot be read. -/
def ofKeys (g : Goal) (keys : List String) : Except Key.Error (List Projection) := do
  let c ← Contest.enterKeys g 0 keys .start
  return Contest.handOut c.holders c.candidates

end Projection
end FactBase
