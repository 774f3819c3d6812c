import FactBase.Query.ScanPlan
import FactBase.Query.Projection
/-!
# Query.Join — answering lists of patterns

Clauses are answered from left to right.  Each is answered once for every binding that the clauses before it left,
with the values of that binding in place of its variables; an answer extends the binding.  A literal that was never
written leaves no answers, every other error ends the query.
-/
namespace FactBase
namespace Query

def literals : Projection → Run Query.Error (List (String × Value))
  | [] => return []
  | (name, .native value) :: rest => do
    let values ← literals rest
    return (name, value) :: values
  | (name, .hashed id) :: rest => do
    let literal ← (Dictionary.literalOf id).mapError Query.Error.ofReverse
    let values ← literals rest
    return (name, .text literal) :: values

def extend (binding : Binding) : List Projection → Run Query.Error (List Binding)
  | [] => return []
  | projection :: rest => do
    let values ← literals projection
    let bindings ← extend binding rest
    return binding.merge (.ofList values) :: bindings

def answerGoal (index : IndexOrder) (g : Goal) (binding : Binding) : Run Query.Error (List Binding) := do
  let plan := ScanPlan.ofGoal index g
  let keys ← plan.keys.mapError .store
  let projections ← Run.ofExcept ((Projection.ofKeys g keys).mapError .key)
  Run.tell (.matchedPattern plan.render plan.lead keys.length projections.length)
  extend binding projections

def answer (index : IndexOrder) (pattern : Pattern) (binding : Binding) : Run Query.Error (List Binding) := do
  let bound := pattern.bind binding
  match ← (Goal.ofPattern bound).outcome with
  | .ok g => answerGoal index g binding
  | .error (.unknownLiteral text) =>
    Run.tell (.unknownLiteral bound.render text)
    return []
  | .error e => throw e

/-- Answers a pattern under each binding; the answers keep the order of the bindings. -/
def answerAll (index : IndexOrder) (pattern : Pattern) : List Binding → Run Query.Error (List Binding)
  | [] => return []
  | binding :: rest => do
    let first ← answer index pattern binding
    let others ← answerAll index pattern rest
    return first ++ others

/-- Answers the clauses from number `clause` on. -/
def answerClauses (index : IndexOrder) : Nat → List Pattern → List Binding → Run Query.Error (List Binding)
  | _, [], bindings => return bindings
  | clause, pattern :: rest, bindings => do
    let extended ← answerAll index pattern bindings
    Run.tell (.evaluatedClause clause pattern.render bindings.length extended.length)
    answerClauses index (clause + 1) rest extended

/-- The error of the first pattern that is too long. -/
def checkLengths (patterns : List Pattern) : Except Query.Error Unit :=
  match patterns.find? Pattern.isTooLong with
  | some pattern => .error (.patternTooLong pattern.elements.length)
  | none => .ok ()

/-- Answers patterns in order, from the seed bindings.  No clause is answered before all are checked. -/
def solve (index : IndexOrder) (patterns : List Pattern) (seeds : List Binding) : Run Query.Error (List Binding) := do
  Run.ofExcept (checkLengths patterns)
  answerClauses index 0 patterns seeds

/-- Answers one pattern under one binding; the pattern is checked first. -/
def solveOne (index : IndexOrder) (pattern : Pattern) (binding : Binding) : Run Query.Error (List Binding) := do
  Run.ofExcept (checkLengths [pattern])
  answer index pattern binding

/-- Entity, attribute and value, as variables. -/
def entityPattern : Pattern := ⟨[.var "?e", .var "?a", .var "?v"]⟩

/-- The attributes that bindings mention, with their values; of several values the last stands. -/
def attributes (bindings : List Binding) : KeyMap Value :=
  bindings.foldl (fun found b =>
    match b.get? "?a", b.get? "?v" with
    | some (.text attr), some value => found.insert attr value
    | _, _ => found) .empty

def entity (index : IndexOrder) (id : String) : Run Query.Error (KeyMap Value) := do
  let bindings ← solve index [entityPattern] [.ofList [("?e", .text id)]]
  return attributes bindings

end Query
end FactBase
