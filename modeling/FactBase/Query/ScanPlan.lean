import FactBase.Query.Goal
/-!
# Query.ScanPlan — the keys that agree with a goal, by one scan of an index

In the order of the index, the concrete segments before the first open one lead every key that agrees with the goal.
The scan takes the keys that start so, and each of them is checked at all concrete segments.
-/
namespace FactBase

structure ScanPlan where
  index : IndexOrder
  segments : Tuple (Option String)
  deriving DecidableEq

namespace ScanPlan

def ofGoal (index : IndexOrder) (g : Goal) : ScanPlan := ⟨index, g.map Term.segment?⟩

/-- The concrete segments before the first open one. -/
def leading (plan : ScanPlan) : List String :=
  ((plan.index.order.map plan.segments.get).takeWhile Option.isSome).filterMap id

/-- What every agreeing key starts with. -/
def lead (plan : ScanPlan) : String := Key.stem plan.index ++ Key.join plan.leading

/-- The keys to scan; where no segment is open, the lead is itself the key. -/
def range (plan : ScanPlan) : KeyInterval := .startingWith plan.lead

/-- Whether a key is one of the index and agrees at every concrete segment. -/
def accepts (plan : ScanPlan) (key : String) : Bool :=
  match Key.split key with
  | .error _ => false
  | .ok (index, found) =>
    decide (index = plan.index) && Position.all.all fun p =>
      match plan.segments.get p with
      | some expected => found.get p == expected
      | none => true

def render (plan : ScanPlan) : String := Key.encode plan.index plan.segments

/-- The agreeing keys of the store, in ascending order. -/
def keys (plan : ScanPlan) : Run Store.Error (List String) := do
  let (found, fault) ← Run.scan plan.range
  match fault with
  | some cause => throw cause
  | none => return found.filter plan.accepts

end ScanPlan
end FactBase
