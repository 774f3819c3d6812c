import FactBase.Store
import FactBase.Value
/-!
# Session — computations over a store

Whatever reads or writes a store runs in a session: the store as the calls so far have left it, and the events told
so far.  A computation that fails still leaves its session behind, so a fault in the middle shows what was done
before it.
-/
namespace FactBase

inductive Level where
  | debug
  | info
  | warn

/-- What a session tells about its work. -/
inductive Event where
  | truncatedTail (offset discarded : Nat) (error : Record.Error)
  | replayedLog (records keys : Nat)
  | recoveredTransaction (lastTxn : TxnNumber)
  | committed (txn : TxnNumber) (facts metadata keys : Nat)
  | unknownLiteral (bound value : String)
  | matchedPattern (plan lead : String) (keys bindings : Nat)
  | evaluatedClause (clause : Nat) (pattern : String) (inputs outputs : Nat)

namespace Event

def level : Event → Level
  | truncatedTail .. => .warn
  | recoveredTransaction _ | committed .. => .info
  | replayedLog .. | unknownLiteral .. | matchedPattern .. | evaluatedClause .. => .debug

def message : Event → String
  | truncatedTail .. => "truncating torn log tail"
  | replayedLog .. => "replayed log"
  | recoveredTransaction _ => "transactor recovered last transaction id"
  | committed .. => "committed transaction"
  | unknownLiteral .. => "literal never written, no matches"
  | matchedPattern .. => "matched pattern"
  | evaluatedClause .. => "evaluated clause"

end Event

structure Session where
  store : Store
  /-- Newest last. -/
  events : List Event

def Session.start (store : Store) : Session := ⟨store, []⟩

/-- A computation that may fail and leaves a session either way. -/
abbrev Run (ε α : Type) : Type := ExceptT ε (StateM Session) α

namespace Run

variable {ε δ α β : Type}

def tell (event : Event) : Run ε Unit := fun s => (.ok (), { s with events := s.events ++ [event] })

def get (key : String) : Run Store.Error (Option String) := fun s =>
  let (answer, store) := s.store.get key
  (answer, { s with store := store })

/-- A scan as it comes: the keys before the error, if there is one, still count. -/
def scan (range : KeyInterval) : Run ε (List String × Option Store.Error) := fun s =>
  let (answer, store) := s.store.scan range
  (.ok answer, { s with store := store })

def write (batch : Batch) : Run Store.Error Unit := fun s =>
  let (answer, store) := s.store.write batch
  (answer, { s with store := store })

def mapError (f : ε → δ) (x : Run ε α) : Run δ α := fun s =>
  let (answer, s') := x s
  (answer.mapError f, s')

/-- Gives a computation's outcome as a value, whether it failed or not. -/
def outcome (x : Run ε α) : Run δ (Except ε α) := fun s =>
  let (answer, s') := x s
  (.ok answer, s')

def ofExcept (r : Except ε α) : Run ε α := fun s => (r, s)

theorem bind_apply (x : Run ε α) (f : α → Run ε β) (s : Session) :
    (x >>= f) s = match x s with
      | (.ok a, s') => f a s'
      | (.error e, s') => (.error e, s') := by
  change (ExceptT.bind x f) s = _
  unfold ExceptT.bind ExceptT.mk
  change (let (r, s') := x s; ExceptT.bindCont f r s') = _
  rcases x s with ⟨_ | _, _⟩ <;> rfl

end Run
end FactBase
