import FactBase.Commit
import FactBase.Query.Join
/-!
# Database — a store, the last transaction, and the index that queries use

Opening a database over a store recovers the number of the last transaction from the stored keys.  Every operation
gives its result, the database afterwards and the events told on the way.
-/
namespace FactBase

inductive Database.OpenError where
  | store (cause : Store.Error)
  | recovery (cause : Commit.Error)
  deriving DecidableEq

namespace Database.OpenError

def message : Database.OpenError → String
  | store cause => "store error: " ++ cause.message
  | recovery cause => "transaction error: " ++ cause.message

def causes : Database.OpenError → List String
  | store cause => cause.message :: cause.causes
  | recovery cause => cause.message :: cause.causes

end Database.OpenError

structure Database where
  store : Store
  lastTxn : TxnNumber
  /-- The index that queries scan. -/
  index : IndexOrder

/-- The result of an operation, what it leaves and what it told. -/
structure Outcome (σ ε α : Type) where
  result : Except ε α
  state : σ
  events : List Event

namespace Run

variable {ε α : Type}

def on (x : Run ε α) (store : Store) : Outcome Store ε α :=
  let (result, s) := x (.start store)
  ⟨result, s.store, s.events⟩

end Run

namespace Database

variable {ε α : Type}

def ofStore (store : Store) : Outcome Store Database.OpenError Database :=
  let o := Commit.recover.on store
  ⟨(o.result.mapError .recovery).map fun lastTxn => ⟨o.state, lastTxn, .eavto⟩, o.state, o.events⟩

def inMemory : Database := ⟨.ofEntries .empty, 0, .eavto⟩

def withIndex (db : Database) (index : IndexOrder) : Database := { db with index := index }

def run (db : Database) (x : Run ε α) : Outcome Database ε α :=
  let o := x.on db.store
  ⟨o.result, { db with store := o.state }, o.events⟩

/-- Writes a transaction and gives its number, which is the last one from then on. -/
def transact (db : Database) (t : Transaction) : Outcome Database Commit.Error TxnNumber :=
  let o := (Commit.run db.lastTxn t).on db.store
  let lastTxn := match o.result with
    | .ok txn => txn
    | .error _ => db.lastTxn
  ⟨o.result, { db with store := o.state, lastTxn := lastTxn }, o.events⟩

def query (db : Database) (patterns : List Pattern) (seeds : List Binding) :
    Outcome Database Query.Error (List Binding) :=
  db.run (Query.solve db.index patterns seeds)

def queryOne (db : Database) (pattern : Pattern) (binding : Binding) :
    Outcome Database Query.Error (List Binding) :=
  db.run (Query.solveOne db.index pattern binding)

def entity (db : Database) (id : String) : Outcome Database Query.Error (KeyMap Value) :=
  db.run (Query.entity db.index id)

end Database
end FactBase
