import FactBase.Proofs.History
import FactBase.Proofs.Strikes
/-!
# Scripts — computations laid out as their calls

A computation is a function of the session, so it does not show the store between two of its calls.  Its script does:
the calls that it makes, each followed by what comes after its answer.  Every transaction has one (`laidOut_run`).  A
store between the calls holds what the whole transaction would leave if writing failed from there on
(`Passes.entries_eq`), so what is known of transactions whose calls fail is known of every store that a transaction
passes.
-/
namespace FactBase

/-- The calls of a computation, each with what comes after its answer. -/
inductive Script (α : Type) where
  | done (a : α)
  | tell (event : Event) (next : Script α)
  | get (key : String) (next : Except Store.Error (Option String) → Script α)
  | write (batch : Batch) (next : Except Store.Error Unit → Script α)

/-- The schedule that is followed for some number of writes; all later ones fail, and leave nothing. -/
def Faults.stopWrites (f : Faults) (n : Nat) : Faults :=
  { f with write := fun k => if k < n then f.write k else some (0, .lockPoisoned) }

theorem Faults.LeaveNothing.stopWrites {f : Faults} (h : f.LeaveNothing) (n : Nat) : (f.stopWrites n).LeaveNothing := by
  intro k after error hfault
  change (if k < n then f.write k else some (0, .lockPoisoned)) = _ at hfault
  split at hfault
  · exact h k after error hfault
  · cases hfault
    rfl

namespace Store

def stopped (s : Store) (n : Nat) : Store := { s with faults := s.faults.stopWrites n }

/-- No write works any more. -/
def Frozen (s : Store) : Prop := ∀ n, s.calls.write ≤ n → s.faults.write n = some (0, .lockPoisoned)

theorem frozen_stopped (s : Store) : (s.stopped s.calls.write).Frozen :=
  fun _ hn => if_neg (Nat.not_lt.2 hn)

theorem write_stopped {s : Store} {n : Nat} (h : s.calls.write < n) (batch : Batch) :
    (s.stopped n).write batch = ((s.write batch).1, (s.write batch).2.stopped n) := by
  have hfault : (s.faults.stopWrites n).write s.calls.write = s.faults.write s.calls.write := if_pos h
  unfold write stopped
  dsimp only
  rw [hfault]
  split
  · rfl
  · cases s.faults.write s.calls.write <;> rfl

theorem Frozen.write {s : Store} (h : s.Frozen) (batch : Batch) :
    (s.write batch).2.entries = s.entries ∧ (s.write batch).2.Frozen := by
  constructor
  · unfold Store.write
    dsimp only
    rw [h _ (Nat.le_refl _)]
    split <;> rfl
  · intro n hn
    rw [calls_write] at hn
    rw [(s.later_write batch).faults]
    exact h n (Nat.le_of_succ_le hn)

end Store

namespace Script

variable {ε δ α β : Type}

/-- Makes the calls, one after the other. -/
def play : Script α → Session → α × Session
  | done a, s => (a, s)
  | tell event next, s => next.play { s with events := s.events ++ [event] }
  | get key next, s => (next (s.store.get key).1).play { s with store := (s.store.get key).2 }
  | write batch next, s => (next (s.store.write batch).1).play { s with store := (s.store.write batch).2 }

/-- The stores that the calls find, in order, and the one that the last call leaves. -/
def stores : Script α → Store → List Store
  | done _, s => [s]
  | tell _ next, s => next.stores s
  | get key next, s => s :: (next (s.get key).1).stores (s.get key).2
  | write batch next, s => s :: (next (s.write batch).1).stores (s.write batch).2

def bind : Script α → (α → Script β) → Script β
  | done a, f => f a
  | tell event next, f => .tell event (next.bind f)
  | get key next, f => .get key fun answer => (next answer).bind f
  | write batch next, f => .write batch fun answer => (next answer).bind f

theorem play_bind (p : Script α) (f : α → Script β) (s : Session) :
    (p.bind f).play s = (f (p.play s).1).play (p.play s).2 := by
  induction p generalizing s with
  | done a => rfl
  | tell event next ih => exact ih _
  | get key next ih => exact ih _ _
  | write batch next ih => exact ih _ _

theorem mem_stores_play (p : Script α) (s : Session) : (p.play s).2.store ∈ p.stores s.store := by
  induction p generalizing s with
  | done a => exact List.mem_singleton_self _
  | tell event next ih => exact ih _
  | get key next ih => exact List.mem_cons_of_mem _ (ih _ _)
  | write batch next ih => exact List.mem_cons_of_mem _ (ih _ _)

theorem write_le_of_mem_stores {p : Script α} {s store : Store} (h : store ∈ p.stores s) :
    s.calls.write ≤ store.calls.write := by
  induction p generalizing s with
  | done a =>
    obtain rfl := List.mem_singleton.1 h
    exact Nat.le_refl _
  | tell event next ih => exact ih h
  | get key next ih =>
    rcases List.mem_cons.1 h with rfl | h
    · exact Nat.le_refl _
    · exact ih _ (s := (s.get key).2) h
  | write batch next ih =>
    rcases List.mem_cons.1 h with rfl | h
    · exact Nat.le_refl _
    · have hle := ih _ h
      rw [Store.calls_write] at hle
      exact Nat.le_of_succ_le hle

theorem entries_play_of_frozen {p : Script α} {s : Session} (h : s.store.Frozen) :
    (p.play s).2.store.entries = s.store.entries := by
  induction p generalizing s with
  | done a => rfl
  | tell event next ih => exact @ih { s with events := s.events ++ [event] } h
  | get key next ih => exact ih _ (s := { s with store := (s.store.get key).2 }) h
  | write batch next ih =>
    obtain ⟨hentries, hfrozen⟩ := h.write batch
    exact (ih _ (s := { s with store := (s.store.write batch).2 }) hfrozen).trans hentries

/-- **A store between the calls holds what is left if writing fails from there on.** -/
theorem entries_play_stopped {p : Script α} {s : Session} {store : Store} (h : store ∈ p.stores s.store) :
    (p.play { s with store := s.store.stopped store.calls.write }).2.store.entries = store.entries := by
  induction p generalizing s with
  | done a =>
    rw [List.mem_singleton.1 h]
    rfl
  | tell event next ih => exact @ih { s with events := s.events ++ [event] } h
  | get key next ih =>
    rcases List.mem_cons.1 h with rfl | h
    · exact entries_play_of_frozen (p := .get key next) (s.store.frozen_stopped)
    · exact ih _ (s := { s with store := (s.store.get key).2 }) h
  | write batch next ih =>
    rcases List.mem_cons.1 h with rfl | h
    · exact entries_play_of_frozen (p := .write batch next) (s.store.frozen_stopped)
    · -- the store comes after this write, so the write goes as before
      have hlt : s.store.calls.write < store.calls.write := by
        have hle := write_le_of_mem_stores h
        rwa [Store.calls_write] at hle
      rw [play]
      dsimp only
      rw [Store.write_stopped hlt]
      exact ih _ (s := { s with store := (s.store.write batch).2 }) h

/-- **Where no call came to the failing writes**, all goes as if they did not fail. -/
theorem play_of_stopped {p : Script α} {s : Session} {n : Nat}
    (h : (p.play { s with store := s.store.stopped n }).2.store.calls.write ≤ n) :
    (p.play { s with store := s.store.stopped n }).1 = (p.play s).1 ∧
      (p.play { s with store := s.store.stopped n }).2.store.entries = (p.play s).2.store.entries := by
  induction p generalizing s with
  | done a => exact ⟨rfl, rfl⟩
  | tell event next ih => exact @ih { s with events := s.events ++ [event] } h
  | get key next ih => exact ih _ (s := { s with store := (s.store.get key).2 }) h
  | write batch next ih =>
    have hlt : s.store.calls.write < n := by
      have hle := write_le_of_mem_stores (mem_stores_play (next ((s.store.stopped n).write batch).1)
        { s with store := ((s.store.stopped n).write batch).2 })
      rw [Store.calls_write] at hle
      exact Nat.lt_of_lt_of_le hle h
    rw [play] at h ⊢
    dsimp only at h ⊢
    rw [Store.write_stopped hlt] at h ⊢
    exact ih _ (s := { s with store := (s.store.write batch).2 }) h

end Script

namespace Run

variable {ε δ α β : Type}

/-- The script makes the calls of the computation. -/
def LaidOut (x : Run ε α) (p : Script (Except ε α)) : Prop := ∀ s, x s = p.play s

theorem laidOut_pure (a : α) : ∃ p, (pure a : Run ε α).LaidOut p := ⟨.done (.ok a), fun _ => rfl⟩

theorem laidOut_throw (e : ε) : ∃ p, (throw e : Run ε α).LaidOut p := ⟨.done (.error e), fun _ => rfl⟩

theorem laidOut_tell (event : Event) : ∃ p, (Run.tell event : Run ε Unit).LaidOut p :=
  ⟨.tell event (.done (.ok ())), fun _ => rfl⟩

theorem laidOut_get (key : String) : ∃ p, (Run.get key).LaidOut p := ⟨.get key .done, fun _ => rfl⟩

theorem laidOut_write (batch : Batch) : ∃ p, (Run.write batch).LaidOut p := ⟨.write batch .done, fun _ => rfl⟩

theorem laidOut_mapError {x : Run ε α} (f : ε → δ) (hx : ∃ p, x.LaidOut p) : ∃ p, (x.mapError f).LaidOut p := by
  obtain ⟨p, hp⟩ := hx
  refine ⟨p.bind fun r => .done (r.mapError f), fun s => ?_⟩
  rw [Script.play_bind, mapError, hp s]
  rfl

theorem laidOut_bind {x : Run ε α} {f : α → Run ε β} (hx : ∃ p, x.LaidOut p) (hf : ∀ a, ∃ p, (f a).LaidOut p) :
    ∃ p, (x >>= f).LaidOut p := by
  obtain ⟨p, hp⟩ := hx
  obtain ⟨next, hnext⟩ := Classical.axiomOfChoice hf
  let andThen : Except ε α → Script (Except ε β)
    | .ok a => next a
    | .error e => .done (.error e)
  refine ⟨p.bind andThen, fun s => ?_⟩
  rw [Script.play_bind, bind_apply, hp s]
  obtain ⟨r, s'⟩ := p.play s
  cases r with
  | ok a => exact hnext a s'
  | error e => rfl

end Run

/-! ## Transactions -/

theorem Dictionary.laidOut_claim (literal : String) : ∀ ids : List Identifier, ∃ p, (claim literal ids).LaidOut p
  | [] => Run.laidOut_throw _
  | id :: rest => by
    refine Run.laidOut_bind (Run.laidOut_mapError _ (Run.laidOut_get _)) fun found => ?_
    cases found with
    | none => exact Run.laidOut_bind (Run.laidOut_mapError _ (Run.laidOut_write _)) fun _ => Run.laidOut_pure id
    | some held =>
      dsimp only
      split
      · exact Run.laidOut_pure id
      · exact laidOut_claim literal rest

namespace Commit

theorem laidOut_registerLiteral (literal : String) : ∃ p, (registerLiteral literal).LaidOut p :=
  Run.laidOut_mapError _ (Dictionary.laidOut_claim literal _)

theorem laidOut_encodeRows (txn : TxnNumber) (txnSegment : String) : ∀ rows : List Row,
    ∃ p, (encodeRows txn txnSegment rows).LaidOut p
  | [] => Run.laidOut_pure []
  | row :: rows => by
    refine Run.laidOut_bind ?_ fun key => ?_
    · refine Run.laidOut_bind (laidOut_registerLiteral row.entity) fun entity => ?_
      refine Run.laidOut_bind (laidOut_registerLiteral row.attr) fun attr => ?_
      exact Run.laidOut_bind (laidOut_registerLiteral row.value) fun value => Run.laidOut_pure _
    · exact Run.laidOut_bind (laidOut_encodeRows txn txnSegment rows) fun keys => Run.laidOut_pure _

/-- **Every transaction has a script.** -/
theorem laidOut_run (lastTxn : TxnNumber) (t : Transaction) : ∃ p, (run lastTxn t).LaidOut p := by
  refine run_cases (P := fun x => ∃ p, x.LaidOut p) lastTxn t (fun e => Run.laidOut_throw e) fun _ _ => ?_
  refine Run.laidOut_bind (laidOut_encodeRows _ _ _) fun keys => ?_
  refine Run.laidOut_bind (Run.laidOut_mapError _ (Run.laidOut_write _)) fun _ => ?_
  exact Run.laidOut_bind (Run.laidOut_tell _) fun _ => Run.laidOut_pure _

end Commit

namespace Database

/-- The store stands somewhere in the transaction: before its first call, between two calls, or after the last. -/
def Passes (db : Database) (t : Transaction) (store : Store) : Prop :=
  ∃ script, (Commit.run db.lastTxn t).LaidOut script ∧ store ∈ script.stores db.store

/-- The database where writing fails from some number of writes on. -/
def stopped (db : Database) (n : Nat) : Database := db.withFaults (db.store.faults.stopWrites n)

variable {db : Database} {t : Transaction} {store : Store}

theorem transact_of_laidOut {script : Script (Except Commit.Error TxnNumber)}
    (h : (Commit.run db.lastTxn t).LaidOut script) : (db.transact t).result = (script.play (.start db.store)).1 ∧
      (db.transact t).state.store = (script.play (.start db.store)).2.store := by
  unfold transact Run.on
  rw [h]
  exact ⟨rfl, rfl⟩

theorem passes_transact (db : Database) (t : Transaction) : db.Passes t (db.transact t).state.store := by
  obtain ⟨script, hscript⟩ := Commit.laidOut_run db.lastTxn t
  refine ⟨script, hscript, ?_⟩
  rw [(transact_of_laidOut hscript).2]
  exact script.mem_stores_play (.start db.store)

theorem Passes.write_le (h : db.Passes t store) : db.store.calls.write ≤ store.calls.write := by
  obtain ⟨script, -, hmem⟩ := h
  exact Script.write_le_of_mem_stores hmem

/-- **What a transaction passes is what it leaves if writing fails from there on.** -/
theorem Passes.entries_eq (h : db.Passes t store) :
    store.entries = ((db.stopped store.calls.write).transact t).state.store.entries := by
  obtain ⟨script, hscript, hmem⟩ := h
  have hstopped : (Commit.run (db.stopped store.calls.write).lastTxn t).LaidOut script := hscript
  rw [(transact_of_laidOut hstopped).2]
  exact (Script.entries_play_stopped (s := .start db.store) hmem).symm

/-- A transaction that never comes to the failing writes is the same without them. -/
theorem transact_stopped {n : Nat} (h : ((db.stopped n).transact t).state.store.calls.write ≤ n) :
    ((db.stopped n).transact t).result = (db.transact t).result ∧
      ((db.stopped n).transact t).state.store.entries = (db.transact t).state.store.entries := by
  obtain ⟨script, hscript⟩ := Commit.laidOut_run db.lastTxn t
  have hstopped : (Commit.run (db.stopped n).lastTxn t).LaidOut script := hscript
  rw [(transact_of_laidOut hstopped).2] at h
  rw [(transact_of_laidOut hstopped).1, (transact_of_laidOut hstopped).2, (transact_of_laidOut hscript).1,
    (transact_of_laidOut hscript).2]
  exact Script.play_of_stopped (s := .start db.store) h

end Database
end FactBase
