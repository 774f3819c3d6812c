import FactBase.Proofs.Transacting
/-!
# Registering — the literals that a transaction brings into the dictionary

The first thing that a transaction does is to register the literals of its rows, in order, up to the first that fails
(`session_encodeRows`).  Those before it are held afterwards; whatever else is new is nothing, and what was there is as
it was (`Enters`).  So a transaction enters some of its literals, and then either stops or writes its keys
(`enters_transact`).
-/
namespace FactBase

open Dictionary (slot entry chain vacancy Settled)

namespace Dictionary

/-- From one map to a later one, the literals have been entered: each is held by a slot of its chain, and all that is
new is in such slots. -/
structure Enters (literals : List String) (m m' : KeyMap String) : Prop where
  kept : m.Grows m'
  held : ∀ l ∈ literals, ∃ id ∈ chain l, m'.get? (slot id) = some l
  new : ∀ key v, m'.get? key = some v → m.get? key = some v ∨
    m.get? key = none ∧ v ∈ literals ∧ ∃ id ∈ chain v, key = slot id
  settled : Settled m → Settled m'

theorem Enters.nothing (m : KeyMap String) : Enters [] m m where
  kept := .refl m
  held := fun l hl => by cases hl
  new := fun key v hv => .inl hv
  settled := id

theorem Enters.trans {xs ys : List String} {m m' m'' : KeyMap String} (h : Enters xs m m') (h' : Enters ys m' m'') :
    Enters (xs ++ ys) m m'' where
  kept := h.kept.trans h'.kept
  held := fun l hl => by
    rcases List.mem_append.1 hl with hl | hl
    · obtain ⟨id, hid, hget⟩ := h.held l hl
      exact ⟨id, hid, h'.kept _ _ hget⟩
    · exact h'.held l hl
  new := fun key v hv => by
    rcases h'.new key v hv with hv | ⟨hfree, hmem, hslot⟩
    · exact (h.new key v hv).imp_right fun ⟨hfree, hmem, hslot⟩ => ⟨hfree, List.mem_append_left _ hmem, hslot⟩
    · refine .inr ⟨?_, List.mem_append_right _ hmem, hslot⟩
      cases hget : m.get? key with
      | none => rfl
      | some w =>
        rw [h.kept _ _ hget] at hfree
        cases hfree
  settled := fun hm => h'.settled (h.settled hm)

theorem enters_held {m : KeyMap String} {literal : String} {id : Identifier} (hid : id ∈ chain literal)
    (hheld : m.get? (slot id) = some literal) : Enters [literal] m m where
  kept := .refl m
  held := fun l hl => by
    obtain rfl := List.mem_singleton.1 hl
    exact ⟨id, hid, hheld⟩
  new := fun key v hv => .inl hv
  settled := fun hm => hm

theorem enters_entry {m : KeyMap String} {literal : String} {id : Identifier}
    (hvacant : vacancy m literal (chain literal) = some id) :
    Enters [literal] m (m.insertAll (entry id literal)) where
  kept := grows_entry hvacant
  held := fun l hl => by
    obtain rfl := List.mem_singleton.1 hl
    refine ⟨id, (free_of_vacancy hvacant).1, ?_⟩
    rw [get?_entry, if_pos rfl]
  new := fun key v hv => by
    rw [get?_entry] at hv
    split at hv
    · rename_i heq
      obtain rfl := Option.some.inj hv
      obtain ⟨hmem, hfree⟩ := free_of_vacancy hvacant
      exact .inr ⟨heq ▸ hfree, List.mem_singleton_self _, id, hmem, heq.symm⟩
    · exact .inl hv
  settled := fun hm => hm.register hvacant

/-- **Registering a literal enters it**, or fails and enters nothing. -/
theorem enters_register (literal : String) (s : Session) :
    match register literal s with
    | (.ok _, s') => Enters [literal] s.store.entries s'.store.entries
    | (.error _, s') => s'.store.entries = s.store.entries := by
  obtain ⟨r, s', batches, hrun, htook, hpost⟩ := does_register s.store.entries literal s rfl
  rw [hrun]
  cases r with
  | error e =>
    obtain rfl : batches = [] := hpost
    exact htook.entries
  | ok id =>
    dsimp only
    rw [htook.entries]
    rcases hpost with ⟨rfl, hseek⟩ | ⟨rfl, hvacant⟩
    · obtain ⟨hmem, hheld⟩ := held_of_seek hseek
      exact enters_held hmem hheld
    · exact enters_entry hvacant

/-! ## One literal after the other -/

def registerEach : List String → Run Dictionary.Error Unit
  | [] => return ()
  | literal :: rest => do
    let _ ← register literal
    registerEach rest

/-- Those of the literals whose registration succeeds, when they are registered in order up to the first that fails. -/
def registered : List String → Session → List String
  | [], _ => []
  | literal :: rest, s =>
    match register literal s with
    | (.ok _, s') => literal :: registered rest s'
    | (.error _, _) => []

theorem registered_subset : ∀ {literals : List String} {s : Session} {l : String},
    l ∈ registered literals s → l ∈ literals
  | literal :: rest, s, l, h => by
    unfold registered at h
    split at h
    · rcases List.mem_cons.1 h with rfl | h
      · exact List.mem_cons_self
      · exact List.mem_cons_of_mem _ (registered_subset h)
    · cases h

theorem registerEach_append : ∀ xs ys : List String,
    registerEach (xs ++ ys) = registerEach xs >>= fun _ => registerEach ys
  | [], ys => (pure_bind () fun _ => registerEach ys).symm
  | x :: xs, ys => by
    rw [List.cons_append, registerEach, registerEach, bind_assoc]
    simp only [registerEach_append xs ys]

/-- **Registering literals in order enters those before the first that fails.** -/
theorem enters_registerEach : ∀ (literals : List String) (s : Session),
    Enters (registered literals s) s.store.entries (registerEach literals s).2.store.entries
  | [], s => .nothing _
  | literal :: rest, s => by
    have hregister := enters_register literal s
    rw [registerEach, Run.bind_apply, registered]
    generalize register literal s = o at hregister ⊢
    obtain ⟨r, s'⟩ := o
    cases r with
    | error e =>
      change Enters [] s.store.entries s'.store.entries
      rw [hregister]
      exact .nothing _
    | ok id => exact hregister.trans (enters_registerEach rest s')

end Dictionary

/-! ## The literals of a transaction -/

def Row.literals (row : Row) : List String := [row.entity, row.attr, row.value]

/-- The literals that a transaction registers under a number, in order. -/
def Transaction.literals (t : Transaction) (txn : TxnNumber) : List String :=
  (t.rows (Segment.txnText txn)).flatMap Row.literals

namespace Run

variable {ε δ α β : Type}

theorem mapError_bind (f : ε → δ) (x : Run ε α) (g : α → Run ε β) :
    (x >>= g).mapError f = x.mapError f >>= fun a => (g a).mapError f := by
  funext s
  rw [bind_apply, mapError, bind_apply, mapError]
  obtain ⟨r, s'⟩ := x s
  cases r <;> rfl

theorem session_bind_pure (x : Run ε α) (g : α → β) (s : Session) : ((x >>= fun a => pure (g a)) s).2 = (x s).2 := by
  rw [bind_apply]
  obtain ⟨r, s'⟩ := x s
  cases r <;> rfl

end Run

namespace Commit

open Dictionary (registerEach registered Enters)

theorem encodeRow_bind_pure (txn : TxnNumber) (txnSegment : String) (row : Row) :
    (encodeRow txn txnSegment row >>= fun _ => pure ()) = (registerEach row.literals).mapError Commit.Error.dictionary := by
  simp only [encodeRow, Row.literals, registerEach, registerLiteral, bind_assoc, pure_bind, Run.mapError_bind]
  rfl

/-- **Encoding rows registers their literals in order**, as far as its store is concerned. -/
theorem encodeRows_bind_pure (txn : TxnNumber) (txnSegment : String) : ∀ rows : List Row,
    (encodeRows txn txnSegment rows >>= fun _ => pure ()) =
      (registerEach (rows.flatMap Row.literals)).mapError Commit.Error.dictionary
  | [] => rfl
  | row :: rows => by
    have hrow := encodeRow_bind_pure txn txnSegment row
    have hrows := encodeRows_bind_pure txn txnSegment rows
    calc (encodeRows txn txnSegment (row :: rows) >>= fun _ => pure ())
        = encodeRow txn txnSegment row >>= fun _ => encodeRows txn txnSegment rows >>= fun _ => pure () := by
          simp only [encodeRows, bind_assoc, pure_bind]
      _ = (encodeRow txn txnSegment row >>= fun _ => pure ()) >>= fun _ =>
            encodeRows txn txnSegment rows >>= fun _ => pure () := by
          simp only [bind_assoc, pure_bind]
      _ = (registerEach ((row :: rows).flatMap Row.literals)).mapError Commit.Error.dictionary := by
          rw [hrow, hrows, List.flatMap_cons, Dictionary.registerEach_append, Run.mapError_bind]

theorem session_encodeRows (txn : TxnNumber) (txnSegment : String) (rows : List Row) (s : Session) :
    (encodeRows txn txnSegment rows s).2 = (registerEach (rows.flatMap Row.literals) s).2 := by
  rw [← Run.session_bind_pure _ (fun _ => ()), encodeRows_bind_pure]
  rfl

end Commit

namespace Database

open Dictionary (Enters)

/-- Those of its literals that a transaction registers. -/
def registeredBy (db : Database) (t : Transaction) : List String :=
  if t.isEmpty = true ∨ maxTxn < db.lastTxn + 1 then []
  else Dictionary.registered (t.literals (db.lastTxn + 1)) (.start db.store)

theorem registeredBy_subset {db : Database} {t : Transaction} {l : String} (h : l ∈ db.registeredBy t) :
    l ∈ t.literals (db.lastTxn + 1) := by
  unfold registeredBy at h
  split at h
  · cases h
  · exact Dictionary.registered_subset h

/-- **A transaction enters literals, and then either stops or writes the keys of its facts.** -/
theorem enters_transact (db : Database) (t : Transaction) :
    ∃ m, Enters (db.registeredBy t) db.store.entries m ∧
      match db.transact t with
      | ⟨.error _, db', _⟩ => db'.store.entries = m
      | ⟨.ok txn, db', _⟩ => ∃ keys, KeysOf m (t.asFacts txn) keys ∧
        db'.store.entries = m.insertAll (keyBatch keys) := by
  unfold registeredBy transact Run.on
  by_cases hempty : t.isEmpty = true
  · rw [if_pos (.inl hempty), Commit.run_of_isEmpty hempty]
    exact ⟨_, .nothing _, rfl⟩
  by_cases htxn : maxTxn < db.lastTxn + 1
  · rw [if_pos (.inr htxn), Commit.run_of_outOfRange (Bool.eq_false_iff.2 hempty) htxn]
    exact ⟨_, .nothing _, rfl⟩
  have hle : db.lastTxn + 1 ≤ maxTxn := UInt64.not_lt.1 htxn
  rw [if_neg (not_or.2 ⟨hempty, htxn⟩), Commit.run_of_le (Bool.eq_false_iff.2 hempty) hle]
  have henters := Dictionary.enters_registerEach (t.literals (db.lastTxn + 1)) (.start db.store)
  have hsession := Commit.session_encodeRows (db.lastTxn + 1) (Segment.txnText (db.lastTxn + 1))
    (t.rows (Segment.txnText (db.lastTxn + 1))) (.start db.store)
  obtain ⟨r, s, batches, hrun, htook, hlearns⟩ := Commit.does_encodeRows hle
    (t.rows (Segment.txnText (db.lastTxn + 1))) db.store.entries (.start db.store) rfl
  rw [hrun] at hsession
  refine ⟨s.store.entries, ?_, ?_⟩
  · rw [show s.store.entries = _ from congrArg (·.store.entries) hsession]
    exact henters
  rw [Run.bind_apply, hrun]
  cases r with
  | error e => rfl
  | ok keys =>
    dsimp only
    rw [Run.bind_apply, Run.mapError, Run.write]
    have hwrite := s.store.took_write (keyBatch keys)
    generalize s.store.write (keyBatch keys) = o at hwrite ⊢
    obtain ⟨r, store⟩ := o
    rcases hwrite with ⟨hr, htook'⟩ | ⟨⟨e, hr⟩, htook'⟩
    · obtain rfl : r = .ok () := hr
      refine ⟨keys, ?_, htook'.entries⟩
      rw [htook.entries]
      exact hlearns.2
    · obtain rfl : r = .error e := hr
      exact htook'.entries

end Database
end FactBase
