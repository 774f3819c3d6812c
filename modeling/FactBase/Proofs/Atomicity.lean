import FactBase.Proofs.CrashSafety
import FactBase.Proofs.Registering
import FactBase.Proofs.Scripts
/-!
# Atomicity — a transaction as one change of the stored facts

Whichever of its calls fail, a transaction is accepted or rejected as a whole.  One that is accepted adds one key for
each of its rows, all in one batch (`Accepts`).  One that is rejected leaves the index as it was and has registered
some of its literals at most (`Rejects`).  Every store that it passes has the index from before or the index from
after, and a call that fails is reported (`transact_is_atomic`).
-/
namespace FactBase

open Dictionary (slot entry chain Enters)

/-! ## Failing calls are reported -/

theorem Dictionary.reports_claim (literal : String) : ∀ ids : List Identifier,
    (claim literal ids).Reports fun cause e => e = .store cause
  | [] => .throw _
  | id :: rest => by
    refine .bind (.mapError (.get (slot id)) fun _ _ h => congrArg _ h) fun found => ?_
    cases found with
    | none => exact .bind (.mapError (.write _) fun _ _ h => congrArg _ h) fun _ => .pure id
    | some held =>
      dsimp only
      split
      · exact .pure id
      · exact reports_claim literal rest

namespace Commit

/-- The error of a failing call, reported by itself or through the dictionary. -/
def Reported (cause : Store.Error) (e : Commit.Error) : Prop := e = .store cause ∨ e = .dictionary (.store cause)

theorem reports_registerLiteral (literal : String) : (registerLiteral literal).Reports Reported :=
  .mapError (Dictionary.reports_claim literal _) fun _ _ h => .inr (congrArg _ h)

theorem reports_encodeRows (txn : TxnNumber) (txnSegment : String) : ∀ rows : List Row,
    (encodeRows txn txnSegment rows).Reports Reported
  | [] => .pure []
  | row :: rows => by
    refine .bind ?_ fun key => .bind (reports_encodeRows txn txnSegment rows) fun keys => .pure _
    refine .bind (reports_registerLiteral row.entity) fun entity => ?_
    refine .bind (reports_registerLiteral row.attr) fun attr => ?_
    exact .bind (reports_registerLiteral row.value) fun value => .pure _

theorem reports_run (lastTxn : TxnNumber) (t : Transaction) : (run lastTxn t).Reports Reported := by
  refine run_cases (P := (·.Reports Reported)) lastTxn t (fun e => .throw e) fun _ _ => ?_
  refine .bind (reports_encodeRows _ _ _) fun keys => ?_
  refine .bind (.mapError (.write _) fun _ _ h => .inl (congrArg _ h)) fun _ => ?_
  exact .bind (.tell _) fun _ => .pure _

end Commit

/-- **A transaction reports every call of its that fails.** -/
theorem Database.reports_transact (db : Database) (t : Transaction) {e : Store.Error}
    (h : db.store.Struck (db.transact t).state.store e) :
    ∃ cause e', db.store.FailsWith e cause ∧ (db.transact t).result = .error e' ∧ Commit.Reported cause e' := by
  obtain ⟨r, s, hrun, -, hreports⟩ := Commit.reports_run db.lastTxn t (.start db.store)
  unfold transact Run.on at h ⊢
  rw [hrun] at h ⊢
  exact hreports e h

/-! ## Accepted and rejected -/

/-- The key stands in the index that commits maintain. -/
def InIndex (key : String) : Prop := (Key.stem Commit.index).toList <+: key.toList

/-- Two maps have the same entries in the index. -/
def KeyMap.SameIndex (m m' : KeyMap String) : Prop := ∀ key, InIndex key → m'.get? key = m.get? key

theorem Dictionary.Enters.sameIndex {literals : List String} {m m' : KeyMap String} (h : Enters literals m m') :
    m.SameIndex m' := by
  intro key hkey
  cases hget : m'.get? key with
  | none =>
    cases hget' : m.get? key with
    | none => rfl
    | some v =>
      rw [h.kept _ _ hget'] at hget
      cases hget
  | some v =>
    rcases h.new key v hget with hold | ⟨-, -, id, -, rfl⟩
    · exact hold.symm
    · exact absurd hkey (not_stem_prefix_slot id)

namespace Database

/-- The entry is one of the dictionary: a literal of the transaction, in a slot of its chain. -/
def RegistersAt (db : Database) (t : Transaction) (key literal : String) : Prop :=
  literal ∈ t.literals (db.lastTxn + 1) ∧ ∃ id ∈ chain literal, key = slot id

/-- What a transaction leaves that fails: nothing has changed but that some of its literals are registered. -/
structure Rejects (db : Database) (t : Transaction) (db' : Database) : Prop where
  lastTxn : db'.lastTxn = db.lastTxn
  index : db.store.entries.SameIndex db'.store.entries
  kept : db.store.entries.Grows db'.store.entries
  new : ∀ key v, db'.store.entries.get? key = some v → db.store.entries.get? key = some v ∨
    db.store.entries.get? key = none ∧ db.RegistersAt t key v

/-- Rows under a transaction number, each with a key of its own, have been added to the index in one batch. -/
structure Adds (db : Database) (txn : TxnNumber) (rows : List Row) (keyOf : Row → String) (db' : Database) : Prop where
  inIndex : ∀ row ∈ rows, InIndex (keyOf row)
  fresh : ∀ row ∈ rows, db.store.entries.get? (keyOf row) = none
  readsBack : ∀ row ∈ rows, db'.ReadsBack (keyOf row) (Fact.ofRow txn row)
  distinct : ∀ row ∈ rows, ∀ row' ∈ rows, keyOf row = keyOf row' → row = row'
  index : ∀ key v, InIndex key → (db'.store.entries.get? key = some v ↔
    db.store.entries.get? key = some v ∨ v = "" ∧ ∃ row ∈ rows, keyOf row = key)
  /-- Nothing was written but registrations and then the batch. -/
  batch : ∃ registrations keys, db.store.Wrote (registrations ++ [keyBatch keys]) db'.store ∧
    Registers db.store.entries registrations ∧ ∀ key, key ∈ keys ↔ ∃ row ∈ rows, keyOf row = key

/-- What a transaction leaves that succeeds: the keys of its rows, its literals, and what was there before. -/
structure Accepts (db : Database) (t : Transaction) (txn : TxnNumber) (db' : Database) : Prop where
  next : txn = db.lastTxn + 1
  lastTxn : db'.lastTxn = txn
  rows : ∃ keyOf, db.Adds txn (t.rows (Segment.txnText txn)) keyOf db'
  kept : db.store.entries.Grows db'.store.entries
  new : ∀ key v, ¬InIndex key → db'.store.entries.get? key = some v → db.store.entries.get? key = some v ∨
    db.store.entries.get? key = none ∧ db.RegistersAt t key v

end Database

theorem Fact.ofRow_inj {txn : TxnNumber} {row row' : Row} (h : Fact.ofRow txn row = Fact.ofRow txn row') : row = row' := by
  obtain ⟨entity, attr, value, operation⟩ := row
  obtain ⟨entity', attr', value', operation'⟩ := row'
  cases h
  rfl

theorem Fact.Keyed.inIndex {m : KeyMap String} {f : Fact} {key : String} (h : f.Keyed m key)
    (hm : Dictionary.Settled m) : InIndex key := KeyInterval.stem_of_contains (h.under hm)

/-- **The entries of the index are the keys of the facts.** -/
theorem Ledger.get?_iff {m : KeyMap String} {facts : List Fact} (h : Ledger m facts) {key v : String}
    (hkey : InIndex key) : m.get? key = some v ↔ v = "" ∧ ∃ f ∈ facts, f.Keyed m key := by
  constructor
  · intro hv
    rcases h.keys key v hv with ⟨id, rfl⟩ | ⟨f, hf, hkeyed⟩
    · exact absurd hkey (not_stem_prefix_slot id)
    · obtain ⟨key', hkeyed', hget⟩ := h.stored f hf
      obtain rfl := hkeyed.unique hkeyed' h.settled
      exact ⟨Option.some.inj (hv.symm.trans hget), f, hf, hkeyed⟩
  · rintro ⟨rfl, f, hf, hkeyed⟩
    obtain ⟨key', hkeyed', hget⟩ := h.stored f hf
    obtain rfl := hkeyed.unique hkeyed' h.settled
    exact hget

/-- A choice of the keys of rows. -/
theorem Ledger.exists_keyOf {m : KeyMap String} {facts : List Fact} {rows : List Row} {txn : TxnNumber}
    (h : Ledger m (facts ++ rows.map (Fact.ofRow txn))) :
    ∃ keyOf : Row → String, ∀ row ∈ rows, (Fact.ofRow txn row).Keyed m (keyOf row) := by
  refine Classical.axiomOfChoice (r := fun row key => row ∈ rows → (Fact.ofRow txn row).Keyed m key) fun row => ?_
  by_cases hrow : row ∈ rows
  · obtain ⟨key, hkeyed, -⟩ := h.stored _ (List.mem_append_right _ (List.mem_map_of_mem hrow))
    exact ⟨key, fun _ => hkeyed⟩
  · exact ⟨"", fun hmem => absurd hmem hrow⟩

namespace Database

variable {db db' : Database} {t : Transaction}

theorem new_of_enters {m : KeyMap String} (h : Enters (db.registeredBy t) db.store.entries m) {key v : String}
    (hv : m.get? key = some v) : db.store.entries.get? key = some v ∨
      db.store.entries.get? key = none ∧ db.RegistersAt t key v :=
  (h.new key v hv).imp_right fun ⟨hfree, hmem, hslot⟩ => ⟨hfree, registeredBy_subset hmem, hslot⟩

/-- **A transaction that fails is rejected**, whatever the database holds. -/
theorem rejects_transact {e : Commit.Error} (herror : (db.transact t).result = .error e) :
    db.Rejects t (db.transact t).state := by
  obtain ⟨m, henters, hafter⟩ := db.enters_transact t
  have hdone := db.transacted t
  generalize db.transact t = o at *
  cases hdone with
  | commits => cases herror
  | @fails e db' events batches took lastTxn index registers =>
    obtain rfl : db'.store.entries = m := hafter
    exact ⟨lastTxn, henters.sameIndex, henters.kept, fun key v hv => new_of_enters henters hv⟩

/-- **The keys of new facts, written in one batch behind registrations.** -/
theorem adds_of_ledger {facts : List Fact} {rows : List Row} {txn : TxnNumber} {keyOf : Row → String}
    {registrations : List Batch} {keys : List String} (h : Ledger db.store.entries facts)
    (h' : Ledger db'.store.entries (facts ++ rows.map (Fact.ofRow txn))) (hnew : ∀ f ∈ facts, f.txn ≠ txn)
    (hkeyOf : ∀ row ∈ rows, (Fact.ofRow txn row).Keyed db'.store.entries (keyOf row))
    (wrote : db.store.Wrote (registrations ++ [keyBatch keys]) db'.store)
    (registers : Registers db.store.entries registrations)
    (keysOf : KeysOf (registrations.foldl KeyMap.insertAll db.store.entries) (rows.map (Fact.ofRow txn)) keys) :
    db.Adds txn rows keyOf db' := by
  have hentries : db'.store.entries =
      (registrations.foldl KeyMap.insertAll db.store.entries).insertAll (keyBatch keys) := by
    rw [wrote.entries, List.foldl_append]
    rfl
  have hlate : (registrations.foldl KeyMap.insertAll db.store.entries).Grows db'.store.entries :=
    hentries ▸ (h.registers registers).grows_keyBatch keysOf
  have hgrows : db.store.entries.Grows db'.store.entries := registers.grows.trans hlate
  have hindex : ∀ row ∈ rows, InIndex (keyOf row) := fun row hrow => (hkeyOf row hrow).inIndex h'.settled
  refine ⟨hindex, fun row hrow => ?_, fun row hrow => readsBack_of_keyed (hkeyOf row hrow) h'.settled,
    fun row hrow row' hrow' heq => ?_, fun key v hkey => ?_, registrations, keys, wrote, registers, fun key => ?_⟩
  · -- an earlier fact with this key would be the row's, but no earlier fact has the number
    refine Option.eq_none_iff_forall_ne_some.2 fun v hv => ?_
    obtain ⟨-, f, hf, hkeyed⟩ := (h.get?_iff (hindex row hrow)).1 hv
    exact hnew f hf (congrArg Fact.txn ((hkeyed.mono hgrows).inj (hkeyOf row hrow) h'.settled))
  · have hkeyed := hkeyOf row' hrow'
    rw [← heq] at hkeyed
    exact Fact.ofRow_inj ((hkeyOf row hrow).inj hkeyed h'.settled)
  · rw [h'.get?_iff hkey, h.get?_iff hkey]
    constructor
    · rintro ⟨rfl, f, hf, hkeyed⟩
      rcases List.mem_append.1 hf with hf | hf
      · obtain ⟨key', hkeyed', -⟩ := h.stored f hf
        obtain rfl := (hkeyed'.mono hgrows).unique hkeyed h'.settled
        exact .inl ⟨rfl, f, hf, hkeyed'⟩
      · obtain ⟨row, hrow, rfl⟩ := List.mem_map.1 hf
        exact .inr ⟨rfl, row, hrow, (hkeyOf row hrow).unique hkeyed h'.settled⟩
    · rintro (⟨rfl, f, hf, hkeyed⟩ | ⟨rfl, row, hrow, rfl⟩)
      · exact ⟨rfl, f, List.mem_append_left _ hf, hkeyed.mono hgrows⟩
      · exact ⟨rfl, _, List.mem_append_right _ (List.mem_map_of_mem hrow), hkeyOf row hrow⟩
  · constructor
    · intro hmem
      obtain ⟨f, hf, hkeyed⟩ := keysOf.sound key hmem
      obtain ⟨row, hrow, rfl⟩ := List.mem_map.1 hf
      exact ⟨row, hrow, (hkeyOf row hrow).unique (hkeyed.mono hlate) h'.settled⟩
    · rintro ⟨row, hrow, rfl⟩
      obtain ⟨key, hmem, hkeyed⟩ := keysOf.complete _ (List.mem_map_of_mem hrow)
      obtain rfl := (hkeyed.mono hlate).unique (hkeyOf row hrow) h'.settled
      exact hmem

end Database

namespace History

variable {h : History}

/-- **A transaction that succeeds is accepted.** -/
theorem Sound.accepts (hs : Sound h) (clean : h.db.store.faults.LeaveNothing) {t : Transaction} {txn : TxnNumber}
    (hok : (h.db.transact t).result = .ok txn) : h.db.Accepts t txn (h.db.transact t).state := by
  obtain ⟨m, henters, hafter⟩ := h.db.enters_transact t
  have htransact := hs.toServed.transact t
  have hdone := h.db.transacted t
  generalize h.db.transact t = o at *
  cases hdone with
  | fails => cases hok
  | @commits db' events registrations keys took lastTxn index bound nonempty registers keysOf =>
    obtain rfl := Except.ok.inj hok
    obtain ⟨-, hlast, hgrows, hs'⟩ := htransact
    obtain ⟨keys', hkeys', hentries⟩ := hafter
    have hledger : Ledger db'.store.entries (h.facts ++ t.asFacts (h.db.lastTxn + 1)) := h.facts_commit .. ▸ hs'.ledger
    have hnew : ∀ f ∈ h.facts, f.txn ≠ h.db.lastTxn + 1 := fun f hf heq => by
      have hle := hs.numbered.le f hf
      rw [heq, UInt64.le_iff_toNat_le, toNat_succ hs.bound] at hle
      exact Nat.not_succ_le_self _ hle
    obtain ⟨keyOf, hkeyOf⟩ := hledger.exists_keyOf
    have hadds := Database.adds_of_ledger hs.ledger hledger hnew hkeyOf (took.wrote clean) registers keysOf
    refine ⟨rfl, hlast, ⟨keyOf, hadds⟩, hgrows, fun key v hkey hv => Database.new_of_enters henters ?_⟩
    -- outside the index, the batch of keys has changed nothing
    rw [hentries, get?_keyBatch, if_neg] at hv
    · exact hv
    · intro hmem
      obtain ⟨f, -, hkeyed⟩ := hkeys'.sound key hmem
      exact hkey (hkeyed.inIndex (henters.settled hs.ledger.settled))

end History

/-! ## In between -/

namespace Database

/-- Where writing fails from some number of writes on, a transaction that succeeds has not come so far. -/
theorem write_le_of_stopped {db : Database} {t : Transaction} {n : Nat} {txn : TxnNumber}
    (hle : db.store.calls.write ≤ n) (hok : ((db.stopped n).transact t).result = .ok txn) :
    ((db.stopped n).transact t).state.store.calls.write ≤ n := by
  refine Nat.not_lt.1 fun hlt => ?_
  have hstruck : (db.stopped n).store.Struck ((db.stopped n).transact t).state.store .lockPoisoned :=
    .write hle hlt (if_neg (Nat.lt_irrefl n))
  obtain ⟨cause, e, -, herror, -⟩ := (db.stopped n).reports_transact t hstruck
  rw [hok] at herror
  cases herror

/-- **Every store that a transaction passes has the index from before or the index from after.** -/
theorem Passes.sameIndex {db : Database} {t : Transaction} {store : Store} (h : db.Passes t store) :
    db.store.entries.SameIndex store.entries ∨
      store.entries.SameIndex (db.transact t).state.store.entries := by
  rw [h.entries_eq]
  cases hresult : ((db.stopped store.calls.write).transact t).result with
  | error e => exact .inl (rejects_transact hresult).index
  | ok txn =>
    refine .inr fun key _ => ?_
    rw [(transact_stopped (write_le_of_stopped h.write_le hresult)).2]

end Database

namespace History

/-- **A transaction is one change of the stored facts.**  After every run and whichever calls fail, a failing write
leaving nothing, a transaction that succeeds is accepted and one that fails is rejected.  Every store that it passes has
the index from before or the index from after.  And where a call fails, the transaction fails with the error of that
call, reported by itself or through the dictionary; only a log file that refuses a batch as too large comes before the
error of writing it. -/
theorem transact_is_atomic (durable : Bool) (steps : List Step) {faults : Faults} (clean : faults.LeaveNothing)
    (t : Transaction) :
    let db := (run durable steps).db.withFaults faults
    let o := db.transact t
    (∀ txn, o.result = .ok txn → db.Accepts t txn o.state) ∧
    (∀ e, o.result = .error e → db.Rejects t o.state) ∧
    (∀ store, db.Passes t store →
      db.store.entries.SameIndex store.entries ∨ store.entries.SameIndex o.state.store.entries) ∧
    ∀ e, db.store.Struck o.state.store e → ∃ cause, db.store.FailsWith e cause ∧
      (o.result = .error (.store cause) ∨ o.result = .error (.dictionary (.store cause))) := by
  intro db o
  have hs : Sound ⟨db, (run durable steps).committed⟩ := (sound_run durable steps).withFaults faults
  refine ⟨fun txn hok => hs.accepts clean hok, fun e herror => Database.rejects_transact herror,
    fun store hpasses => hpasses.sameIndex, fun e hstruck => ?_⟩
  obtain ⟨cause, e', hfails, hresult, hreported⟩ := db.reports_transact t hstruck
  refine ⟨cause, hfails, ?_⟩
  rcases hreported with rfl | rfl
  · exact .inl hresult
  · exact .inr hresult

def oneFact : Transaction := ⟨[⟨"0001", "name", "bob", true⟩], []⟩

/-- The third literal cannot be written, so the transaction is rejected; where nothing fails, it is accepted. -/
theorem transact_is_atomic_oneFact :
    let db := (run false []).db.withFaults (Faults.never.stopWrites 2)
    let db' := (run false []).db.withFaults .never
    (Faults.never.stopWrites 2).LeaveNothing ∧ Faults.never.LeaveNothing ∧
      db.store.Struck (db.transact oneFact).state.store .lockPoisoned ∧
      (∃ e, (db.transact oneFact).result = .error e ∧ Commit.Reported .lockPoisoned e) ∧
      db.Rejects oneFact (db.transact oneFact).state ∧
      (db'.transact oneFact).result = .ok 1 ∧ db'.Accepts oneFact 1 (db'.transact oneFact).state := by
  intro db db'
  have clean : (Faults.never.stopWrites 2).LeaveNothing := Faults.leaveNothing_never.stopWrites 2
  have hcalls : (db.transact oneFact).state.store.calls.write = 3 := by decide +kernel
  have hstruck : db.store.Struck (db.transact oneFact).state.store .lockPoisoned :=
    .write (Nat.zero_le 2) (hcalls ▸ Nat.lt_succ_self 2) rfl
  obtain ⟨-, hrejects, -, hreports⟩ := transact_is_atomic false [] clean oneFact
  obtain ⟨haccepts, -⟩ := transact_is_atomic false [] Faults.leaveNothing_never oneFact
  obtain ⟨e, herror, hreported⟩ : ∃ e, (db.transact oneFact).result = .error e ∧
      Commit.Reported .lockPoisoned e := by
    obtain ⟨cause, rfl | ⟨hdurable, -⟩, hresult⟩ := hreports _ hstruck
    · exact hresult.elim (fun h => ⟨_, h, .inl rfl⟩) fun h => ⟨_, h, .inr rfl⟩
    · cases hdurable
  have hok : (db'.transact oneFact).result = .ok 1 := by
    have hsome : (db'.transact oneFact).result.toOption = some 1 := by decide +kernel
    cases hresult : (db'.transact oneFact).result with
    | error e =>
      rw [hresult] at hsome
      cases hsome
    | ok txn =>
      rw [hresult] at hsome
      exact congrArg Except.ok (Option.some.inj hsome)
  exact ⟨clean, Faults.leaveNothing_never, hstruck, ⟨e, herror, hreported⟩, hrejects e herror, hok, haccepts 1 hok⟩

end History
end FactBase
