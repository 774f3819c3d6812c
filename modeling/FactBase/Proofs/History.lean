import FactBase.Proofs.Trail
/-!
# History — what a database has been through

A history is a database with the transactions it has committed, under the numbers they were given.  It starts empty,
in memory or on a new log file, and goes on by transactions and reopenings whose calls fail as a schedule says.  As long
as nothing is reopened, what failing writes leave in the log file is not seen: the store keeps a ledger of exactly the
committed facts, and the last number counts the commits (`Served`).  A reopening does see it, and can lose what was
committed.  So a run is one of steps whose failing writes leave nothing; along it a log file builds the map that is
served, and a reopening changes nothing (`sound_run`).
-/
namespace FactBase

namespace Database

/-- An empty database on the log file that opening has created. -/
def created : Database := ⟨(Commit.recover.on (.ofLog [])).state, 0, .eavto⟩

def withFaults (db : Database) (faults : Faults) : Database :=
  { db with store := { db.store with faults := faults } }

/-- Opens the database again: a durable one on its log file, one in memory over its store. -/
def reopen (db : Database) : Outcome Store Database.OpenError Database :=
  match db.store.file with
  | none => ofStore db.store
  | some bytes =>
    let o := ofFile (.present bytes)
    ⟨o.result, o.state.getD db.store, o.events⟩

/-- The stored keys of the index that commits maintain. -/
def indexKeys (db : Database) : List String :=
  db.store.entries.keys.filter fun key => (Key.stem Commit.index).toList.isPrefixOf key.toList

end Database

/-- What is done to a database.  A call fails where the schedule says so, and a write that fails leaves nothing in the
log file. -/
inductive Step where
  | transact (faults : Faults) (clean : faults.LeaveNothing) (t : Transaction)
  | reopen (faults : Faults)

structure History where
  db : Database
  /-- The transactions that succeeded, oldest first. -/
  committed : List Committed

namespace History

def start (durable : Bool) : History := ⟨if durable then .created else .inMemory, []⟩

/-- A transaction, whose failing writes may leave anything in the log file. -/
def attempt (h : History) (faults : Faults) (t : Transaction) : History :=
  let o := (h.db.withFaults faults).transact t
  match o.result with
  | .ok txn => ⟨o.state, h.committed ++ [⟨txn, t, o.state.store.fileLength⟩]⟩
  | .error _ => ⟨o.state, h.committed⟩

/-- A reopening.  After one that fails the store is still there to be opened again. -/
def reopened (h : History) (faults : Faults) : History :=
  let o := (h.db.withFaults faults).reopen
  match o.result with
  | .ok db => ⟨db, h.committed⟩
  | .error _ => ⟨{ h.db with store := o.state }, h.committed⟩

/-- Transactions one after the other, with nothing reopened between them. -/
def attempts (h : History) (moves : List (Faults × Transaction)) : History :=
  moves.foldl (fun h move => h.attempt move.1 move.2) h

@[simp] theorem attempts_nil (h : History) : h.attempts [] = h := rfl

def step (h : History) : Step → History
  | .transact faults _ t => h.attempt faults t
  | .reopen faults => h.reopened faults

/-- The steps, one after the other. -/
def run (durable : Bool) (steps : List Step) : History := steps.foldl step (start durable)

/-- The log of facts: those of the committed transactions, oldest first. -/
def facts (h : History) : List Fact := h.committed.flatMap Committed.facts

/-- **What holds of all that is served**, whatever failing writes have left in the log file. -/
structure Served (h : History) : Prop where
  ledger : Ledger h.db.store.entries h.facts
  numbered : Numbered h.facts h.db.lastTxn
  lastTxn : h.db.lastTxn.toNat = h.committed.length
  numbers : h.committed.map (·.txn.toNat) = List.range' 1 h.committed.length
  bound : h.db.lastTxn ≤ maxTxn
  index : h.db.index = .eavto

/-- **What holds of every run.** -/
structure Sound (h : History) : Prop extends Served h where
  /-- A log file holds the batches that built the map. -/
  durable : h.db.store.file.isSome = true → ∃ batches, Log.Serves h.db.store batches

end History

namespace Database

/-- What a transaction can do to a database.  One that commits leaves, behind the literals that it registered, one
batch with the keys of its facts; one that fails leaves registered literals. -/
inductive Transacted (db : Database) (t : Transaction) : Outcome Database Commit.Error TxnNumber → Prop where
  | commits {db' : Database} {events : List Event} {registrations : List Batch} {keys : List String}
      (took : db.store.Took (registrations ++ [keyBatch keys]) db'.store) (lastTxn : db'.lastTxn = db.lastTxn + 1)
      (index : db'.index = db.index) (bound : db.lastTxn + 1 ≤ maxTxn) (nonempty : t.isEmpty = false)
      (registers : Registers db.store.entries registrations)
      (keysOf : KeysOf (registrations.foldl KeyMap.insertAll db.store.entries) (t.asFacts (db.lastTxn + 1)) keys) :
      Transacted db t ⟨.ok (db.lastTxn + 1), db', events⟩
  | fails {e : Commit.Error} {db' : Database} {events : List Event} {batches : List Batch}
      (took : db.store.Took batches db'.store) (lastTxn : db'.lastTxn = db.lastTxn) (index : db'.index = db.index)
      (registers : Registers db.store.entries batches) : Transacted db t ⟨.error e, db', events⟩

/-- **A transaction does what it can do**, whichever of its calls fail. -/
theorem transacted (db : Database) (t : Transaction) : db.Transacted t (db.transact t) := by
  obtain ⟨r, s', batches, hrun, htook, hpost⟩ := Commit.does_run db.store.entries db.lastTxn t (.start db.store) rfl
  unfold transact Run.on
  rw [hrun]
  cases r with
  | error e => exact .fails htook rfl rfl hpost
  | ok txn =>
    obtain ⟨rfl, hle, hempty, registrations, keys, rfl, hreg, hkeys⟩ := hpost
    exact .commits htook rfl rfl hle hempty hreg hkeys

theorem entries_ofLog_nil : (Store.ofLog []).entries = .empty := by
  rw [Store.ofLog, Log.read_nil]
  rfl

theorem ledger_ofLog_nil : Ledger (Store.ofLog []).entries [] := entries_ofLog_nil ▸ Ledger.empty

theorem serves_created : Log.Serves created.store [] := by
  obtain ⟨hwrote, -⟩ := ofStore_of_numbered ledger_ofLog_nil .empty
  exact ⟨fun b hb => (by cases hb), hwrote.file_nil, hwrote.entries.trans entries_ofLog_nil⟩

end Database

namespace History

theorem durable_of_wrote {s s' : Store} {more : List Batch} (h : s.file.isSome = true → ∃ batches, Log.Serves s batches)
    (hwrote : s.Wrote more s') (hsome : s'.file.isSome = true) : ∃ batches, Log.Serves s' batches := by
  rw [hwrote.file, Option.isSome_map] at hsome
  obtain ⟨batches, hserves⟩ := h hsome
  exact ⟨batches ++ more, hserves.wrote hwrote⟩

theorem entries_start (durable : Bool) : (start durable).db.store.entries = .empty := by
  cases durable with
  | false => rfl
  | true => exact Database.serves_created.entries

theorem sound_start (durable : Bool) : Sound (start durable) := by
  have hledger : Ledger (start durable).db.store.entries [] := entries_start durable ▸ .empty
  cases durable with
  | false => exact ⟨⟨hledger, .empty, rfl, rfl, by decide, rfl⟩, fun h => by cases h⟩
  | true => exact ⟨⟨hledger, .empty, rfl, rfl, by decide, rfl⟩, fun _ => ⟨[], Database.serves_created⟩⟩

theorem Served.withFaults {h : History} (hs : Served h) (faults : Faults) :
    Served ⟨h.db.withFaults faults, h.committed⟩ :=
  ⟨hs.ledger, hs.numbered, hs.lastTxn, hs.numbers, hs.bound, hs.index⟩

theorem Sound.withFaults {h : History} (hs : Sound h) (faults : Faults) :
    Sound ⟨h.db.withFaults faults, h.committed⟩ where
  toServed := hs.toServed.withFaults faults
  durable := fun hsome => by
    obtain ⟨batches, hserves⟩ := hs.durable hsome
    exact ⟨batches, hserves.fits, hserves.file, hserves.entries⟩

theorem facts_commit (h : History) (db : Database) (txn : TxnNumber) (t : Transaction) (stop : Nat) :
    facts ⟨db, h.committed ++ [⟨txn, t, stop⟩]⟩ = h.facts ++ t.asFacts txn := by
  rw [facts, List.flatMap_append, List.flatMap_singleton]
  rfl

/-- **A transaction that succeeds adds its facts**, one that fails leaves the facts as they are.  Either way every
look-up that succeeded before does so still. -/
theorem Served.transact {h : History} (hs : Served h) (t : Transaction) :
    match h.db.transact t with
    | ⟨.ok txn, db, _⟩ => txn = h.db.lastTxn + 1 ∧ db.lastTxn = txn ∧ h.db.store.entries.Grows db.store.entries ∧
      Served ⟨db, h.committed ++ [⟨txn, t, db.store.fileLength⟩]⟩
    | ⟨.error _, db, _⟩ => db.lastTxn = h.db.lastTxn ∧ h.db.store.entries.Grows db.store.entries ∧
      Served ⟨db, h.committed⟩ := by
  have hdone := h.db.transacted t
  generalize h.db.transact t = o at hdone ⊢
  cases hdone with
  | @fails e db events batches took lastTxn index registers =>
    refine ⟨lastTxn, ?_, ?_, lastTxn ▸ hs.numbered, lastTxn ▸ hs.lastTxn, hs.numbers, lastTxn ▸ hs.bound,
      index.trans hs.index⟩
    · rw [took.entries]
      exact registers.grows
    · rw [took.entries]
      exact hs.ledger.registers registers
  | @commits db events registrations keys took lastTxn index bound nonempty registers keysOf =>
    have hledger := hs.ledger.registers registers
    refine ⟨rfl, lastTxn, ?_, ?_, ?_, ?_, ?_, lastTxn ▸ bound, index.trans hs.index⟩
    · rw [took.entries, List.foldl_append]
      exact registers.grows.trans (hledger.grows_keyBatch keysOf)
    · rw [facts_commit, took.entries, List.foldl_append]
      exact hledger.commit keysOf
    · rw [facts_commit, lastTxn]
      exact hs.numbered.commit hs.bound nonempty
    · rw [lastTxn, List.length_append, ← hs.lastTxn]
      exact toNat_succ hs.bound
    · rw [List.map_append, hs.numbers, List.length_append, List.length_singleton, List.range'_concat, ← hs.lastTxn,
        Nat.one_mul, Nat.add_comm 1]
      exact congrArg _ (congrArg (fun k => [k]) (toNat_succ hs.bound))

/-- **A transaction whose failing writes leave nothing keeps the log file** one that builds the map. -/
theorem Sound.transact {h : History} (hs : Sound h) (clean : h.db.store.faults.LeaveNothing) (t : Transaction) :
    match h.db.transact t with
    | ⟨.ok txn, db, _⟩ => Sound ⟨db, h.committed ++ [⟨txn, t, db.store.fileLength⟩]⟩
    | ⟨.error _, db, _⟩ => Sound ⟨db, h.committed⟩ := by
  have hserved := hs.toServed.transact t
  have hdone := h.db.transacted t
  generalize h.db.transact t = o at hserved hdone ⊢
  cases hdone with
  | fails took => exact ⟨hserved.2.2, durable_of_wrote hs.durable (took.wrote clean)⟩
  | commits took => exact ⟨hserved.2.2.2, durable_of_wrote hs.durable (took.wrote clean)⟩

/-- **A reopening changes nothing.**  It fails only in memory, where the scan for the last number does. -/
theorem Sound.reopen {h : History} (hs : Sound h) :
    match h.db.reopen with
    | ⟨.ok db, _, _⟩ => db.lastTxn = h.db.lastTxn ∧ db.store.Keeps h.db.store ∧ Sound ⟨db, h.committed⟩
    | ⟨.error _, s, _⟩ => (h.db.store.file = none ∧ (h.db.store.faults.scan h.db.store.calls.scan).isSome = true) ∧
      s.Keeps h.db.store ∧ Sound ⟨{ h.db with store := s }, h.committed⟩ := by
  cases hfile : h.db.store.file with
  | none =>
    have hreopen : h.db.reopen = Database.ofStore h.db.store := by
      rw [Database.reopen, hfile]
    obtain ⟨hwrote, hresult⟩ := Database.ofStore_of_numbered hs.ledger hs.numbered
    rw [hreopen]
    have hdurable := durable_of_wrote hs.durable hwrote
    have hkeeps : (Database.ofStore h.db.store).state.Keeps h.db.store := ⟨hwrote.entries, hwrote.file_nil⟩
    generalize Database.ofStore h.db.store = o at *
    obtain ⟨r, s, events⟩ := o
    rcases hresult with hok | ⟨hfault, cause, herror⟩
    · obtain rfl : r = .ok ⟨s, h.db.lastTxn, .eavto⟩ := hok
      refine ⟨rfl, hkeeps, ⟨?_, hs.numbered, hs.lastTxn, hs.numbers, hs.bound, rfl⟩, hdurable⟩
      exact (hkeeps.entries ▸ hs.ledger :)
    · obtain rfl : r = .error (.recovery (.store cause)) := herror
      refine ⟨⟨rfl, hfault⟩, hkeeps, ⟨?_, hs.numbered, hs.lastTxn, hs.numbers, hs.bound, hs.index⟩, hdurable⟩
      exact hkeeps.entries ▸ hs.ledger
  | some bytes =>
    obtain ⟨batches, hserves⟩ := hs.durable (by rw [hfile]; rfl)
    obtain rfl := Option.some.inj (hfile.symm.trans hserves.file)
    have hread := Log.read_ofBatches hserves.fits
    have hentries : (Log.read (Log.ofBatches batches)).entries = h.db.store.entries := by
      rw [Log.Reading.entries, hread, hserves.entries]
    obtain ⟨db, hok, hstate, hlast, hindex, hserves'⟩ := Database.ofFile_of_numbered (hentries ▸ hs.ledger) hs.numbered
    have hreopen : h.db.reopen.result = .ok db := by
      rw [Database.reopen, hfile]
      exact hok
    generalize h.db.reopen = o at *
    obtain ⟨r, s, events⟩ := o
    obtain rfl : r = .ok db := hreopen
    rw [hread] at hserves'
    have hkeeps : db.store.Keeps h.db.store :=
      ⟨hserves'.entries.trans hserves.entries.symm, hserves'.file.trans hserves.file.symm⟩
    refine ⟨hlast, hkeeps, ⟨?_, hlast ▸ hs.numbered, hlast ▸ hs.lastTxn, hs.numbers, hlast ▸ hs.bound, hindex⟩,
      fun _ => ⟨_, hserves'⟩⟩
    rw [hkeeps.entries]
    exact hs.ledger

/-! ## Steps -/

theorem db_attempt (h : History) (faults : Faults) (t : Transaction) :
    (h.attempt faults t).db = ((h.db.withFaults faults).transact t).state := by
  unfold attempt
  dsimp only
  split <;> rfl

/-- What holds after a transaction, by its outcome. -/
theorem attempt_of_transact {P : History → Prop} {h : History} {faults : Faults} {t : Transaction}
    (htransact : match (h.db.withFaults faults).transact t with
      | ⟨.ok txn, db, _⟩ => P ⟨db, h.committed ++ [⟨txn, t, db.store.fileLength⟩]⟩
      | ⟨.error _, db, _⟩ => P ⟨db, h.committed⟩) : P (h.attempt faults t) := by
  unfold attempt
  dsimp only
  generalize (h.db.withFaults faults).transact t = o at htransact ⊢
  obtain ⟨r, db, events⟩ := o
  cases r with
  | ok txn => exact htransact
  | error e => exact htransact

theorem attempt_of_ok {h : History} {faults : Faults} {t : Transaction} {txn : TxnNumber}
    (hok : ((h.db.withFaults faults).transact t).result = .ok txn) :
    h.attempt faults t =
      let db := ((h.db.withFaults faults).transact t).state
      ⟨db, h.committed ++ [⟨txn, t, db.store.fileLength⟩]⟩ := by
  unfold attempt
  dsimp only
  rw [hok]

theorem committed_reopened (h : History) (faults : Faults) : (h.reopened faults).committed = h.committed := by
  unfold reopened
  dsimp only
  split <;> rfl

theorem facts_reopened (h : History) (faults : Faults) : (h.reopened faults).facts = h.facts := by
  rw [facts, committed_reopened, facts]

theorem Served.attempt {h : History} (hs : Served h) (faults : Faults) (t : Transaction) :
    Served (h.attempt faults t) := by
  refine attempt_of_transact ?_
  have htransact := (hs.withFaults faults).transact t
  generalize (h.db.withFaults faults).transact t = o at htransact ⊢
  obtain ⟨r, db, events⟩ := o
  cases r with
  | ok txn => exact htransact.2.2.2
  | error e => exact htransact.2.2

/-- **What is served stays so** as long as nothing is reopened. -/
theorem Served.attempts : ∀ (moves : List (Faults × Transaction)) {h : History}, Served h → Served (h.attempts moves)
  | [], _, hs => hs
  | (faults, t) :: moves, _, hs => Served.attempts moves (hs.attempt faults t)

theorem Sound.attempt {h : History} (hs : Sound h) {faults : Faults} (clean : faults.LeaveNothing) (t : Transaction) :
    Sound (h.attempt faults t) := attempt_of_transact ((hs.withFaults faults).transact clean t)

/-- **A reopening changes nothing, also one that fails.** -/
theorem Sound.reopened {h : History} (hs : Sound h) (faults : Faults) :
    Sound (h.reopened faults) ∧ (h.reopened faults).db.store.Keeps h.db.store ∧
      (h.reopened faults).db.lastTxn = h.db.lastTxn := by
  have hreopen := (hs.withFaults faults).reopen
  unfold History.reopened
  dsimp only at hreopen ⊢
  generalize (h.db.withFaults faults).reopen = o at *
  obtain ⟨r, s, events⟩ := o
  cases r with
  | ok db =>
    obtain ⟨hlast, hkeeps, hs'⟩ := hreopen
    exact ⟨hs', ⟨hkeeps.entries, hkeeps.file⟩, hlast⟩
  | error e =>
    obtain ⟨-, hkeeps, hs'⟩ := hreopen
    exact ⟨hs', ⟨hkeeps.entries, hkeeps.file⟩, rfl⟩

/-- **One step keeps a history sound.** -/
theorem Sound.step {h : History} (hs : Sound h) : ∀ s : Step, Sound (h.step s)
  | .transact _ clean t => hs.attempt clean t
  | .reopen faults => (hs.reopened faults).1

theorem Sound.steps : ∀ (steps : List Step) {h : History}, Sound h → Sound (steps.foldl History.step h)
  | [], _, hs => hs
  | s :: steps, _, hs => Sound.steps steps (hs.step s)

/-- **Every run is sound.** -/
theorem sound_run (durable : Bool) (steps : List Step) : Sound (run durable steps) :=
  (sound_start durable).steps steps

end History
end FactBase
