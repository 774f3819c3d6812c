import FactBase.Proofs.History
import FactBase.Proofs.Registering
import FactBase.Proofs.Strikes
/-!
# Issuing — literals and their identifiers, over whole runs

A run registers literals, each by itself or in transactions, and any of its calls may fail.  A literal is registered
once a registration of it has succeeded.  At every point of a run the slots hold the registered literals and no others,
each where its chain leads to (`sound_run`), so looking up is a bijection that only ever grows
(`identifiers_are_stable`).
-/
namespace FactBase

open Dictionary (slot chain seek identify Settled Enters)

namespace Dictionary

/-- **Registering what is registered** gives its identifier and makes no write call. -/
theorem weathers_claim {m : KeyMap String} {literal : String} {id : Identifier} : ∀ {ids : List Identifier},
    seek m literal ids = some id → (claim literal ids).Weathers m Dictionary.Error.store (.ok id)
  | id' :: rest, h => by
    refine .bind (.mapError Dictionary.Error.store (.get (slot id'))) ?_
    unfold seek at h
    cases hget : m.get? (slot id') with
    | none =>
      rw [hget] at h
      cases h
    | some held =>
      rw [hget] at h
      dsimp only at h ⊢
      split at h
      · rename_i heq
        obtain rfl := Option.some.inj h
        rw [if_pos heq]
        exact .pure id'
      · rename_i hne
        rw [if_neg hne]
        exact weathers_claim h

theorem reads_literalOf_slot (m : KeyMap String) (id : Identifier) :
    (literalOf id).Reads m ((m.get? (slot id)).elim (.error (.notFound id.segment)) .ok) := by
  refine .bind (reads_read m id) ?_
  cases m.get? (slot id) with
  | none => exact .throw _
  | some literal => exact .pure literal

end Dictionary

/-- What is written to a database: a literal by itself, or a transaction.  A call fails where the schedule says so, and
a failing write may leave anything in the log file. -/
inductive Writing where
  | literal (faults : Faults) (text : String)
  | transaction (faults : Faults) (t : Transaction)

/-- A database, and the literals for which a registration has succeeded. -/
structure Issuing where
  db : Database
  registered : List String

namespace Issuing

def start (durable : Bool) : Issuing := ⟨(History.start durable).db, []⟩

def step (x : Issuing) : Writing → Issuing
  | .literal faults text =>
    let o := (x.db.withFaults faults).run (Dictionary.register text)
    match o.result with
    | .ok _ => ⟨o.state, x.registered ++ [text]⟩
    | .error _ => ⟨o.state, x.registered⟩
  | .transaction faults t =>
    let db := x.db.withFaults faults
    ⟨(db.transact t).state, x.registered ++ db.registeredBy t⟩

def run (durable : Bool) (writings : List Writing) : Issuing := writings.foldl step (start durable)

/-- **What holds at every point of a run**: the slots hold the registered literals, each where its chain leads to. -/
structure Sound (x : Issuing) : Prop where
  settled : Settled x.db.store.entries
  registered : ∀ l, l ∈ x.registered ↔ ∃ id, x.db.store.entries.get? (slot id) = some l

/-- From one map to a later one, no slot has lost its literal. -/
def Keeps (m m' : KeyMap String) : Prop := ∀ id l, m.get? (slot id) = some l → m'.get? (slot id) = some l

theorem sound_start (durable : Bool) : Sound (start durable) := by
  have hledger := (History.sound_start durable).ledger
  refine ⟨hledger.settled, fun l => ⟨fun hl => (by cases hl), ?_⟩⟩
  rintro ⟨id, hget⟩
  have hentries : (start durable).db.store.entries = .empty := History.entries_start durable
  rw [hentries] at hget
  cases hget

/-- Entering literals keeps a dictionary sound, if they are counted as registered. -/
theorem Sound.enters {x x' : Issuing} {new : List String} {m : KeyMap String} (hs : Sound x)
    (henters : Enters new x.db.store.entries m) (hslots : ∀ id, x'.db.store.entries.get? (slot id) = m.get? (slot id))
    (hregistered : x'.registered = x.registered ++ new) :
    Sound x' ∧ Keeps x.db.store.entries x'.db.store.entries := by
  refine ⟨⟨(henters.settled hs.settled).congr hslots, fun l => ?_⟩, fun id l hget => ?_⟩
  · rw [hregistered, List.mem_append, hs.registered]
    simp only [hslots]
    constructor
    · rintro (⟨id, hget⟩ | hl)
      · exact ⟨id, henters.kept _ _ hget⟩
      · obtain ⟨id, -, hget⟩ := henters.held l hl
        exact ⟨id, hget⟩
    · rintro ⟨id, hget⟩
      exact (henters.new _ _ hget).imp (fun hold => ⟨id, hold⟩) fun hnew => hnew.2.1
  · rw [hslots]
    exact henters.kept _ _ hget

/-- **One writing keeps the dictionary sound**, and every slot that was filled. -/
theorem Sound.step {x : Issuing} (hs : Sound x) (w : Writing) :
    Sound (x.step w) ∧ Keeps x.db.store.entries (x.step w).db.store.entries := by
  cases w with
  | literal faults text =>
    have hregister := Dictionary.enters_register text (.start (x.db.withFaults faults).store)
    unfold Issuing.step Database.run Run.on
    dsimp only
    generalize Dictionary.register text (.start (x.db.withFaults faults).store) = o at hregister ⊢
    obtain ⟨r, s⟩ := o
    cases r with
    | ok id => exact hs.enters hregister (fun _ => rfl) rfl
    | error e =>
      have hentries : s.store.entries = x.db.store.entries := hregister
      exact hs.enters (.nothing _) (fun id => congrArg (·.get? (slot id)) hentries) (List.append_nil _).symm
  | transaction faults t =>
    obtain ⟨m, henters, hafter⟩ := (x.db.withFaults faults).enters_transact t
    refine hs.enters henters (fun id => ?_) rfl
    change ((x.db.withFaults faults).transact t).state.store.entries.get? (slot id) = _
    generalize (x.db.withFaults faults).transact t = o at hafter ⊢
    obtain ⟨r, db, events⟩ := o
    cases r with
    | error e => exact congrArg (·.get? (slot id)) hafter
    | ok txn =>
      obtain ⟨keys, hkeys, hentries⟩ := hafter
      change db.store.entries.get? (slot id) = _
      rw [hentries]
      exact hkeys.get?_slot (henters.settled hs.settled) id

theorem Sound.steps : ∀ (writings : List Writing) {x : Issuing}, Sound x →
    Sound (writings.foldl Issuing.step x) ∧ Keeps x.db.store.entries (writings.foldl Issuing.step x).db.store.entries
  | [], _, hs => ⟨hs, fun _ _ hget => hget⟩
  | w :: writings, _, hs => by
    obtain ⟨hs', hkeeps⟩ := hs.step w
    obtain ⟨hs'', hkeeps'⟩ := hs'.steps writings
    exact ⟨hs'', fun id l hget => hkeeps' id l (hkeeps id l hget)⟩

/-- **What holds at every point holds of a run.** -/
theorem sound_run (durable : Bool) (writings : List Writing) : Sound (run durable writings) :=
  ((sound_start durable).steps writings).1

theorem keeps_run (durable : Bool) (writings more : List Writing) :
    Keeps (run durable writings).db.store.entries (run durable (writings ++ more)).db.store.entries := by
  rw [run, run, List.foldl_append]
  exact ((sound_run durable writings).steps more).2

/-! ## Looking up -/

theorem Sound.idOf_eq_ok_iff {x : Issuing} (hs : Sound x) {faults : Faults} (hworks : faults.ReadsWork) {l : String}
    {id : Identifier} : ((x.db.withFaults faults).run (Dictionary.idOf l)).result = .ok id ↔
      x.db.store.entries.get? (slot id) = some l := by
  have hreads : (Dictionary.idOf l).Reads (x.db.withFaults faults).store.entries _ := Dictionary.reads_idOf _ l
  rw [Database.result_run hreads hworks, ← hs.settled.held_iff]
  change Option.elim (identify x.db.store.entries l) _ _ = _ ↔ _
  cases identify x.db.store.entries l with
  | none => exact ⟨fun h => (by cases h), fun h => (by cases h)⟩
  | some id' => exact ⟨fun h => congrArg some (Except.ok.inj h), fun h => congrArg Except.ok (Option.some.inj h)⟩

theorem Sound.idOf_eq_notFound_iff {x : Issuing} (hs : Sound x) {faults : Faults} (hworks : faults.ReadsWork)
    {l : String} : ((x.db.withFaults faults).run (Dictionary.idOf l)).result = .error (.notFound l) ↔
      ∀ id, x.db.store.entries.get? (slot id) ≠ some l := by
  have hreads : (Dictionary.idOf l).Reads (x.db.withFaults faults).store.entries _ := Dictionary.reads_idOf _ l
  rw [Database.result_run hreads hworks]
  simp only [← hs.settled.held_iff, ne_eq]
  change Option.elim (identify x.db.store.entries l) _ _ = _ ↔ _
  cases identify x.db.store.entries l with
  | none => exact ⟨fun _ id h => (by cases h), fun _ => rfl⟩
  | some id' => exact ⟨fun h => (by cases h), fun h => absurd rfl (h id')⟩

theorem literalOf_eq_ok_iff (db : Database) {faults : Faults} (hworks : faults.ReadsWork) {l : String}
    {id : Identifier} : ((db.withFaults faults).run (Dictionary.literalOf id)).result = .ok l ↔
      db.store.entries.get? (slot id) = some l := by
  have hreads : (Dictionary.literalOf id).Reads (db.withFaults faults).store.entries _ :=
    Dictionary.reads_literalOf_slot _ id
  rw [Database.result_run hreads hworks]
  change Option.elim (db.store.entries.get? (slot id)) _ _ = _ ↔ _
  cases db.store.entries.get? (slot id) with
  | none => exact ⟨fun h => (by cases h), fun h => (by cases h)⟩
  | some l' => exact ⟨fun h => congrArg some (Except.ok.inj h), fun h => congrArg Except.ok (Option.some.inj h)⟩

/-- **The dictionary is a stable bijection.**  At every point of every run of registrations and transactions, whichever
of their calls have failed, and wherever all reads work now: a literal has an identifier exactly if that identifier has
the literal.  Looking up a literal tells that it is not found exactly if no registration of it has succeeded.
Registering one that is registered gives its identifier and only reads.  And a literal keeps its identifier, whatever
is written afterwards. -/
theorem identifiers_are_stable (durable : Bool) (writings : List Writing) :
    let x := run durable writings
    (∀ faults : Faults, faults.ReadsWork → ∀ l id,
      ((x.db.withFaults faults).run (Dictionary.idOf l)).result = .ok id ↔
        ((x.db.withFaults faults).run (Dictionary.literalOf id)).result = .ok l) ∧
    (∀ faults : Faults, faults.ReadsWork → ∀ l,
      ((x.db.withFaults faults).run (Dictionary.idOf l)).result = .error (.notFound l) ↔ l ∉ x.registered) ∧
    (∀ faults : Faults, faults.ReadsWork → ∀ l ∈ x.registered, ∃ id,
      ((x.db.withFaults faults).run (Dictionary.idOf l)).result = .ok id ∧
        ((x.db.withFaults faults).run (Dictionary.register l)).result = .ok id ∧
        (x.db.withFaults faults).store.OnlyRead ((x.db.withFaults faults).run (Dictionary.register l)).state.store) ∧
    ∀ (more : List Writing) (faults faults' : Faults), faults.ReadsWork → faults'.ReadsWork → ∀ l id,
      ((x.db.withFaults faults).run (Dictionary.idOf l)).result = .ok id →
        (((run durable (writings ++ more)).db.withFaults faults').run (Dictionary.idOf l)).result = .ok id := by
  intro x
  have hs : Sound x := sound_run durable writings
  refine ⟨fun faults hworks l id => ?_, fun faults hworks l => ?_, fun faults hworks l hl => ?_,
    fun more faults faults' hworks hworks' l id hid => ?_⟩
  · rw [hs.idOf_eq_ok_iff hworks, literalOf_eq_ok_iff x.db hworks]
  · rw [hs.idOf_eq_notFound_iff hworks, hs.registered, not_exists]
  · obtain ⟨id, hget⟩ := (hs.registered l).1 hl
    have hweathers := Dictionary.weathers_claim (hs.settled id l hget)
    obtain ⟨r, s, hrun, hread, -⟩ := hweathers (.start (x.db.withFaults faults).store) rfl
    have hresult := hweathers.of_works (s := .start (x.db.withFaults faults).store) rfl hworks
    have hregister : (x.db.withFaults faults).run (Dictionary.register l) =
        ⟨r, { x.db.withFaults faults with store := s.store }, s.events⟩ := by
      unfold Database.run Run.on Dictionary.register
      rw [hrun]
    rw [hrun] at hresult
    rw [hregister]
    exact ⟨id, (hs.idOf_eq_ok_iff hworks).2 hget, hresult, hread⟩
  · rw [hs.idOf_eq_ok_iff hworks] at hid
    rw [(sound_run durable (writings ++ more)).idOf_eq_ok_iff hworks']
    exact keeps_run durable writings more id l hid

end Issuing
end FactBase
