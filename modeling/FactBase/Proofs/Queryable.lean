import FactBase.Proofs.CrashSafety
import FactBase.Proofs.Refusing
import FactBase.Proofs.Scripts
/-!
# Queryable — every store that can be seen answers queries

Whatever store is seen while transactions run, its entries are those that some history has (`Observed.exists_run`), so
its stored keys stand for facts.  Over such a store a query fails only where the caller is at fault: a pattern is too
long, or a literal is of a type that its position never takes (`failsOnly_solve`).  So the store can always be opened,
queried, and asked about an entity (`observed_stores_are_queryable`).
-/
namespace FactBase

open Dictionary (Settled)

/-! ## Errors of computations that only read -/

namespace Run

variable {ε δ α β : Type}

/-- Over these entries, wherever all reads work, the computation only reads, and all its errors are allowed. -/
def FailsOnly (x : Run ε α) (m : KeyMap String) (allowed : ε → Prop) : Prop :=
  ∃ r, x.Reads m r ∧ ∀ e, r = .error e → allowed e

namespace FailsOnly

variable {m : KeyMap String} {x : Run ε α} {allowed : ε → Prop}

theorem of_ok {a : α} (hx : x.Reads m (.ok a)) : x.FailsOnly m allowed := ⟨_, hx, fun e he => by cases he⟩

theorem of_error {e : ε} (hx : x.Reads m (.error e)) (h : allowed e) : x.FailsOnly m allowed :=
  ⟨_, hx, fun _ he => Except.error.inj he ▸ h⟩

theorem mono {allowed' : ε → Prop} (hx : x.FailsOnly m allowed) (h : ∀ e, allowed e → allowed' e) :
    x.FailsOnly m allowed' :=
  let ⟨r, hreads, hr⟩ := hx
  ⟨r, hreads, fun e he => h e (hr e he)⟩

theorem bind {f : α → Run ε β} (hx : x.FailsOnly m allowed) (hf : ∀ a, (f a).FailsOnly m allowed) :
    (x >>= f).FailsOnly m allowed := by
  obtain ⟨r, hreads, hr⟩ := hx
  cases r with
  | error e => exact .of_error hreads.bind_error (hr e rfl)
  | ok a =>
    obtain ⟨r', hreads', hr'⟩ := hf a
    exact ⟨r', hreads.bind hreads', hr'⟩

theorem result {db : Database} (hx : x.FailsOnly db.store.entries allowed) (hworks : db.store.faults.ReadsWork) {e : ε}
    (he : (db.run x).result = .error e) : allowed e := by
  obtain ⟨r, hreads, hr⟩ := hx
  rw [Database.result_run hreads hworks] at he
  exact hr e he

end FailsOnly
end Run

/-! ## What the caller is to blame for -/

/-- A literal of the pattern is of a type that its position never takes, and the error names the position. -/
def Query.Error.Blames (e : Query.Error) (p : Pattern) : Prop :=
  ∃ pos v, e = .illTyped pos ∧ p.element pos = .literal v ∧ pos.takes v = false

namespace Query

variable {m : KeyMap String} {facts : List Fact}

/-- **Over a ledger every goal is answered**, whichever index is scanned: the keys that are found are those of facts. -/
theorem answers_answerGoal (h : Ledger m facts) (index : IndexOrder) (g : Goal) (b : Binding) :
    ∃ answers, (answerGoal index g b).Reads m (.ok answers) := by
  have hsorted : ((m.keysIn (ScanPlan.ofGoal index g).range).filter (ScanPlan.ofGoal index g).accepts).Pairwise (· < ·) :=
    (m.pairwise_keysIn _).filter _
  have hdecode : ∀ key ∈ (m.keysIn (ScanPlan.ofGoal index g).range).filter (ScanPlan.ofGoal index g).accepts,
      ∃ s, StoredFact.decode key = .ok s ∧ s.key = key ∧ ∃ f : Fact, s.Holds m f := by
    intro key hkey
    obtain ⟨f, -, s, hs, hle, rfl⟩ := ScanPlan.keyed_of_mem_found h hkey
    exact ⟨s, (hs.isStorable h.settled hle).decode_key, rfl, f, hs⟩
  obtain ⟨stored, hmapM, hkeys, hholds⟩ := mapM_decode hdecode
  rw [← hkeys] at hsorted
  refine ⟨_, reads_answerGoal_of_stored b hmapM fun s hs => ?_⟩
  obtain ⟨f, hf⟩ := hholds s (Projection.mem_of_mem_standing (List.pairwise_map.1 hsorted) hs)
  exact Projection.held_project hf

/-- **A pattern that is not too long fails only on a literal of a wrong type.** -/
theorem failsOnly_answer (h : Ledger m facts) (index : IndexOrder) {p : Pattern} (hshort : p.isTooLong = false)
    (b : Binding) : (answer index p b).FailsOnly m fun e => e.Blames (p.bind b) := by
  cases hrefusal : Position.all.findSome? (Goal.refusal? m (p.bind b)) with
  | none =>
    have hread := Goal.ends_ofPattern m ((p.isTooLong_bind b).trans hshort)
    rw [hrefusal] at hread
    obtain ⟨g, hread⟩ := hread
    obtain ⟨answers, hanswers⟩ := answers_answerGoal h index g b
    exact .of_ok (.bind hread.outcome hanswers)
  | some e =>
    have hreads := reads_answer_of_refusal index hshort hrefusal
    rcases Goal.refusal_cases hrefusal with ⟨text, rfl⟩ | ⟨pos, v, rfl, hwrong⟩
    · exact .of_ok hreads
    · exact .of_error hreads ⟨pos, v, rfl, hwrong⟩

theorem failsOnly_answerAll (h : Ledger m facts) (index : IndexOrder) {p : Pattern} (hshort : p.isTooLong = false) :
    ∀ bindings : List Binding, (answerAll index p bindings).FailsOnly m fun e => ∃ b ∈ bindings, e.Blames (p.bind b)
  | [] => .of_ok (.pure _)
  | b :: rest => by
    refine .bind ((failsOnly_answer h index hshort b).mono fun e he => ⟨b, List.mem_cons_self, he⟩) fun first => ?_
    refine .bind ((failsOnly_answerAll h index hshort rest).mono fun e he => ?_) fun others => .of_ok (.pure _)
    obtain ⟨b', hmem, hblames⟩ := he
    exact ⟨b', List.mem_cons_of_mem _ hmem, hblames⟩

theorem failsOnly_answerClauses (h : Ledger m facts) (index : IndexOrder) : ∀ (patterns : List Pattern) (clause : Nat)
    (bindings : List Binding), (∀ p ∈ patterns, p.isTooLong = false) →
      (answerClauses index clause patterns bindings).FailsOnly m fun e => ∃ p ∈ patterns, ∃ b, e.Blames (p.bind b)
  | [], _, _, _ => .of_ok (.pure _)
  | p :: rest, clause, bindings, hshort => by
    refine .bind ((failsOnly_answerAll h index (hshort p List.mem_cons_self) bindings).mono fun e he => ?_)
      fun extended => .bind (.of_ok (.tell _)) fun _ => ?_
    · obtain ⟨b, -, hblames⟩ := he
      exact ⟨p, List.mem_cons_self, b, hblames⟩
    · refine (failsOnly_answerClauses h index rest (clause + 1) extended fun q hq =>
        hshort q (List.mem_cons_of_mem _ hq)).mono fun e he => ?_
      obtain ⟨q, hq, hblames⟩ := he
      exact ⟨q, List.mem_cons_of_mem _ hq, hblames⟩

/-- **A query fails only where the caller is to blame.** -/
theorem failsOnly_solve (h : Ledger m facts) (index : IndexOrder) (patterns : List Pattern) (seeds : List Binding) :
    (solve index patterns seeds).FailsOnly m fun e =>
      (∃ p ∈ patterns, p.isTooLong = true ∧ e = .patternTooLong p.elements.length) ∨
        ∃ p ∈ patterns, ∃ b, e.Blames (p.bind b) := by
  unfold solve checkLengths
  cases hfind : patterns.find? Pattern.isTooLong with
  | some p =>
    refine .of_error (Run.Reads.bind_error (.ofExcept _)) (.inl ⟨p, List.mem_of_find?_eq_some hfind, ?_, rfl⟩)
    exact List.find?_some hfind
  | none =>
    refine .bind (.of_ok (.ofExcept _)) fun _ => ?_
    refine (failsOnly_answerClauses h index patterns 0 seeds fun p hp => ?_).mono fun e he => .inr he
    exact Bool.eq_false_iff.2 (List.find?_eq_none.1 hfind p hp)

/-- The binding under which an entity is asked for. -/
def entityBinding (id : String) : Binding := .ofList [("?e", .text id)]

/-- The identifier is a text at the entity, and the other places are open. -/
theorem wellTyped_entity (id : String) : (entityPattern.bind (entityBinding id)).WellTyped := by
  intro pos v hliteral
  cases pos with
  | entity =>
    cases hliteral
    rfl
  | attr => cases hliteral
  | value => cases hliteral
  | txn => cases hliteral
  | operation => cases hliteral

/-- **Asking about an entity never fails.** -/
theorem failsOnly_entity (h : Ledger m facts) (index : IndexOrder) (id : String) :
    (entity index id).FailsOnly m fun _ => False := by
  have hshort : checkLengths [entityPattern] = .ok () := rfl
  unfold entity solve
  rw [hshort]
  refine .bind (.bind (.of_ok (.ofExcept _)) fun _ => ?_) fun bindings => .of_ok (.pure _)
  refine .bind ((failsOnly_answerAll h index rfl [entityBinding id]).mono fun e he => ?_) fun extended =>
    .bind (.of_ok (.tell _)) fun _ => .of_ok (.pure _)
  obtain ⟨b, hb, pos, v, -, hliteral, htakes⟩ := he
  obtain rfl := List.mem_singleton.1 hb
  rw [wellTyped_entity id pos v hliteral] at htakes
  cases htakes

end Query

/-! ## Stores that are seen -/

namespace History

/-- A store that can be seen in some history: before a transaction, between two of its calls, or after it. -/
def Observed (durable : Bool) (store : Store) : Prop :=
  ∃ steps faults t, faults.LeaveNothing ∧ ((run durable steps).db.withFaults faults).Passes t store

/-- **A store that can be seen holds what some history has.** -/
theorem Observed.exists_run {durable : Bool} {store : Store} (h : Observed durable store) :
    ∃ steps, store.entries = (run durable steps).db.store.entries := by
  obtain ⟨steps, faults, t, clean, hpasses⟩ := h
  refine ⟨steps ++ [.transact (faults.stopWrites store.calls.write) (clean.stopWrites _) t], ?_⟩
  rw [hpasses.entries_eq, run, run, List.foldl_append, List.foldl_cons, List.foldl_nil, step, db_attempt]
  rfl

/-- **Every store that can be seen can be queried.**  Let any database hold its entries, and let all reads work.  Every
stored key is read, and its identifiers are looked up as the literals of a fact.  A query over patterns and seeds gives
answers, or the error that a pattern is too long, or the error that a literal of a pattern, as written or as bound, is
of a type that its position never takes.  What is known of an entity is always told.  And opening a database over such
a store works, and leaves the store as it is. -/
theorem observed_stores_are_queryable {durable : Bool} {store : Store} (h : Observed durable store) :
    (∀ db : Database, db.store.entries = store.entries → db.store.faults.ReadsWork →
      (∀ key ∈ db.indexKeys, ∃ f, db.ReadsBack key f) ∧
      (∀ patterns seeds e, (db.query patterns seeds).result = .error e →
        (∃ p ∈ patterns, p.isTooLong = true ∧ e = .patternTooLong p.elements.length) ∨
          ∃ p ∈ patterns, ∃ b, e.Blames (p.bind b)) ∧
      ∀ id, ∃ attributes, (db.entity id).result = .ok attributes) ∧
    ∀ s : Store, s.entries = store.entries → s.faults.ReadsWork →
      ∃ db, (Database.ofStore s).result = .ok db ∧ db.store.Keeps s := by
  obtain ⟨steps, hentries⟩ := h.exists_run
  have hs : Sound (run durable steps) := sound_run durable steps
  have hledger : Ledger store.entries (run durable steps).facts := hentries ▸ hs.ledger
  refine ⟨fun db hdb hworks => ?_, fun s hentries hworks => ?_⟩
  · rw [← hdb] at hledger
    refine ⟨fun key hkey => ?_, fun patterns seeds e he => ?_, fun id => ?_⟩
    · obtain ⟨f, -, hreads⟩ := (Database.stores_of_ledger hledger).sound key hkey
      exact ⟨f, hreads⟩
    · exact (Query.failsOnly_solve hledger db.index patterns seeds).result hworks he
    · cases hresult : (db.entity id).result with
      | ok attributes => exact ⟨attributes, rfl⟩
      | error e => exact ((Query.failsOnly_entity hledger db.index id).result hworks hresult).elim
  · obtain ⟨hwrote, hresult⟩ := Database.ofStore_of_numbered (hentries ▸ hledger) hs.numbered
    refine ⟨_, hresult.resolve_right fun hfault => ?_, hwrote.entries, hwrote.file_nil⟩
    rw [hworks.2] at hfault
    cases hfault.1

def secondCommit : Transaction := ⟨[⟨"0002", "name", "eve", true⟩], []⟩

/-- A store that a transaction leaves whose last literal cannot be written. -/
theorem observed_stores_are_queryable_secondCommit :
    let db := (run false firstCommit).db.withFaults (Faults.never.stopWrites 8)
    let left := (db.transact secondCommit).state
    let seen := left.withFaults .never
    Observed false left.store ∧ left.store.calls.write = 9 ∧
      (∀ key ∈ seen.indexKeys, ∃ f, seen.ReadsBack key f) ∧
      (∃ attributes, (seen.entity "0001").result = .ok attributes) ∧
      ∃ opened, (Database.ofStore seen.store).result = .ok opened := by
  intro db left seen
  have hobserved : Observed false left.store :=
    ⟨firstCommit, _, secondCommit, Faults.leaveNothing_never.stopWrites 8, db.passes_transact secondCommit⟩
  have hentries : ∀ other : Database, (other.withFaults .never).store.entries = other.store.entries := fun _ => rfl
  obtain ⟨hanswers, hopens⟩ := observed_stores_are_queryable hobserved
  obtain ⟨hkeys, -, hentity⟩ := hanswers seen (hentries left) Faults.readsWork_never
  obtain ⟨opened, hopened, -⟩ := hopens seen.store (hentries left) Faults.readsWork_never
  exact ⟨hobserved, by decide +kernel, hkeys, hentity "0001", opened, hopened⟩

end History
end FactBase
