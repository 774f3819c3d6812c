import FactBase.Proofs.History
import FactBase.Proofs.Strikes
/-!
# Weathering — queries while calls fail

Every computation that a query is made of is sturdy: a failed look-up or scan ends the query with its error, wherever it
strikes, and is never taken for a literal that is missing or for the end of a scan (`sturdy_answer`).  So a query that
gives answers while calls fail gives those that it gives when none does (`queries_weather_faults`).
-/
namespace FactBase

namespace Dictionary

theorem sturdy_read (id : Identifier) : (read id).Sturdy Dictionary.Error.store :=
  .mapError Dictionary.Error.store (.get (slot id))

theorem sturdy_find (literal : String) : ∀ ids : List Identifier, (find literal ids).Sturdy Dictionary.Error.store
  | [] => .throw _
  | id :: rest => by
    refine .bind (sturdy_read id) fun found => ?_
    cases found with
    | none => exact .throw _
    | some held =>
      dsimp only
      split
      · exact .pure id
      · exact sturdy_find literal rest

theorem sturdy_literalOf (id : Identifier) : (literalOf id).Sturdy Dictionary.Error.store := by
  refine .bind (sturdy_read id) fun found => ?_
  cases found with
  | none => exact .throw _
  | some literal => exact .pure literal

end Dictionary

namespace Goal

theorem sturdy_identifier (literal : String) : ((Dictionary.idOf literal).mapError Query.Error.ofForward >>= fun id =>
    pure id.segment : Run Query.Error String).Sturdy Query.Error.store :=
  .bind (.mapError Query.Error.ofForward (Dictionary.sturdy_find literal _)) fun id => .pure id.segment

/-- Every literal has a segment, or an error that is none of the store. -/
theorem sturdy_segmentOf (p : Position) (value : Value) : (segmentOf p value).Sturdy Query.Error.store := by
  unfold segmentOf
  split
  · exact sturdy_identifier _
  · exact sturdy_identifier _
  · exact sturdy_identifier _
  · exact .ofExcept _
  · exact .pure _
  · exact .throw _

theorem sturdy_termOf (pattern : Pattern) (p : Position) : (termOf pattern p).Sturdy Query.Error.store := by
  unfold termOf
  split
  · exact .pure _
  · exact .pure _
  · exact .bind (sturdy_segmentOf p _) fun _ => .pure _

theorem sturdy_ofPattern (pattern : Pattern) : (ofPattern pattern).Sturdy Query.Error.store := by
  unfold ofPattern
  dsimp only
  split
  · rw [Run.throw_bind]
    exact .throw _
  · refine .bind (sturdy_termOf pattern .entity) fun entity => ?_
    refine .bind (sturdy_termOf pattern .attr) fun attr => ?_
    refine .bind (sturdy_termOf pattern .value) fun value => ?_
    refine .bind (sturdy_termOf pattern .txn) fun txn => ?_
    exact .bind (sturdy_termOf pattern .operation) fun _ => .pure _

end Goal

/-- **A scan that breaks off gives no keys.** -/
theorem ScanPlan.sturdy_keys (plan : ScanPlan) : plan.keys.Sturdy id := fun m => by
  refine ⟨.ok ((m.keysIn plan.range).filter plan.accepts), fun s hm => ?_⟩
  have hread := s.store.onlyRead_scan plan.range
  rcases s.store.scan_eq_or_struck plan.range with hall | ⟨e, hstruck, hbroken⟩
  · refine ⟨_, ⟨(s.store.scan plan.range).2, s.events⟩, ?_, hread, .inl rfl⟩
    unfold keys
    rw [Run.bind_apply]
    simp only [Run.scan, hall, hm]
    rfl
  · refine ⟨_, ⟨(s.store.scan plan.range).2, s.events⟩, ?_, hread, .inr ⟨e, hstruck, rfl⟩⟩
    unfold keys
    rw [Run.bind_apply]
    simp only [Run.scan, hbroken]
    rfl

namespace Query

theorem sturdy_literals : ∀ projection : Projection, (literals projection).Sturdy Query.Error.store
  | [] => .pure _
  | (_, .native _) :: rest => .bind (sturdy_literals rest) fun _ => .pure _
  | (_, .hashed id) :: rest =>
    .bind (.mapError Query.Error.ofReverse (Dictionary.sturdy_literalOf id)) fun _ =>
      .bind (sturdy_literals rest) fun _ => .pure _

theorem sturdy_extend (binding : Binding) : ∀ projections : List Projection,
    (extend binding projections).Sturdy Query.Error.store
  | [] => .pure _
  | projection :: rest =>
    .bind (sturdy_literals projection) fun _ => .bind (sturdy_extend binding rest) fun _ => .pure _

theorem sturdy_answerGoal (index : IndexOrder) (g : Goal) (binding : Binding) :
    (answerGoal index g binding).Sturdy Query.Error.store := by
  refine .bind (.mapError Query.Error.store (ScanPlan.sturdy_keys _)) fun keys => ?_
  refine .bind (.ofExcept _) fun projections => ?_
  exact .bind (.tell _) fun _ => sturdy_extend binding projections

/-- **Only a literal that was looked up and not found leaves no answers**; a look-up that failed ends the query. -/
theorem sturdy_answer (index : IndexOrder) (pattern : Pattern) (binding : Binding) :
    (answer index pattern binding).Sturdy Query.Error.store := by
  refine .outcome_bind (Goal.sturdy_ofPattern (pattern.bind binding)) (fun r => ?_) fun e => rfl
  split
  · exact sturdy_answerGoal index _ binding
  · exact .bind (.tell _) fun _ => .pure _
  · exact .throw _

theorem sturdy_answerAll (index : IndexOrder) (pattern : Pattern) : ∀ bindings : List Binding,
    (answerAll index pattern bindings).Sturdy Query.Error.store
  | [] => .pure _
  | binding :: rest =>
    .bind (sturdy_answer index pattern binding) fun _ =>
      .bind (sturdy_answerAll index pattern rest) fun _ => .pure _

theorem sturdy_answerClauses (index : IndexOrder) : ∀ (patterns : List Pattern) (clause : Nat) (bindings : List Binding),
    (answerClauses index clause patterns bindings).Sturdy Query.Error.store
  | [], _, bindings => .pure bindings
  | pattern :: rest, clause, bindings =>
    .bind (sturdy_answerAll index pattern bindings) fun extended =>
      .bind (.tell _) fun _ => sturdy_answerClauses index rest (clause + 1) extended

theorem sturdy_solve (index : IndexOrder) (patterns : List Pattern) (seeds : List Binding) :
    (solve index patterns seeds).Sturdy Query.Error.store :=
  .bind (.ofExcept _) fun _ => sturdy_answerClauses index patterns 0 seeds

theorem sturdy_solveOne (index : IndexOrder) (pattern : Pattern) (binding : Binding) :
    (solveOne index pattern binding).Sturdy Query.Error.store :=
  .bind (.ofExcept _) fun _ => sturdy_answer index pattern binding

theorem sturdy_entity (index : IndexOrder) (id : String) : (entity index id).Sturdy Query.Error.store :=
  .bind (sturdy_solve index _ _) fun _ => .pure _

end Query

namespace Database

variable {α : Type}

/-- What failing calls do to a query.  Answers that it gives are those that it gives when no call fails.  Where it gives
answers when no call fails, it gives them still, or ends with the store error of one of its calls.  Either way it makes
no write call, and nothing of the database but the count of its calls is changed. -/
structure Weathers (db : Database) (query : Database → Outcome Database Query.Error α) : Prop where
  sound : ∀ answers, (query db).result = .ok answers → (query (db.withFaults .never)).result = .ok answers
  complete : ∀ answers, (query (db.withFaults .never)).result = .ok answers → (query db).result = .ok answers ∨
    ∃ e, db.store.Struck (query db).state.store e ∧ (query db).result = .error (.store e)
  unchanged : db.store.OnlyRead (query db).state.store ∧
    (query db).state = { db with store := (query db).state.store }

/-- **A sturdy query weathers failing calls.** -/
theorem weathers_of_sturdy {x : IndexOrder → Run Query.Error α} (hx : ∀ index, (x index).Sturdy Query.Error.store)
    (db : Database) : db.Weathers fun db => db.run (x db.index) := by
  obtain ⟨r, hr⟩ := hx db.index db.store.entries
  have hclean : ((db.withFaults .never).run (x db.index)).result = r :=
    hr.of_works (s := .start (db.withFaults .never).store) rfl Faults.readsWork_never
  obtain ⟨r', s', hrun, hread, hr'⟩ := hr (.start db.store) rfl
  have hfaulty : db.run (x db.index) = ⟨r', { db with store := s'.store }, s'.events⟩ := by
    unfold run Run.on
    rw [hrun]
  constructor
  · intro answers hok
    change ((db.withFaults .never).run (x db.index)).result = _
    rw [hfaulty] at hok
    rw [hclean]
    rcases hr' with rfl | ⟨e, -, rfl⟩
    · exact hok
    · cases hok
  · intro answers hok
    have hok' : r = .ok answers := hclean.symm.trans hok
    rw [hfaulty]
    rcases hr' with rfl | ⟨e, hstruck, rfl⟩
    · exact .inl hok'
    · exact .inr ⟨e, hstruck, rfl⟩
  · rw [hfaulty]
    exact ⟨hread, rfl⟩

/-- **Failing reads never make answers wrong or partial.**  Whatever the store holds, whichever index is scanned and
whichever look-ups and scans fail, a scan that fails having yielded any of its first keys: this holds of queries over
lists of patterns and seeds, of queries over one pattern, and of what is known of an entity. -/
theorem queries_weather_faults (db : Database) :
    (∀ patterns seeds, db.Weathers fun db => db.query patterns seeds) ∧
    (∀ pattern binding, db.Weathers fun db => db.queryOne pattern binding) ∧
    ∀ id, db.Weathers fun db => db.entity id :=
  ⟨fun patterns seeds => weathers_of_sturdy (fun index => Query.sturdy_solve index patterns seeds) db,
    fun pattern binding => weathers_of_sturdy (fun index => Query.sturdy_solveOne index pattern binding) db,
    fun id => weathers_of_sturdy (fun index => Query.sturdy_entity index id) db⟩

end Database
end FactBase
