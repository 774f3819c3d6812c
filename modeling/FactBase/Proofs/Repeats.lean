import FactBase.Proofs.Listing
import FactBase.Proofs.Queryable
/-!
# Repeats — variables that stand open at two places of a pattern

An answer gives each variable one value, but the places of a variable are not compared: of a variable that stands open
at two places the later one gives the value.  So an answer satisfies its pattern as far as its fact holds one value at
all places of each variable (`agrees_bind_answerOf`), and facts that differ only at an earlier place give equal answers.
Where no variable stands open twice, every answer satisfies its pattern (`answers_satisfy_their_pattern`) and no answer
is given twice (`answers_are_distinct`).
-/
namespace FactBase

/-! ## Patterns that are not answered -/

/-- Over these entries, wherever all reads work, the computation only reads, and fails. -/
def Run.Fails {ε α : Type} (x : Run ε α) (m : KeyMap String) : Prop := ∃ e, x.Reads m (.error e)

namespace Run.Fails

variable {ε α β : Type} {m : KeyMap String} {x : Run ε α} {f : α → Run ε β}

theorem bind (h : x.Fails m) : (x >>= f).Fails m :=
  let ⟨e, he⟩ := h
  ⟨e, he.bind_error⟩

theorem after {a : α} (hx : x.Reads m (.ok a)) (hf : (f a).Fails m) : (x >>= f).Fails m :=
  let ⟨e, he⟩ := hf
  ⟨e, hx.bind he⟩

end Run.Fails

namespace Query

variable {m : KeyMap String} {facts : List Fact}

/-- **A pattern gives the answers of the stored facts that agree with it, or none at all, or an error.** -/
theorem reads_answer_cases (h : Ledger m facts) {p : Pattern} (hshort : p.isTooLong = false) (b : Binding) :
    (∃ stored, Found m facts (p.bind b) stored ∧
      (answer .eavto p b).Reads m (.ok (listing m (p.bind b) b stored))) ∨
      (answer .eavto p b).Reads m (.ok []) ∨ (answer .eavto p b).Fails m := by
  by_cases htyped : (p.bind b).WellTyped
  · obtain ⟨stored, hfound⟩ := h.exists_found (p.bind b)
    exact .inl ⟨stored, hfound, reads_answer_listing h hshort htyped hfound⟩
  · obtain ⟨pos, hfirst⟩ := Pattern.exists_firstIllTyped htyped
    by_cases hknown : (p.bind b).KnownBefore m pos
    · exact .inr (.inr ⟨_, reads_answer_of_refusal _ hshort (hfirst.refused hknown)⟩)
    · obtain ⟨text, hrefused⟩ := hfirst.hidden hknown
      exact .inr (.inl (reads_answer_of_refusal _ hshort hrefused))

end Query

namespace Database

variable {db : Database} {p : Pattern} {b : Binding}

theorem result_query (hindex : db.index = .eavto) (hworks : db.store.faults.ReadsWork) {patterns : List Pattern}
    (hshort : ∀ p ∈ patterns, p.isTooLong = false) {seeds : List Binding} {r : Except Query.Error (List Binding)}
    (hreads : (Query.answerClauses .eavto 0 patterns seeds).Reads db.store.entries r) :
    (db.query patterns seeds).result = r := by
  rw [query, hindex]
  refine result_run ?_ hworks
  unfold Query.solve
  rw [Query.checkLengths_of_short hshort]
  exact .bind (.ofExcept _) hreads

/-- **Where a pattern is answered, the answers are those of the stored facts that agree with it.** -/
theorem listing_of_queryOne {facts : List Fact} (h : Ledger db.store.entries facts) (hindex : db.index = .eavto)
    (hworks : db.store.faults.ReadsWork) (hshort : p.isTooLong = false) {answers : List Binding}
    (hok : (db.queryOne p b).result = .ok answers) : answers = [] ∨ ∃ stored,
      Found db.store.entries facts (p.bind b) stored ∧
        answers = Query.listing db.store.entries (p.bind b) b stored := by
  rcases Query.reads_answer_cases h hshort b with ⟨stored, hfound, hreads⟩ | hreads | ⟨e, hreads⟩
  · rw [result_queryOne hindex hworks hshort hreads] at hok
    exact .inr ⟨stored, hfound, (Except.ok.inj hok).symm⟩
  · rw [result_queryOne hindex hworks hshort hreads] at hok
    exact .inl (Except.ok.inj hok).symm
  · rw [result_queryOne hindex hworks hshort hreads] at hok
    cases hok

end Database

/-! ## What an answer makes of its pattern -/

/-- A fact holds one value at all places where a variable stands open. -/
def Fact.Coherent (f : Fact) (q : Pattern) : Prop :=
  ∀ pos pos' name, q.element pos = .var name → q.element pos' = .var name → f.values.get pos = f.values.get pos'

theorem Pattern.coherent_of_nodup {q : Pattern} (hshort : q.isTooLong = false) (hvariables : q.variableNames.Nodup)
    (f : Fact) : f.Coherent q := by
  intro pos pos' name hpos hpos'
  rw [← map_openPlaces hshort] at hvariables
  have hplace := List.inj_on_of_nodup_map hvariables (mem_openPlaces.2 hpos) (mem_openPlaces.2 hpos') rfl
  rw [(Prod.mk.inj hplace).1]

namespace Pattern

variable {p : Pattern} {b : Binding} {f : Fact} {name : String}

theorem get?_answerOf : ((p.bind b).answerOf b f).get? name =
    ((Binding.ofList ((p.bind b).view f)).get? name).or (b.get? name) :=
  Binding.get?_merge ..

theorem mem_map_fst_view :
    name ∈ ((p.bind b).view f).map (·.1) ↔ b.get? name = none ∧ ∃ pos, p.element pos = .var name := by
  constructor
  · intro hmem
    obtain ⟨pair, hpair, rfl⟩ := List.mem_map.1 hmem
    obtain ⟨⟨pos, name⟩, hplace, rfl⟩ := List.mem_map.1 hpair
    obtain ⟨hvar, hfree⟩ := element_bind_eq_var_iff.1 (mem_openPlaces.1 hplace)
    exact ⟨hfree, pos, hvar⟩
  · rintro ⟨hfree, pos, hvar⟩
    have hplace := mem_openPlaces.2 (element_bind_eq_var_iff.2 ⟨hvar, hfree⟩)
    exact List.mem_map.2 ⟨_, List.mem_map_of_mem hplace, rfl⟩

/-- A bound variable keeps its value in an answer. -/
theorem get?_answerOf_of_bound {v : Value} (hbound : b.get? name = some v) :
    ((p.bind b).answerOf b f).get? name = some v := by
  rw [get?_answerOf, Binding.get?_ofList_of_notMem, hbound]
  · rfl
  · intro hmem
    rw [(mem_map_fst_view.1 hmem).1] at hbound
    cases hbound

/-- A variable that is not bound gets the value at one of its places. -/
theorem get?_answerOf_of_open {pos : Position} (hvar : p.element pos = .var name) (hfree : b.get? name = none) :
    ∃ pos', p.element pos' = .var name ∧ ((p.bind b).answerOf b f).get? name = some (f.values.get pos') := by
  obtain ⟨v, hv, hvalue⟩ := Binding.get?_ofList_of_mem (mem_map_fst_view (f := f).2 ⟨hfree, pos, hvar⟩)
  obtain ⟨⟨pos', name'⟩, hplace, hpair⟩ := List.mem_map.1 hv
  obtain ⟨rfl, rfl⟩ := Prod.mk.inj hpair
  refine ⟨pos', (element_bind_eq_var_iff.1 (mem_openPlaces.1 hplace)).1, ?_⟩
  rw [get?_answerOf, hvalue]
  rfl

/-- An answer binds what was bound, and the variables of the pattern. -/
theorem get?_answerOf_eq_none_iff : ((p.bind b).answerOf b f).get? name = none ↔
    b.get? name = none ∧ ∀ pos, p.element pos ≠ .var name := by
  constructor
  · intro hnone
    cases hbound : b.get? name with
    | some v =>
      rw [get?_answerOf_of_bound hbound] at hnone
      cases hnone
    | none =>
      refine ⟨rfl, fun pos hvar => ?_⟩
      obtain ⟨pos', -, hvalue⟩ := get?_answerOf_of_open (f := f) hvar hbound
      rw [hnone] at hvalue
      cases hvalue
  · rintro ⟨hfree, hvar⟩
    rw [get?_answerOf, Binding.get?_ofList_of_notMem, hfree]
    · rfl
    · intro hmem
      obtain ⟨-, pos, hpos⟩ := mem_map_fst_view.1 hmem
      exact hvar pos hpos

/-- **The values of an answer** are those of the binding, and for the other variables those of the fact. -/
theorem bound_or_open_of_get?_answerOf {v : Value} (hvalue : ((p.bind b).answerOf b f).get? name = some v) :
    b.get? name = some v ∨ b.get? name = none ∧ ∃ pos, p.element pos = .var name ∧ f.values.get pos = v := by
  cases hbound : b.get? name with
  | some w => exact .inl ((get?_answerOf_of_bound hbound).symm.trans hvalue)
  | none =>
    refine .inr ⟨rfl, ?_⟩
    by_cases hvar : ∃ pos, p.element pos = .var name
    · obtain ⟨pos, hvar⟩ := hvar
      obtain ⟨pos', hvar', hvalue'⟩ := get?_answerOf_of_open (f := f) hvar hbound
      exact ⟨pos', hvar', Option.some.inj (hvalue'.symm.trans hvalue)⟩
    · rw [get?_answerOf_eq_none_iff.2 ⟨hbound, fun pos hpos => hvar ⟨pos, hpos⟩⟩] at hvalue
      cases hvalue

/-- **An answer satisfies its pattern exactly as far as its fact is coherent.** -/
theorem agrees_bind_answerOf (hagrees : f.Agrees (p.bind b)) :
    f.Agrees (p.bind ((p.bind b).answerOf b f)) ↔ f.Coherent (p.bind b) := by
  constructor
  · intro hfits pos pos' name hpos hpos'
    obtain ⟨hvar, hfree⟩ := element_bind_eq_var_iff.1 hpos
    obtain ⟨source, -, hvalue⟩ := get?_answerOf_of_open (f := f) hvar hfree
    -- the answer puts one value at all places of the variable
    have hplace : ∀ place, p.element place = .var name → f.values.get place = f.values.get source :=
      fun place hplace => hfits place _ (element_bind_eq_literal_iff.2 (.inr ⟨name, hplace, hvalue⟩))
    exact (hplace pos hvar).trans (hplace pos' (element_bind_eq_var_iff.1 hpos').1).symm
  · intro hcoherent pos v hliteral
    rcases element_bind_eq_literal_iff.1 hliteral with hliteral | ⟨name, hvar, hvalue⟩
    · exact hagrees pos v (element_bind_eq_literal_iff.2 (.inl hliteral))
    · rcases bound_or_open_of_get?_answerOf hvalue with hbound | ⟨hfree, pos', hvar', rfl⟩
      · exact hagrees pos v (element_bind_eq_literal_iff.2 (.inr ⟨name, hvar, hbound⟩))
      · exact hcoherent pos pos' name (element_bind_eq_var_iff.2 ⟨hvar, hfree⟩)
          (element_bind_eq_var_iff.2 ⟨hvar', hfree⟩)

end Pattern

namespace History

/-- **Every answer satisfies its pattern where no variable stands open twice.**  After every run, where all reads work,
each answer to a pattern of at most five elements comes from a committed fact that has the literals of the bound
pattern: the binding is extended by what the fact holds at the open places.  This fact has the literals of the pattern
with the values of the answer exactly if it holds one value at all places of each open variable, so it has them where no
variable stands open twice. -/
theorem answers_satisfy_their_pattern (durable : Bool) (steps : List Step) {faults : Faults} (hworks : faults.ReadsWork)
    {p : Pattern} {b : Binding} (hlength : p.elements.length ≤ Pattern.capacity) {answers : List Binding}
    (hok : (((run durable steps).db.withFaults faults).queryOne p b).result = .ok answers) {r : Binding}
    (hr : r ∈ answers) :
    ∃ f ∈ (run durable steps).facts, f.Agrees (p.bind b) ∧ r = (p.bind b).answerOf b f ∧
      (f.Agrees (p.bind r) ↔ f.Coherent (p.bind b)) ∧
      ((p.bind b).variableNames.Nodup → f.Agrees (p.bind r)) := by
  have hs : Sound ⟨(run durable steps).db.withFaults faults, (run durable steps).committed⟩ :=
    (sound_run durable steps).withFaults faults
  have hshort : p.isTooLong = false := decide_eq_false (Nat.not_lt.2 hlength)
  rcases Database.listing_of_queryOne hs.ledger hs.index hworks hshort hok with rfl | ⟨stored, hfound, rfl⟩
  · cases hr
  · obtain ⟨s, -, f, hf, -, hagrees, rfl⟩ := Query.fact_of_mem_listing hfound hr
    have hiff := Pattern.agrees_bind_answerOf hagrees
    refine ⟨f, hf, hagrees, rfl, hiff, fun hvariables => hiff.2 ?_⟩
    exact Pattern.coherent_of_nodup ((p.isTooLong_bind b).trans hshort) hvariables f

/-- The attributes and values of an entity that the binding names. -/
theorem answers_satisfy_their_pattern_firstCommit :
    let h := run false firstCommit
    let b := Binding.ofList [("?e", .text "0001")]
    let r := Binding.ofList [("?e", .text "0001"), ("?a", .text "name"), ("?v", .text "bob")]
    Faults.never.ReadsWork ∧ Query.entityPattern.elements.length ≤ Pattern.capacity ∧
      ((h.db.withFaults .never).queryOne Query.entityPattern b).result = .ok [r] ∧ r ∈ [r] ∧
      (Query.entityPattern.bind b).variableNames.Nodup ∧ ∃ f ∈ h.facts, f.Agrees (Query.entityPattern.bind r) := by
  intro h b r
  have hlength : Query.entityPattern.elements.length ≤ Pattern.capacity := by decide
  have hok : ((h.db.withFaults .never).queryOne Query.entityPattern b).result = .ok [r] := by decide +kernel
  have hmem : r ∈ [r] := List.mem_singleton_self r
  have hvariables : (Query.entityPattern.bind b).variableNames.Nodup := by decide
  obtain ⟨f, hf, -, -, -, hagrees⟩ :=
    answers_satisfy_their_pattern false firstCommit Faults.readsWork_never hlength hok hmem
  exact ⟨Faults.readsWork_never, hlength, hok, hmem, hvariables, f, hf, hagrees hvariables⟩

/-- The entities that have themselves as their name. -/
def selfNamed : Pattern := ⟨[.var "?x", .literal (.text "name"), .var "?x"]⟩

/-- **The two places of a variable are not compared**: the entity 0001, whose name is bob, gives an answer that no fact
bears out. -/
theorem answer_without_fact :
    let h := run false firstCommit
    let r := Binding.ofList [("?x", .text "bob")]
    ((h.db.withFaults .never).queryOne selfNamed .empty).result = .ok [r] ∧
      ¬∃ f ∈ h.facts, f.Agrees (selfNamed.bind r) := by
  intro h r
  have hok : ((h.db.withFaults .never).queryOne selfNamed .empty).result = .ok [r] := by decide +kernel
  have hentity : ∀ f ∈ h.facts, f.values.get .entity ≠ .text "bob" := by decide +kernel
  refine ⟨hok, ?_⟩
  rintro ⟨f, hf, hagrees⟩
  exact hentity f hf (hagrees .entity _ rfl)

/-- **No answer is given twice where no variable stands open twice.** -/
theorem answers_are_distinct (durable : Bool) (steps : List Step) {faults : Faults} (hworks : faults.ReadsWork)
    {p : Pattern} {b : Binding} (hlength : p.elements.length ≤ Pattern.capacity) {answers : List Binding}
    (hok : (((run durable steps).db.withFaults faults).queryOne p b).result = .ok answers)
    (hvariables : (p.bind b).variableNames.Nodup) : answers.Nodup := by
  have hs : Sound ⟨(run durable steps).db.withFaults faults, (run durable steps).committed⟩ :=
    (sound_run durable steps).withFaults faults
  have hshort : p.isTooLong = false := decide_eq_false (Nat.not_lt.2 hlength)
  rcases Database.listing_of_queryOne hs.ledger hs.index hworks hshort hok with rfl | ⟨stored, hfound, rfl⟩
  · exact .nil
  · exact Query.nodup_listing hs.ledger.settled hfound (Pattern.fresh_bind hshort hvariables)

/-- Two entities of one name, one of them its own. -/
def sameNames : List Step :=
  [.transact .never Faults.leaveNothing_never
    ⟨[⟨"bob", "name", "bob", true⟩, ⟨"0002", "name", "bob", true⟩], []⟩]

/-- The names that are in use: both keys give the one answer. -/
theorem answers_are_distinct_sameNames :
    let db := (run false sameNames).db.withFaults .never
    let names : Pattern := ⟨[.blank, .literal (.text "name"), .var "?x", .var "?t"]⟩
    let r := Binding.ofList [("?x", .text "bob"), ("?t", .integer 1)]
    Faults.never.ReadsWork ∧ names.elements.length ≤ Pattern.capacity ∧ (names.bind .empty).variableNames.Nodup ∧
      (db.queryOne names .empty).result = .ok [r] ∧ [r].Nodup := by
  intro db names r
  have hlength : names.elements.length ≤ Pattern.capacity := by decide
  have hvariables : (names.bind .empty).variableNames.Nodup := by decide
  have hok : (db.queryOne names .empty).result = .ok [r] := by decide +kernel
  exact ⟨Faults.readsWork_never, hlength, hvariables, hok,
    answers_are_distinct false sameNames Faults.readsWork_never hlength hok hvariables⟩

/-- **An answer is given twice**: two facts of one name differ at the first place of the variable only. -/
theorem answer_given_twice :
    let r := Binding.ofList [("?x", .text "bob")]
    (((run false sameNames).db.withFaults .never).queryOne selfNamed .empty).result = .ok [r, r] ∧ ¬[r, r].Nodup := by
  intro r
  refine ⟨by decide +kernel, fun hnodup => ?_⟩
  exact (List.nodup_cons.1 hnodup).1 (List.mem_singleton_self r)

end History
end FactBase
