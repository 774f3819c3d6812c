import FactBase.Proofs.Distributing
import FactBase.Proofs.Representing
/-!
# Absorbing — clauses that were answered before

An answer to a clause binds all its variables, and what grows from the answer keeps their values (`bind_of_gains`).  So
where the clause comes again no place of it is open.  Its literals are then those of the fact that the answer came from:
the literals of identifiers are found under them again, and numbers and flags have the segments they were read off.
Whatever else the narrower scan finds, it gives the one answer that adds nothing (`answered_again`).  That takes a
settled dictionary and a variable at one place only, of which the answer has the value at this place.
-/
namespace FactBase

namespace Binding

variable {b r : Binding} {names : List String} {name : String}

theorem exists_get?_of_mem (h : name ∈ b.names) : ∃ v, b.get? name = some v := by
  cases hget : b.get? name with
  | none => exact absurd h (notMem_names hget)
  | some v => exact ⟨v, rfl⟩

/-- What a binding has gained it has. -/
theorem Gains.mem_names (h : b.Gains names r) (hname : name ∈ names) : name ∈ r.names := by
  rw [h.names_eq, List.mem_append, List.mem_filter, List.mem_eraseDups, decide_eq_true_eq]
  by_cases hb : name ∈ b.names
  · exact .inl hb
  · exact .inr ⟨hname, hb⟩

/-- What a binding had it keeps. -/
theorem Gains.keeps (h : b.Gains names r) {v : Value} (hget : b.get? name = some v) : r.get? name = some v := by
  obtain ⟨gained, hpairs, -⟩ := h
  rw [get?_eq_some_iff] at hget ⊢
  rw [hpairs]
  exact List.mem_append_left _ hget

end Binding

namespace Pattern

variable {p : Pattern} {r r' : Binding} {names : List String}

/-- **A pattern whose variables are bound stays as it is bound**, however the binding grows. -/
theorem bind_of_gains (hall : ∀ name ∈ p.variableNames, name ∈ r.names) (hgains : r.Gains names r') :
    p.bind r' = p.bind r := by
  refine congrArg Pattern.mk (List.map_congr_left fun e he => ?_)
  cases e with
  | blank => rfl
  | literal v => rfl
  | var name =>
    obtain ⟨v, hv⟩ := Binding.exists_get?_of_mem (hall name (List.mem_filterMap.2 ⟨_, he, rfl⟩))
    rw [Element.bind, Element.bind, hv, hgains.keeps hv]

theorem openPlaces_bind_eq_nil (hshort : p.isTooLong = false) (hall : ∀ name ∈ p.variableNames, name ∈ r.names) :
    (p.bind r).openPlaces = [] := by
  have hnone : (p.bind r).variableNames = [] := by
    rw [variableNames_bind_eq, List.filter_eq_nil_iff]
    exact fun name hname hnew => of_decide_eq_true hnew (hall name hname)
  rw [← map_openPlaces ((p.isTooLong_bind r).trans hshort)] at hnone
  exact List.map_eq_nil_iff.1 hnone

end Pattern

namespace Query

variable {m : KeyMap String} {facts : List Fact} {p : Pattern} {b r : Binding} {answers : List Binding}
  {index : IndexOrder}

/-- **Without open places the answer is the binding**, once, as soon as a fact agrees. -/
theorem listing_of_closed {q : Pattern} (hclosed : q.openPlaces = []) {stored : List StoredFact} (hstored : stored ≠ [])
    (r : Binding) : listing m q r stored = [r] := by
  have hone : ((Projection.standing (decide (q.element .txn = .blank)) stored).map q.project).eraseDups = [[]] := by
    refine eraseDups_of_forall_eq (fun hnil => Projection.standing_ne_nil _ hstored (List.map_eq_nil_iff.1 hnil)) ?_
    intro projection hprojection
    obtain ⟨s, -, rfl⟩ := List.mem_map.1 hprojection
    rw [Pattern.project, hclosed]
    rfl
  rw [listing, hone]
  rfl

/-- Answers come from keys of the index that commits write. -/
theorem index_of_mem_answered (h : Ledger m facts) (hok : answered index m p b = .ok answers) (hr : r ∈ answers) :
    index = .eavto := by
  rw [answered_eq] at hok
  split at hok
  · rename_i g hg
    rw [yields_answerGoal] at hok
    cases hkeys : (m.keysIn (ScanPlan.ofGoal index g).range).filter (ScanPlan.ofGoal index g).accepts with
    | nil =>
      rw [hkeys] at hok
      obtain rfl := Except.ok.inj hok
      cases hr
    | cons key rest =>
      have hkey : key ∈ (m.keysIn (ScanPlan.ofGoal index g).range).filter (ScanPlan.ofGoal index g).accepts :=
        hkeys ▸ List.mem_cons_self
      obtain ⟨texts, hsplit⟩ := ScanPlan.split_of_accepts (List.mem_filter.1 hkey).2
      obtain ⟨f, -, s, hs, hle, rfl⟩ := ScanPlan.keyed_of_mem_found h hkey
      have hsplit' := (hs.isStorable h.settled hle).split_key
      exact (Prod.mk.inj (Except.ok.inj (hsplit.symm.trans hsplit'))).1
  · obtain rfl := Except.ok.inj hok
    cases hr
  · cases hok

/-- **An answer answers its clause again, by itself**, and so does whatever has grown from it. -/
theorem answered_again (h : Ledger m facts) (hshort : p.isTooLong = false) (hvariables : p.variableNames.Nodup)
    (hok : answered index m p b = .ok answers) (hr : r ∈ answers) {names : List String} {r' : Binding}
    (hgains : r.Gains names r') : answered index m p r' = .ok [r'] := by
  obtain rfl : index = .eavto := index_of_mem_answered h hok hr
  have hall : ∀ name ∈ p.variableNames, name ∈ r.names := fun name => (gains_of_answered hok r hr).mem_names
  have hlisting : ∃ stored, Found m facts (p.bind b) stored ∧ answers = listing m (p.bind b) b stored := by
    rcases reads_answer_cases h hshort b with ⟨stored, hfound, hreads⟩ | hreads | ⟨e, hreads⟩
    · exact ⟨stored, hfound, Except.ok.inj (hok.symm.trans hreads.yields_eq)⟩
    · obtain rfl := Except.ok.inj (hok.symm.trans hreads.yields_eq)
      cases hr
    · cases hok.symm.trans hreads.yields_eq
  obtain ⟨stored, hfound, rfl⟩ := hlisting
  obtain ⟨s, -, f, hf, -, hagrees, rfl⟩ := fact_of_mem_listing hfound hr
  -- the fact of the answer agrees with the clause into which the answer has been filled
  have hcoherent : f.Coherent (p.bind b) :=
    Pattern.coherent_of_nodup ((p.isTooLong_bind b).trans hshort) (hvariables.sublist (p.variableNames_bind b)) f
  have hagain := (Pattern.agrees_bind_answerOf hagrees).2 hcoherent
  have hclosed := Pattern.openPlaces_bind_eq_nil hshort hall
  rw [← Pattern.bind_of_gains hall hgains] at hagain hclosed
  obtain ⟨stored', hfound'⟩ := h.exists_found (p.bind r')
  obtain ⟨s', hs', -⟩ := hfound'.complete f hf hagain
  rw [← listing_of_closed (m := m) hclosed (List.ne_nil_of_mem hs') r']
  exact (reads_answer_listing h hshort (Pattern.wellTyped_of_agrees hagain) hfound').yields_eq

/-! ## Along a join -/

/-- Bindings that answer by themselves are answered as they are. -/
theorem joinAll_of_fixed {ε : Type} {answer : Binding → Except ε (List Binding)} : ∀ {bindings : List Binding},
    (∀ r ∈ bindings, answer r = .ok [r]) → joinAll answer bindings = .ok bindings
  | [], _ => rfl
  | r :: rest, hfixed => by
    rw [joinAll, hfixed r List.mem_cons_self, joinAll_of_fixed fun r' hr' => hfixed r' (List.mem_cons_of_mem _ hr')]
    rfl

/-- **Each answer of a join has grown from an answer of each of its clauses.** -/
theorem exists_answer_of_join {patterns later : List Pattern} {bindings : List Binding}
    (hok : join (answered index m) (patterns ++ p :: later) bindings = .ok answers) (hr : r ∈ answers) :
    ∃ b part, answered index m p b = .ok part ∧ ∃ r' ∈ part, r'.Gains (later.flatMap Pattern.variableNames) r := by
  rw [join_append] at hok
  obtain ⟨earlier, -, hok⟩ := Except.bind_eq_ok_iff.1 hok
  obtain ⟨extended, hextended, hok⟩ := Except.bind_eq_ok_iff.1 hok
  obtain ⟨r', hr', hgains⟩ := gains_of_join hok r hr
  obtain ⟨b, -, part, hpart, hmem⟩ := exists_of_mem_joinAll hextended r' hr'
  exact ⟨b, part, hpart, r', hmem, hgains⟩

/-- **A clause of a join changes nothing at the end of it.** -/
theorem join_again (h : Ledger m facts) {patterns : List Pattern} (hp : p ∈ patterns) (hshort : p.isTooLong = false)
    (hvariables : p.variableNames.Nodup) (bindings : List Binding) :
    join (answered index m) (patterns ++ [p]) bindings = join (answered index m) patterns bindings := by
  rw [join_append]
  cases hok : join (answered index m) patterns bindings with
  | error e => rfl
  | ok answers =>
    have hfixed : ∀ r ∈ answers, answered index m p r = .ok [r] := by
      intro r hr
      obtain ⟨before, after, rfl⟩ := List.append_of_mem hp
      obtain ⟨b, part, hpart, r', hr', hgains⟩ := exists_answer_of_join hok hr
      exact answered_again h hshort hvariables hpart hr' hgains
    change joinAll (answered index m p) answers >>= join (answered index m) [] = _
    rw [joinAll_of_fixed hfixed]
    rfl

end Query

namespace History

/-- **Repeating a clause changes nothing.**  After every run, where all reads work and whichever index is scanned, take
any clauses of at most five elements and any seeds, and a clause among them in which no variable occurs twice.  With
this clause once more at the end, the query gives the same bindings in the same order, or the same error. -/
theorem repeated_clauses_change_nothing (durable : Bool) (steps : List Step) {faults : Faults}
    (hworks : faults.ReadsWork) (index : IndexOrder) {patterns : List Pattern}
    (hlengths : ∀ p ∈ patterns, p.elements.length ≤ Pattern.capacity) {p : Pattern} (hp : p ∈ patterns)
    (hvariables : p.variableNames.Nodup) (seeds : List Binding) :
    let db := ((run durable steps).db.withFaults faults).withIndex index
    (db.query (patterns ++ [p]) seeds).result = (db.query patterns seeds).result := by
  intro db
  have hledger : Ledger db.store.entries (run durable steps).facts := (sound_run durable steps).ledger
  have hworks : db.store.faults.ReadsWork := hworks
  have hshort : p.isTooLong = false := decide_eq_false (Nat.not_lt.2 (hlengths p hp))
  have hlengths' : ∀ q ∈ patterns ++ [p], q.elements.length ≤ Pattern.capacity := by
    intro q hq
    rcases List.mem_append.1 hq with hq | hq
    · exact hlengths q hq
    · exact List.mem_singleton.1 hq ▸ hlengths p hp
  rw [Database.result_query_eq_join hworks hlengths', Database.result_query_eq_join hworks hlengths]
  exact Query.join_again hledger hp hshort hvariables seeds

/-- The clause that is repeated asks first for names, numbers and flags, and then with the values of each answer. -/
theorem repeated_clauses_change_nothing_firstCommit :
    let db := ((run false firstCommit).db.withFaults .never).withIndex .eavto
    let facts : Pattern := ⟨[.var "?e", .var "?a", .var "?v", .var "?t", .var "?o"]⟩
    let named : Pattern := ⟨[.blank, .literal (.text "name"), .var "?name"]⟩
    let r := Binding.ofList [("?e", .text "000001"), ("?a", .text "by"), ("?v", .text "ann"), ("?t", .integer 1),
      ("?o", .boolean true), ("?name", .text "bob")]
    let r' := Binding.ofList [("?e", .text "0001"), ("?a", .text "name"), ("?v", .text "bob"), ("?t", .integer 1),
      ("?o", .boolean true), ("?name", .text "bob")]
    Faults.never.ReadsWork ∧ (∀ p ∈ [facts, named], p.elements.length ≤ Pattern.capacity) ∧ facts ∈ [facts, named] ∧
      facts.variableNames.Nodup ∧ (db.query [facts, named] [.empty]).result = .ok [r, r'] ∧
      (db.query ([facts, named] ++ [facts]) [.empty]).result = .ok [r, r'] := by
  intro db facts named r r'
  have hlengths : ∀ p ∈ [facts, named], p.elements.length ≤ Pattern.capacity := by decide
  have hmem : facts ∈ [facts, named] := List.mem_cons_self
  have hvariables : facts.variableNames.Nodup := by decide
  have hok : (db.query [facts, named] [.empty]).result = .ok [r, r'] := by decide +kernel
  have hagain := repeated_clauses_change_nothing false firstCommit Faults.readsWork_never .eavto hlengths hmem hvariables
    [.empty]
  exact ⟨Faults.readsWork_never, hlengths, hmem, hvariables, hok, hagain.trans hok⟩

end History
end FactBase
