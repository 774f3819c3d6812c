import FactBase.Proofs.Growth
import FactBase.Proofs.Weathering
/-!
# Distributing — joins taken apart, clause by clause and seed by seed

Over entries that do not change, and where no call fails, answering a clause under a binding has one outcome
(`Run.Sturdy.reads`), so a query is a join of such outcomes (`yields_answerClauses`).  Joins distribute over lists of
clauses and over lists of bindings, whatever the clauses are answered with (`join_append`, `join_bindings_append`).
What a clause adds to a binding is new to it, because the values of bound variables were put in their places before
(`gains_of_answered`).  So along a join bindings only grow (`gains_of_join`).
-/
namespace FactBase

theorem Except.bind_eq_ok_iff {ε α β : Type} {x : Except ε α} {f : α → Except ε β} {b : β} :
    (x >>= f) = .ok b ↔ ∃ a, x = .ok a ∧ f a = .ok b := by
  cases x with
  | error e => exact ⟨fun h => (by cases h), fun ⟨_, h, _⟩ => (by cases h)⟩
  | ok a =>
    refine ⟨fun h => ⟨a, rfl, h⟩, ?_⟩
    rintro ⟨_, h, hf⟩
    obtain rfl := Except.ok.inj h
    exact hf

/-! ## Outcomes over entries -/

namespace Run

variable {ε δ α β : Type} {m : KeyMap String} {x : Run ε α} {inject : Store.Error → ε}

/-- What a computation gives over these entries where no call fails. -/
def yields (x : Run ε α) (m : KeyMap String) : Except ε α := (x (.start (.ofEntries m))).1

theorem Reads.yields_eq {r : Except ε α} (h : x.Reads m r) : x.yields m = r := by
  obtain ⟨s, hrun, -⟩ := h (.start (.ofEntries m)) rfl Faults.readsWork_never
  exact congrArg Prod.fst hrun

/-- **A sturdy computation has one outcome over the same entries**, wherever all reads work. -/
theorem Sturdy.reads (h : x.Sturdy inject) (m : KeyMap String) : x.Reads m (x.yields m) := by
  obtain ⟨r, hr⟩ := h m
  have hyields : x.yields m = r := hr.of_works rfl Faults.readsWork_never
  intro s hm hworks
  obtain ⟨r', s', hrun, hread, -⟩ := hr s hm
  have hr' : r' = r := (congrArg Prod.fst hrun).symm.trans (hr.of_works hm hworks)
  have hfile : s'.store.file = s.store.file := by rw [hread.same]
  exact ⟨s', by rw [hrun, hr', hyields], .nothing hread.entries hfile hread.later.faults⟩

theorem Sturdy.yields_bind {f : α → Run ε β} (hx : x.Sturdy inject) (hf : ∀ a, (f a).Sturdy inject) (m : KeyMap String) :
    (x >>= f).yields m = x.yields m >>= fun a => (f a).yields m := by
  have hreads := hx.reads m
  cases hyields : x.yields m with
  | error e =>
    rw [hyields] at hreads
    exact hreads.bind_error.yields_eq
  | ok a =>
    rw [hyields] at hreads
    exact (hreads.bind ((hf a).reads m)).yields_eq

theorem Sturdy.yields_outcome_bind {f : Except ε α → Run δ β} (inject' : Store.Error → δ) (hx : x.Sturdy inject)
    (hf : ∀ r, (f r).Sturdy inject') (m : KeyMap String) : (x.outcome >>= f).yields m = (f (x.yields m)).yields m :=
  ((hx.reads m).outcome.bind ((hf _).reads m)).yields_eq

end Run

/-! ## Joins -/

namespace Query

variable {ε : Type} {f : Pattern → Binding → Except ε (List Binding)}

/-- Takes the answers under each binding, one after the other. -/
def joinAll (answer : Binding → Except ε (List Binding)) : List Binding → Except ε (List Binding)
  | [] => .ok []
  | b :: rest => do
    let first ← answer b
    let others ← joinAll answer rest
    return first ++ others

/-- Takes the answers clause by clause. -/
def join (answer : Pattern → Binding → Except ε (List Binding)) : List Pattern → List Binding → Except ε (List Binding)
  | [], bindings => .ok bindings
  | p :: rest, bindings => joinAll (answer p) bindings >>= join answer rest

theorem joinAll_append (answer : Binding → Except ε (List Binding)) (cs : List Binding) : ∀ bs : List Binding,
    joinAll answer (bs ++ cs) =
      joinAll answer bs >>= fun xs => joinAll answer cs >>= fun ys => .ok (xs ++ ys)
  | [] => by
    rw [List.nil_append, joinAll]
    cases joinAll answer cs <;> rfl
  | b :: bs => by
    rw [List.cons_append, joinAll, joinAll, joinAll_append answer cs bs]
    cases answer b with
    | error e => rfl
    | ok first =>
      cases joinAll answer bs with
      | error e => rfl
      | ok xs =>
        cases joinAll answer cs with
        | error e => rfl
        | ok ys => exact congrArg Except.ok (List.append_assoc ..).symm

/-- Each answer is one to a binding. -/
theorem exists_of_mem_joinAll {answer : Binding → Except ε (List Binding)} :
    ∀ {bindings answers : List Binding}, joinAll answer bindings = .ok answers → ∀ r ∈ answers,
      ∃ b ∈ bindings, ∃ part, answer b = .ok part ∧ r ∈ part
  | [], answers, h, r, hr => by
    obtain rfl := Except.ok.inj h
    cases hr
  | b :: rest, answers, h, r, hr => by
    obtain ⟨first, hfirst, h⟩ := Except.bind_eq_ok_iff.1 h
    obtain ⟨others, hothers, heq⟩ := Except.bind_eq_ok_iff.1 h
    obtain rfl := Except.ok.inj heq
    rcases List.mem_append.1 hr with hr | hr
    · exact ⟨b, List.mem_cons_self, first, hfirst, hr⟩
    · obtain ⟨b', hb', hr⟩ := exists_of_mem_joinAll hothers r hr
      exact ⟨b', List.mem_cons_of_mem _ hb', hr⟩

/-- **Clauses are answered from what the clauses before them give.** -/
theorem join_append (f : Pattern → Binding → Except ε (List Binding)) (qs : List Pattern) :
    ∀ (ps : List Pattern) (bs : List Binding), join f (ps ++ qs) bs = join f ps bs >>= join f qs
  | [], _ => rfl
  | p :: ps, bs => by
    rw [List.cons_append, join, join]
    cases joinAll (f p) bs with
    | error e => rfl
    | ok extended => exact join_append f qs ps extended

/-- **Bindings are answered one after the other**: all of them are, or none.  Which error comes first is not the same on
both sides, since each clause is answered under all bindings before the next one. -/
theorem join_bindings_append : ∀ {ps : List Pattern} {bs cs answers : List Binding},
    join f ps (bs ++ cs) = .ok answers ↔
      ∃ xs ys, join f ps bs = .ok xs ∧ join f ps cs = .ok ys ∧ answers = xs ++ ys
  | [], bs, cs, answers => by
    constructor
    · exact fun h => ⟨bs, cs, rfl, rfl, (Except.ok.inj h).symm⟩
    · rintro ⟨xs, ys, hxs, hys, rfl⟩
      obtain rfl := Except.ok.inj hxs
      obtain rfl := Except.ok.inj hys
      rfl
  | p :: ps, bs, cs, answers => by
    simp only [join, joinAll_append, Except.bind_eq_ok_iff]
    constructor
    · rintro ⟨_, ⟨xs, hxs, ys, hys, heq⟩, hrest⟩
      obtain rfl := Except.ok.inj heq
      obtain ⟨xs', ys', hxs', hys', rfl⟩ := join_bindings_append.1 hrest
      exact ⟨xs', ys', ⟨xs, hxs, hxs'⟩, ⟨ys, hys, hys'⟩, rfl⟩
    · rintro ⟨xs', ys', ⟨xs, hxs, hxs'⟩, ⟨ys, hys, hys'⟩, rfl⟩
      exact ⟨xs ++ ys, ⟨xs, hxs, ys, hys, rfl⟩, join_bindings_append.2 ⟨xs', ys', hxs', hys', rfl⟩⟩

theorem join_no_bindings : ∀ ps : List Pattern, join f ps [] = .ok []
  | [] => rfl
  | _ :: ps => join_no_bindings ps

/-- **The answers are those of each binding**, in the order of the bindings. -/
theorem join_eq_flatten {ps : List Pattern} : ∀ {bs answers : List Binding}, join f ps bs = .ok answers →
    ∃ parts, answers = parts.flatten ∧ List.Forall₂ (fun b part => join f ps [b] = .ok part) bs parts
  | [], answers, h => ⟨[], (Except.ok.inj ((join_no_bindings ps).symm.trans h)).symm, .nil⟩
  | b :: bs, answers, h => by
    rw [← List.singleton_append] at h
    obtain ⟨first, others, hfirst, hothers, rfl⟩ := join_bindings_append.1 h
    obtain ⟨parts, rfl, hparts⟩ := join_eq_flatten hothers
    exact ⟨first :: parts, rfl, .cons hfirst hparts⟩

theorem join_singleton (p : Pattern) (b : Binding) : join f [p] [b] = f p b := by
  rw [join, joinAll]
  cases f p b with
  | error e => rfl
  | ok answers => exact congrArg Except.ok (List.append_nil answers)

end Query

/-! ## Names that are gained -/

namespace Binding

/-- The binding with new entries behind its own: one for each of the names that it does not have, in the order in which
these come first. -/
def Gains (b : Binding) (names : List String) (r : Binding) : Prop :=
  ∃ gained, r.pairs = b.pairs ++ gained ∧
    gained.map (·.1) = names.eraseDups.filter fun name => decide (name ∉ b.names)

variable {b r r' : Binding} {names names' : List String}

theorem Gains.refl (b : Binding) : b.Gains [] b := ⟨[], (List.append_nil _).symm, rfl⟩

theorem Gains.names_eq (h : b.Gains names r) :
    r.names = b.names ++ names.eraseDups.filter fun name => decide (name ∉ b.names) := by
  obtain ⟨gained, hpairs, hgained⟩ := h
  rw [Binding.names, hpairs, List.map_append, hgained]
  rfl

theorem Gains.trans (h : b.Gains names r) (h' : r.Gains names' r') : b.Gains (names ++ names') r' := by
  have hnames := h.names_eq
  obtain ⟨gained, hpairs, hgained⟩ := h
  obtain ⟨gained', hpairs', hgained'⟩ := h'
  refine ⟨gained ++ gained', by rw [hpairs', hpairs, List.append_assoc], ?_⟩
  rw [List.map_append, hgained, hgained', List.eraseDups_append, List.filter_append, List.removeAll, ← filter_eraseDups,
    List.filter_filter]
  congr 1
  refine List.filter_congr fun name _ => ?_
  rw [hnames]
  by_cases hb : name ∈ b.names <;> by_cases hn : name ∈ names <;> simp [hb, hn]

theorem names_insert (b : Binding) (name : String) (value : Value) :
    (b.insert name value).names = if name ∈ b.names then b.names else b.names ++ [name] :=
  map_fst_bindName name value b.pairs

theorem names_ofList (pairs : List (String × Value)) : (ofList pairs).names = (pairs.map (·.1)).eraseDups := by
  induction pairs using List.reverseRecOn with
  | nil => rfl
  | append_singleton pairs pair ih =>
    rw [List.map_append, List.map_singleton, eraseDups_append_singleton, ofList, List.foldl_append]
    change ((ofList pairs).insert pair.1 pair.2).names = _
    rw [names_insert, ih]
    simp only [List.mem_eraseDups]

theorem empty_merge (b : Binding) : empty.merge b = b :=
  eq_of_pairs (pairs_foldl_insert b.names_nodup fun _ _ h => by cases h)

/-- **What is new to a binding comes behind it.** -/
theorem gains_merge {pairs : List (String × Value)} (hnew : ∀ name ∈ pairs.map (·.1), name ∉ b.names) :
    b.Gains (pairs.map (·.1)) (b.merge (.ofList pairs)) := by
  have hnames := names_ofList pairs
  refine ⟨(ofList pairs).pairs, pairs_foldl_insert (ofList pairs).names_nodup fun name hname => ?_, ?_⟩
  · change name ∈ (ofList pairs).names at hname
    rw [hnames] at hname
    exact hnew name (List.mem_eraseDups.1 hname)
  · refine hnames.trans (List.filter_eq_self.2 fun name hname => ?_).symm
    exact decide_eq_true (hnew name (List.mem_eraseDups.1 hname))

/-- What is gained does not depend on names that the binding has. -/
theorem gains_filter_iff : b.Gains (names.filter fun name => decide (name ∉ b.names)) r ↔ b.Gains names r := by
  have hsame : (names.filter fun name => decide (name ∉ b.names)).eraseDups.filter (fun name => decide (name ∉ b.names)) =
      names.eraseDups.filter fun name => decide (name ∉ b.names) := by
    rw [← filter_eraseDups, List.filter_filter]
    simp only [Bool.and_self]
  rw [Gains, Gains, hsame]

end Binding

theorem Pattern.bind_empty (p : Pattern) : p.bind .empty = p := by
  have hid : Element.bind .empty = id := by
    funext e
    cases e <;> rfl
  rw [bind, hid, List.map_id]

theorem Element.variableName?_bind (b : Binding) (e : Element) :
    (e.bind b).variableName? = e.variableName?.filter fun name => decide (name ∉ b.names) := by
  cases e with
  | blank => rfl
  | literal v => rfl
  | var name =>
    rw [bind]
    cases hget : b.get? name with
    | none =>
      refine (Option.filter_some_pos ?_).symm
      exact decide_eq_true (Binding.notMem_names hget)
    | some v =>
      have hmem : name ∈ b.names := List.mem_map_of_mem (Binding.get?_eq_some_iff.1 hget)
      refine (Option.filter_eq_none_iff.2 fun name' hname' => ?_).symm
      obtain rfl : name = name' := Option.some.inj hname'
      exact fun hnew => of_decide_eq_true hnew hmem

/-- **A bound pattern has the variables that the binding does not have.** -/
theorem Pattern.variableNames_bind_eq (p : Pattern) (b : Binding) :
    (p.bind b).variableNames = p.variableNames.filter fun name => decide (name ∉ b.names) := by
  obtain ⟨elements⟩ := p
  change (elements.map (Element.bind b)).filterMap Element.variableName? = (elements.filterMap _).filter _
  rw [List.filterMap_map, List.filter_filterMap]
  congr 1
  funext e
  exact Element.variableName?_bind b e

/-! ## What one clause gives -/

namespace Goal

variable {m : KeyMap String} {q : Pattern} {g : Goal}

/-- **A pattern is resolved to its terms.** -/
theorem terms_of_yields (h : (ofPattern q).yields m = .ok g) :
    q.isTooLong = false ∧ ∀ pos, (termOf q pos).yields m = .ok (g.get pos) := by
  cases hshort : q.isTooLong with
  | true =>
    unfold ofPattern at h
    dsimp only at h
    rw [if_pos hshort, Run.throw_bind] at h
    cases h
  | false =>
    have hends := ends_ofPattern m hshort
    cases hrefusal : Position.all.findSome? (refusal? m q) with
    | some e =>
      rw [hrefusal] at hends
      cases (Run.Reads.yields_eq hends).symm.trans h
    | none =>
      have hterm : ∀ pos, ∃ t, (termOf q pos).Reads m (.ok t) := by
        intro pos
        have hterm := ends_termOf m q pos
        rw [List.findSome?_eq_none_iff.1 hrefusal pos (Position.mem_all pos)] at hterm
        exact hterm
      obtain ⟨entity, hentity⟩ := hterm .entity
      obtain ⟨attr, hattr⟩ := hterm .attr
      obtain ⟨value, hvalue⟩ := hterm .value
      obtain ⟨txn, htxn⟩ := hterm .txn
      obtain ⟨operation, hoperation⟩ := hterm .operation
      have hreads : (ofPattern q).Reads m (.ok ⟨entity, attr, value, txn, operation⟩) := by
        unfold ofPattern
        dsimp only
        rw [if_neg (Bool.eq_false_iff.1 hshort)]
        exact .bind hentity (.bind hattr (.bind hvalue (.bind htxn (.bind hoperation (.pure _)))))
      obtain rfl := Except.ok.inj (hreads.yields_eq.symm.trans h)
      refine ⟨rfl, fun pos => ?_⟩
      cases pos with
      | entity => exact hentity.yields_eq
      | attr => exact hattr.yields_eq
      | value => exact hvalue.yields_eq
      | txn => exact htxn.yields_eq
      | operation => exact hoperation.yields_eq

/-- The terms of variables are these variables, and no others are open. -/
theorem variableName?_of_yields {pos : Position} {t : Term} (h : (termOf q pos).yields m = .ok t) :
    t.variableName? = (q.element pos).variableName? := by
  unfold termOf at h
  cases helement : q.element pos with
  | blank =>
    rw [helement] at h
    obtain rfl := Except.ok.inj h
    rfl
  | var name =>
    rw [helement] at h
    obtain rfl := Except.ok.inj h
    rfl
  | literal v =>
    rw [helement] at h
    dsimp only at h
    rw [(sturdy_segmentOf pos v).yields_bind fun _ => .pure _] at h
    obtain ⟨segment, -, heq⟩ := Except.bind_eq_ok_iff.1 h
    obtain rfl := Except.ok.inj heq
    rfl

theorem openPlaces_of_terms (h : ∀ pos, (termOf q pos).yields m = .ok (g.get pos)) : g.openPlaces = q.openPlaces := by
  unfold openPlaces Pattern.openPlaces
  congr 1
  funext pos
  rw [variableName?_of_yields (h pos)]

end Goal

theorem Projection.map_fst_of_ofKeys {g : Goal} {keys : List String} {projections : List Projection}
    (h : (ofKeys g keys).mapError Query.Error.key = .ok projections) {projection : Projection}
    (hmem : projection ∈ projections) : projection.map (·.1) = g.openPlaces.map (·.2) := by
  rw [ofKeys_eq] at h
  cases hfacts : keys.mapM StoredFact.decode with
  | error e =>
    rw [hfacts] at h
    cases h
  | ok facts =>
    rw [hfacts] at h
    obtain rfl := Except.ok.inj h
    obtain ⟨f, -, rfl⟩ := List.mem_map.1 (List.mem_eraseDups.1 hmem)
    rw [project, List.map_map]
    rfl

namespace Query

variable {m : KeyMap String} {p : Pattern} {b r : Binding} {answers : List Binding}

/-- What a clause gives under a binding where no call fails. -/
def answered (index : IndexOrder) (m : KeyMap String) (p : Pattern) (b : Binding) : Except Query.Error (List Binding) :=
  (answer index p b).yields m

theorem map_fst_of_yields_literals : ∀ {projection : Projection} {values : List (String × Value)},
    (literals projection).yields m = .ok values → values.map (·.1) = projection.map (·.1)
  | [], values, h => by
    obtain rfl := Except.ok.inj h
    rfl
  | (name, .native value) :: rest, values, h => by
    unfold literals at h
    rw [(sturdy_literals rest).yields_bind fun _ => .pure _] at h
    obtain ⟨values', hrest, heq⟩ := Except.bind_eq_ok_iff.1 h
    obtain rfl := Except.ok.inj heq
    exact congrArg (List.cons name) (map_fst_of_yields_literals hrest)
  | (name, .hashed id) :: rest, values, h => by
    unfold literals at h
    rw [Run.Sturdy.yields_bind (.mapError Query.Error.ofReverse (Dictionary.sturdy_literalOf id)) fun _ =>
      .bind (sturdy_literals rest) fun _ => .pure _] at h
    obtain ⟨literal, -, h⟩ := Except.bind_eq_ok_iff.1 h
    rw [(sturdy_literals rest).yields_bind fun _ => .pure _] at h
    obtain ⟨values', hrest, heq⟩ := Except.bind_eq_ok_iff.1 h
    obtain rfl := Except.ok.inj heq
    exact congrArg (List.cons name) (map_fst_of_yields_literals hrest)

theorem yields_extend_cons (b : Binding) (projection : Projection) (rest : List Projection) :
    (extend b (projection :: rest)).yields m = (literals projection).yields m >>= fun values =>
      (extend b rest).yields m >>= fun bindings => .ok (b.merge (.ofList values) :: bindings) := by
  rw [extend, (sturdy_literals projection).yields_bind fun _ => .bind (sturdy_extend b rest) fun _ => .pure _]
  congr 1
  funext values
  exact (sturdy_extend b rest).yields_bind (fun _ => .pure _) m

/-- Each binding that is made merges in the values of one projection. -/
theorem mem_yields_extend : ∀ {projections : List Projection} {bindings : List Binding},
    (extend b projections).yields m = .ok bindings → ∀ r ∈ bindings, ∃ projection ∈ projections, ∃ values,
      (literals projection).yields m = .ok values ∧ r = b.merge (.ofList values)
  | [], bindings, h, r, hr => by
    obtain rfl := Except.ok.inj h
    cases hr
  | projection :: rest, bindings, h, r, hr => by
    rw [yields_extend_cons] at h
    obtain ⟨values, hvalues, h⟩ := Except.bind_eq_ok_iff.1 h
    obtain ⟨bindings', hrest, heq⟩ := Except.bind_eq_ok_iff.1 h
    obtain rfl := Except.ok.inj heq
    rcases List.mem_cons.1 hr with rfl | hr
    · exact ⟨projection, List.mem_cons_self, values, hvalues, rfl⟩
    · obtain ⟨projection', hmem, hr⟩ := mem_yields_extend hrest r hr
      exact ⟨projection', List.mem_cons_of_mem _ hmem, hr⟩

/-- Extending a binding is extending nothing and merging that into the binding. -/
theorem yields_extend_eq (b : Binding) : ∀ projections : List Projection,
    (extend b projections).yields m = ((extend .empty projections).yields m).map fun bindings => bindings.map b.merge
  | [] => rfl
  | projection :: rest => by
    rw [yields_extend_cons, yields_extend_cons, yields_extend_eq b rest]
    cases (literals projection).yields m with
    | error e => rfl
    | ok values =>
      cases (extend .empty rest).yields m with
      | error e => rfl
      | ok bindings =>
        refine congrArg Except.ok (congrArg₂ List.cons ?_ rfl)
        rw [Binding.empty_merge]

theorem yields_answerGoal (index : IndexOrder) (g : Goal) (b : Binding) : (answerGoal index g b).yields m =
    (Projection.ofKeys g ((m.keysIn (ScanPlan.ofGoal index g).range).filter (ScanPlan.ofGoal index g).accepts)).mapError
      Query.Error.key >>= fun projections => (extend b projections).yields m := by
  have hscan := (ScanPlan.reads_keys m (ScanPlan.ofGoal index g)).mapError Query.Error.store
  have hextend : ∀ (event : Event) (projections : List Projection),
      (Run.tell event >>= fun _ => extend b projections).Sturdy Query.Error.store := fun event projections =>
    .bind (.tell event) fun _ => sturdy_extend b projections
  unfold answerGoal
  rw [Run.Sturdy.yields_bind (.mapError Query.Error.store (ScanPlan.sturdy_keys _)) fun keys =>
    .bind (.ofExcept _) fun projections => hextend _ projections, hscan.yields_eq]
  refine (Run.Sturdy.yields_bind (.ofExcept _) (fun projections => hextend _ projections) m).trans ?_
  exact bind_congr fun projections => ((Run.Reads.tell _).bind ((sturdy_extend b projections).reads m)).yields_eq

/-- **A clause is resolved, and then answered as a goal**; where a literal was never written nothing answers it. -/
theorem answered_eq (index : IndexOrder) (p : Pattern) (b : Binding) : answered index m p b =
    match (Goal.ofPattern (p.bind b)).yields m with
    | .ok g => (answerGoal index g b).yields m
    | .error (.unknownLiteral _) => .ok []
    | .error e => .error e := by
  unfold answered answer
  rw [Run.Sturdy.yields_outcome_bind Query.Error.store (Goal.sturdy_ofPattern (p.bind b)) fun r => ?_]
  · generalize (Goal.ofPattern (p.bind b)).yields m = resolved
    cases resolved with
    | ok g => rfl
    | error e => cases e <;> rfl
  · split
    · exact sturdy_answerGoal index _ b
    · exact .bind (.tell _) fun _ => .pure _
    · exact .throw _

/-- **Answering under a binding is answering the bound clause**, and merging its answers into the binding. -/
theorem answered_bind (index : IndexOrder) (p : Pattern) (b : Binding) :
    answered index m p b = (answered index m (p.bind b) .empty).map fun answers => answers.map b.merge := by
  rw [answered_eq, answered_eq, Pattern.bind_empty]
  split
  · rename_i g hg
    rw [yields_answerGoal, yields_answerGoal]
    cases (Projection.ofKeys g _).mapError Query.Error.key with
    | error e => rfl
    | ok projections => exact yields_extend_eq b projections
  · rfl
  · rfl

/-- **A clause adds its variables to a binding**, as far as the binding does not have them. -/
theorem gains_of_answered {index : IndexOrder} (h : answered index m p b = .ok answers) :
    ∀ r ∈ answers, b.Gains p.variableNames r := by
  intro r hr
  rw [answered_eq] at h
  split at h
  · rename_i g hg
    obtain ⟨hshort, hterms⟩ := Goal.terms_of_yields hg
    rw [yields_answerGoal] at h
    obtain ⟨projections, hprojections, h⟩ := Except.bind_eq_ok_iff.1 h
    obtain ⟨projection, hmem, values, hvalues, rfl⟩ := mem_yields_extend h r hr
    have hnames : values.map (·.1) = (p.bind b).variableNames := by
      rw [map_fst_of_yields_literals hvalues, Projection.map_fst_of_ofKeys hprojections hmem, Goal.openPlaces_of_terms hterms,
        Pattern.map_openPlaces hshort]
    rw [← Binding.gains_filter_iff, ← Pattern.variableNames_bind_eq, ← hnames]
    refine Binding.gains_merge fun name hname => ?_
    rw [hnames] at hname
    exact Binding.notMem_names (Pattern.get?_of_mem_variableNames hname)
  · obtain rfl := Except.ok.inj h
    cases hr
  · cases h

/-! ## Queries as joins -/

theorem yields_answerAll (index : IndexOrder) (p : Pattern) : ∀ bindings : List Binding,
    (answerAll index p bindings).yields m = joinAll (answered index m p) bindings
  | [] => rfl
  | b :: rest => by
    rw [answerAll, (sturdy_answer index p b).yields_bind fun _ => .bind (sturdy_answerAll index p rest) fun _ => .pure _]
    refine bind_congr fun first => ?_
    rw [(sturdy_answerAll index p rest).yields_bind fun _ => .pure _, yields_answerAll index p rest]
    rfl

/-- **A query is a join of what its clauses give.** -/
theorem yields_answerClauses (index : IndexOrder) : ∀ (patterns : List Pattern) (clause : Nat) (bindings : List Binding),
    (answerClauses index clause patterns bindings).yields m = join (answered index m) patterns bindings
  | [], _, _ => rfl
  | p :: rest, clause, bindings => by
    have htold : ∀ (event : Event) (extended : List Binding),
        (Run.tell event >>= fun _ => answerClauses index (clause + 1) rest extended).Sturdy Query.Error.store :=
      fun event extended => .bind (.tell event) fun _ => sturdy_answerClauses index rest (clause + 1) extended
    rw [answerClauses, (sturdy_answerAll index p bindings).yields_bind fun extended => htold _ extended, join,
      yields_answerAll]
    refine bind_congr fun extended => ?_
    rw [← yields_answerClauses index rest (clause + 1) extended]
    exact ((Run.Reads.tell _).bind ((sturdy_answerClauses index rest (clause + 1) extended).reads m)).yields_eq

/-- **Along a join bindings only grow**: each answer has grown from one of the bindings, by the variables of the clauses
that it did not have. -/
theorem gains_of_join {index : IndexOrder} : ∀ {patterns : List Pattern} {bindings answers : List Binding},
    join (answered index m) patterns bindings = .ok answers → ∀ r ∈ answers,
      ∃ b ∈ bindings, b.Gains (patterns.flatMap Pattern.variableNames) r
  | [], bindings, answers, h, r, hr => by
    obtain rfl := Except.ok.inj h
    exact ⟨r, hr, .refl r⟩
  | p :: rest, bindings, answers, h, r, hr => by
    obtain ⟨extended, hextended, h⟩ := Except.bind_eq_ok_iff.1 h
    obtain ⟨b', hb', hgains'⟩ := gains_of_join h r hr
    obtain ⟨b, hb, part, hpart, hmem⟩ := exists_of_mem_joinAll hextended b' hb'
    exact ⟨b, hb, (gains_of_answered hpart b' hmem).trans hgains'⟩

end Query

namespace Database

variable {db : Database}

/-- The clauses of a query are valid where none has more elements than a fact has positions. -/
theorem result_query_eq_join (hworks : db.store.faults.ReadsWork) {patterns : List Pattern}
    (hshort : ∀ p ∈ patterns, p.elements.length ≤ Pattern.capacity) (seeds : List Binding) :
    (db.query patterns seeds).result = Query.join (Query.answered db.index db.store.entries) patterns seeds := by
  have hlengths : Query.checkLengths patterns = .ok () :=
    Query.checkLengths_of_short fun p hp => decide_eq_false (Nat.not_lt.2 (hshort p hp))
  rw [query, ← Query.yields_answerClauses db.index patterns 0 seeds]
  refine result_run ?_ hworks
  unfold Query.solve
  rw [hlengths]
  exact .bind (.ofExcept _) ((Query.sturdy_answerClauses db.index patterns 0 seeds).reads db.store.entries)

/-- **A pattern that is too long ends a query before any access to the store.** -/
theorem query_of_tooLong (db : Database) {patterns : List Pattern} (seeds : List Binding)
    (hlong : ∃ p ∈ patterns, Pattern.capacity < p.elements.length) :
    ∃ p ∈ patterns, Pattern.capacity < p.elements.length ∧
      db.query patterns seeds = ⟨.error (.patternTooLong p.elements.length), db, []⟩ := by
  obtain ⟨p, hp, hcapacity⟩ := hlong
  have hlong : p.isTooLong = true := decide_eq_true hcapacity
  obtain ⟨q, hfind⟩ := Option.isSome_iff_exists.1 (List.find?_isSome.2 ⟨p, hp, hlong⟩)
  have hq : q.isTooLong = true := List.find?_some hfind
  refine ⟨q, List.mem_of_find?_eq_some hfind, of_decide_eq_true hq, ?_⟩
  have hlengths : Query.checkLengths patterns = .error (.patternTooLong q.elements.length) := by
    rw [Query.checkLengths, hfind]
  unfold query Query.solve
  rw [hlengths, Run.ofExcept_error_bind]
  rfl

/-- **Joins distribute over clauses and seeds, and only extend bindings.**  Whatever the store holds, let all reads work
and let no pattern be too long.  What clauses give together is what the later ones give from the answers of the earlier
ones, or the error of the earlier ones.  Seeds are answered together exactly if they are answered apart, and with the
same answers in their order.  Under a binding a pattern gives what the bound pattern gives under none, merged into the
binding.  Each answer is that of one seed: it has the entries of the seed, and behind them one for each variable of the
clauses that the seed does not bind, in the order in which they first occur.  A pattern that is too long ends the query
before any access to the store, whether reads work or not. -/
theorem queries_distribute (db : Database) :
    (db.store.faults.ReadsWork →
      (∀ patterns later seeds, (∀ p ∈ patterns ++ later, p.elements.length ≤ Pattern.capacity) →
        (∀ answers, (db.query patterns seeds).result = .ok answers →
          (db.query (patterns ++ later) seeds).result = (db.query later answers).result) ∧
        ∀ e, (db.query patterns seeds).result = .error e → (db.query (patterns ++ later) seeds).result = .error e) ∧
      (∀ patterns seeds seeds', (∀ p ∈ patterns, p.elements.length ≤ Pattern.capacity) → ∀ answers,
        (db.query patterns (seeds ++ seeds')).result = .ok answers ↔
          ∃ xs ys, (db.query patterns seeds).result = .ok xs ∧ (db.query patterns seeds').result = .ok ys ∧
            answers = xs ++ ys) ∧
      (∀ p b, p.elements.length ≤ Pattern.capacity → (db.query [p] [b]).result =
        (db.query [p.bind b] [.empty]).result.map fun answers => answers.map b.merge) ∧
      ∀ patterns seeds, (∀ p ∈ patterns, p.elements.length ≤ Pattern.capacity) → ∀ answers,
        (db.query patterns seeds).result = .ok answers → ∃ parts, answers = parts.flatten ∧
          List.Forall₂ (fun b part => (db.query patterns [b]).result = .ok part ∧
            ∀ r ∈ part, b.Gains (patterns.flatMap Pattern.variableNames) r) seeds parts) ∧
    ∀ patterns seeds, (∃ p ∈ patterns, Pattern.capacity < p.elements.length) →
      ∃ p ∈ patterns, Pattern.capacity < p.elements.length ∧
        db.query patterns seeds = ⟨.error (.patternTooLong p.elements.length), db, []⟩ := by
  refine ⟨fun hworks => ⟨fun patterns later seeds hshort => ?_, fun patterns seeds seeds' hshort answers => ?_,
    fun p b hshort => ?_, fun patterns seeds hshort answers hok => ?_⟩, fun patterns seeds hlong => ?_⟩
  · have hearlier : ∀ p ∈ patterns, p.elements.length ≤ Pattern.capacity := fun p hp =>
      hshort p (List.mem_append_left _ hp)
    have hlater : ∀ p ∈ later, p.elements.length ≤ Pattern.capacity := fun p hp =>
      hshort p (List.mem_append_right _ hp)
    rw [result_query_eq_join hworks hshort, result_query_eq_join hworks hearlier, Query.join_append]
    refine ⟨fun answers hok => ?_, fun e herror => ?_⟩
    · rw [hok, result_query_eq_join hworks hlater]
      rfl
    · rw [herror]
      rfl
  · rw [result_query_eq_join hworks hshort, result_query_eq_join hworks hshort, result_query_eq_join hworks hshort]
    exact Query.join_bindings_append
  · have hone : ∀ q ∈ [p], q.elements.length ≤ Pattern.capacity := List.forall_mem_singleton.2 hshort
    have hbound : ∀ q ∈ [p.bind b], q.elements.length ≤ Pattern.capacity :=
      List.forall_mem_singleton.2 ((List.length_map ..).trans_le hshort)
    rw [result_query_eq_join hworks hone, result_query_eq_join hworks hbound, Query.join_singleton,
      Query.join_singleton]
    exact Query.answered_bind db.index p b
  · rw [result_query_eq_join hworks hshort] at hok
    obtain ⟨parts, hparts, hanswers⟩ := Query.join_eq_flatten hok
    refine ⟨parts, hparts, hanswers.imp fun b part hpart => ⟨?_, fun r hr => ?_⟩⟩
    · rw [result_query_eq_join hworks hshort]
      exact hpart
    · obtain ⟨b', hb', hgains⟩ := Query.gains_of_join hpart r hr
      exact List.mem_singleton.1 hb' ▸ hgains
  · exact db.query_of_tooLong seeds hlong

/-- A store with a key that cannot be read: a clause that comes across it fails, and others do not. -/
theorem queries_distribute_damaged :
    let entries := (History.run false History.firstCommit).db.store.entries.insertAll [("eavto!x!y!z!bad!1", "")]
    let db : Database := ⟨.ofEntries entries, 1, .eavto⟩
    let names : Pattern := ⟨[.var "?e", .literal (.text "name"), .var "?v"]⟩
    let attributes : Pattern := ⟨[.var "?e", .var "?a", .var "?v"]⟩
    let bob := Binding.ofList [("?v", .text "bob")]
    let r := Binding.ofList [("?e", .text "0001"), ("?v", .text "bob")]
    let r' := Binding.ofList [("?v", .text "bob"), ("?e", .text "0001")]
    let bad : Query.Error := .key (.invalidTransaction "bad")
    db.store.faults.ReadsWork ∧ (∀ p ∈ [names] ++ [attributes], p.elements.length ≤ Pattern.capacity) ∧
      (db.query [names] [.empty]).result = .ok [r] ∧ (db.query [names] [bob]).result = .ok [r'] ∧
      (db.query [names] ([.empty] ++ [bob])).result = .ok ([r] ++ [r']) ∧
      (db.query [attributes] [.empty]).result = .error bad ∧
      (db.query ([attributes] ++ [names]) [.empty]).result = .error bad ∧
      (db.query ([names] ++ [attributes]) [.empty]).result = (db.query [attributes] [r]).result ∧
      bob.Gains names.variableNames r' := by
  intro entries db names attributes bob r r' bad
  have hworks : db.store.faults.ReadsWork := Faults.readsWork_never
  have hshort : ∀ p ∈ [names] ++ [attributes], p.elements.length ≤ Pattern.capacity := by decide
  have hok : (db.query [names] [.empty]).result = .ok [r] := by decide +kernel
  have hok' : (db.query [names] [bob]).result = .ok [r'] := by decide +kernel
  have herror : (db.query [attributes] [.empty]).result = .error bad := by decide +kernel
  obtain ⟨hlaws, -⟩ := queries_distribute db
  obtain ⟨hclauses, hseeds, -, hgains⟩ := hlaws hworks
  have hnames : ∀ p ∈ [names], p.elements.length ≤ Pattern.capacity := by decide
  have hback : ∀ p ∈ [attributes] ++ [names], p.elements.length ≤ Pattern.capacity := by decide
  obtain ⟨parts, -, hanswers⟩ := hgains [names] [bob] hnames [r'] hok'
  have hgained : bob.Gains names.variableNames r' := by
    cases hanswers with
    | cons hfirst hrest =>
      obtain rfl := Except.ok.inj (hok'.symm.trans hfirst.1)
      exact hfirst.2 r' (List.mem_singleton_self r')
  exact ⟨hworks, hshort, hok, hok', (hseeds [names] [.empty] [bob] hnames _).2 ⟨_, _, hok, hok', rfl⟩, herror,
    (hclauses [attributes] [names] [.empty] hback).2 _ herror, (hclauses [names] [attributes] [.empty] hshort).1 _ hok,
    hgained⟩

end Database
end FactBase
