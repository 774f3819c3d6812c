import FactBase.Proofs.Repeats
import Mathlib.Data.List.Count
/-!
# Conjunction — what several clauses ask for together

Clauses are answered from left to right, and each order fills in other variables first.  What they ask for has no order:
an assignment that keeps the binding and under which each clause is met by a committed fact (`Solves`).  A clause that
asks for the whole history gives exactly one binding on the way to each such assignment (`solvedFrom_listing`), so every
assignment is answered once for each seed that it solves the clauses from (`reads_answerClauses`), and the order of the
clauses does not matter (`clause_order_is_irrelevant`).
-/
namespace FactBase

/-- The values of variables, as a finite map: in no order. -/
abbrev Assignment : Type := String → Option Value

/-- The assignment has the values of the binding. -/
def Assignment.Extends (σ : Assignment) (b : Binding) : Prop := ∀ name v, b.get? name = some v → σ name = some v

/-- A fact has the literals of a pattern, and for its variables the values of the assignment. -/
structure Fact.Meets (f : Fact) (p : Pattern) (σ : Assignment) : Prop where
  agrees : f.Agrees p
  gives : ∀ pos name, p.element pos = .var name → σ name = some (f.values.get pos)

/-- The assignment keeps the binding, gives values to no names but those of the binding and of the clauses, and has a
fact that meets each clause. -/
structure Solves (facts : List Fact) (patterns : List Pattern) (b : Binding) (σ : Assignment) : Prop where
  keeps : σ.Extends b
  only : ∀ name v, σ name = some v → b.get? name = none → ∃ p ∈ patterns, ∃ pos, p.element pos = .var name
  met : ∀ p ∈ patterns, ∃ f ∈ facts, f.Meets p σ

/-! ## One clause -/

namespace Fact.Meets

variable {f : Fact} {p : Pattern} {b : Binding} {σ : Assignment}

theorem agrees_bind (h : f.Meets p σ) (hkeeps : σ.Extends b) : f.Agrees (p.bind b) := by
  intro pos v hliteral
  rcases Pattern.element_bind_eq_literal_iff.1 hliteral with hliteral | ⟨name, hvar, hbound⟩
  · exact h.agrees pos v hliteral
  · exact Option.some.inj ((h.gives pos name hvar).symm.trans (hkeeps name v hbound))

theorem extends_answer (h : f.Meets p σ) (hkeeps : σ.Extends b) :
    σ.Extends ((p.bind b).answerOf b f) := by
  intro name v hvalue
  rcases Pattern.bound_or_open_of_get?_answerOf hvalue with hbound | ⟨-, pos, hvar, rfl⟩
  · exact hkeeps name v hbound
  · exact h.gives pos name hvar

/-- **A fact meets its clause under whatever keeps its answer.** -/
theorem of_answer (hshort : p.isTooLong = false) (hvariables : p.variableNames.Nodup) (hagrees : f.Agrees (p.bind b))
    (hkeeps : σ.Extends ((p.bind b).answerOf b f)) : f.Meets p σ where
  agrees := fun pos v hliteral => hagrees pos v (Pattern.element_bind_eq_literal_iff.2 (.inl hliteral))
  gives := fun pos name hvar => by
    -- the variable was bound, or is open at this place only
    cases hget : ((p.bind b).answerOf b f).get? name with
    | none => exact absurd hvar ((Pattern.get?_answerOf_eq_none_iff.1 hget).2 pos)
    | some v =>
      rw [hkeeps name v hget]
      refine congrArg some ?_
      rcases Pattern.bound_or_open_of_get?_answerOf hget with hbound | ⟨-, pos', hvar', rfl⟩
      · exact (hagrees pos v (Pattern.element_bind_eq_literal_iff.2 (.inr ⟨name, hvar, hbound⟩))).symm
      · exact Pattern.coherent_of_nodup hshort hvariables f pos' pos name hvar' hvar

end Fact.Meets

section Solutions

variable {facts : List Fact} {p : Pattern} {patterns : List Pattern} {b : Binding} {σ : Assignment}

theorem solves_iff_of_perm {patterns' : List Pattern} (h : patterns.Perm patterns') :
    Solves facts patterns b σ ↔ Solves facts patterns' b σ := by
  have hsub : ∀ {ps ps' : List Pattern}, ps.Perm ps' → Solves facts ps b σ → Solves facts ps' b σ := by
    intro ps ps' hperm hsolves
    refine ⟨hsolves.keeps, fun name v hv hfree => ?_, fun p hp => hsolves.met p (hperm.mem_iff.2 hp)⟩
    obtain ⟨p, hp, hpos⟩ := hsolves.only name v hv hfree
    exact ⟨p, hperm.mem_iff.1 hp, hpos⟩
  exact ⟨hsub h, hsub h.symm⟩

theorem solves_nil_iff : Solves facts [] b σ ↔ b.get? = σ := by
  constructor
  · intro hsolves
    funext name
    cases hget : b.get? name with
    | some v => exact (hsolves.keeps name v hget).symm
    | none =>
      refine (Option.eq_none_iff_forall_ne_some.2 fun v hv => ?_).symm
      obtain ⟨p, hp, -⟩ := hsolves.only name v hv hget
      cases hp
  · rintro rfl
    refine ⟨fun _ _ h => h, fun name v hv hfree => ?_, fun p hp => by cases hp⟩
    rw [hfree] at hv
    cases hv

/-- **Solving the clauses is solving the first one by a fact, and the others from its answer.** -/
theorem solves_cons_iff (hshort : p.isTooLong = false) (hvariables : p.variableNames.Nodup) :
    Solves facts (p :: patterns) b σ ↔
      ∃ f ∈ facts, f.Agrees (p.bind b) ∧ Solves facts patterns ((p.bind b).answerOf b f) σ := by
  constructor
  · intro hsolves
    obtain ⟨f, hf, hmeets⟩ := hsolves.met p List.mem_cons_self
    refine ⟨f, hf, hmeets.agrees_bind hsolves.keeps, hmeets.extends_answer hsolves.keeps, fun name v hv hnone => ?_,
      fun p' hp' => hsolves.met p' (List.mem_cons_of_mem _ hp')⟩
    obtain ⟨hfree, hvar⟩ := Pattern.get?_answerOf_eq_none_iff.1 hnone
    obtain ⟨p', hp', pos, hpos⟩ := hsolves.only name v hv hfree
    rcases List.mem_cons.1 hp' with rfl | hp'
    · exact absurd hpos (hvar pos)
    · exact ⟨p', hp', pos, hpos⟩
  · rintro ⟨f, hf, hagrees, hsolves⟩
    refine ⟨fun name v hbound => hsolves.keeps name v (Pattern.get?_answerOf_of_bound hbound),
      fun name v hv hfree => ?_, fun p' hp' => ?_⟩
    · by_cases hvar : ∃ pos, p.element pos = .var name
      · exact ⟨p, List.mem_cons_self, hvar⟩
      · obtain ⟨p', hp', hpos⟩ := hsolves.only name v hv
          (Pattern.get?_answerOf_eq_none_iff.2 ⟨hfree, fun pos hpos => hvar ⟨pos, hpos⟩⟩)
        exact ⟨p', List.mem_cons_of_mem _ hp', hpos⟩
    · rcases List.mem_cons.1 hp' with rfl | hp'
      · exact ⟨f, hf, .of_answer hshort hvariables hagrees hsolves.keeps⟩
      · exact hsolves.met p' hp'

end Solutions

/-! ## Counting answers -/

/-- Bindings of the same names in the same order that one assignment extends are equal. -/
theorem Assignment.Extends.unique {σ : Assignment} {b b' : Binding} (h : σ.Extends b) (h' : σ.Extends b')
    (hnames : b.names = b'.names) : b = b' := by
  -- the pairs of a binding are its names with their values in the assignment
  have hpairs : ∀ {b : Binding}, σ.Extends b → b.pairs.map (fun pair => (pair.1, some pair.2)) =
      b.names.map fun name => (name, σ name) := by
    intro b hkeeps
    rw [Binding.names, List.map_map]
    refine List.map_congr_left fun pair hpair => ?_
    rw [Function.comp_apply, hkeeps pair.1 pair.2 (Binding.get?_eq_some_iff.2 hpair)]
  have hinj : Function.Injective fun pair : String × Value => (pair.1, some pair.2) := by
    rintro ⟨name, v⟩ ⟨name', v'⟩ heq
    obtain ⟨rfl, hsome⟩ := Prod.mk.inj heq
    exact congrArg (Prod.mk name) (Option.some.inj hsome)
  refine Binding.eq_of_pairs (List.map_injective_iff.2 hinj ?_)
  rw [hpairs h, hpairs h', hnames]

open scoped Classical in
theorem countP_eq_ite {α : Type} {l : List α} (hnodup : l.Nodup) {P : α → Prop}
    (hunique : ∀ x ∈ l, ∀ y ∈ l, P x → P y → x = y) :
    l.countP (fun x => decide (P x)) = if ∃ x ∈ l, P x then 1 else 0 := by
  split
  · rename_i hexists
    obtain ⟨x, hx, hP⟩ := hexists
    rw [← List.count_eq_one_of_mem hnodup hx, List.count_eq_countP]
    refine List.countP_congr fun y hy => ?_
    rw [decide_eq_true_eq, beq_iff_eq]
    exact ⟨fun hP' => hunique y hy x hx hP' hP, fun heq => heq ▸ hP⟩
  · rename_i hnone
    refine List.countP_eq_zero.2 fun x hx hP => hnone ⟨x, hx, of_decide_eq_true hP⟩

open scoped Classical in
/-- From how many of the bindings the assignment solves the clauses. -/
noncomputable def solvedFrom (facts : List Fact) (patterns : List Pattern) (bindings : List Binding) (σ : Assignment) :
    Nat :=
  bindings.countP fun b => decide (Solves facts patterns b σ)

theorem solvedFrom_append (facts : List Fact) (patterns : List Pattern) (xs ys : List Binding) (σ : Assignment) :
    solvedFrom facts patterns (xs ++ ys) σ = solvedFrom facts patterns xs σ + solvedFrom facts patterns ys σ :=
  List.countP_append

open scoped Classical in
theorem solvedFrom_singleton (facts : List Fact) (patterns : List Pattern) (b : Binding) (σ : Assignment) :
    solvedFrom facts patterns [b] σ = if Solves facts patterns b σ then 1 else 0 := by
  simp [solvedFrom, List.countP_singleton]

open scoped Classical in
theorem solvedFrom_pos_iff {facts : List Fact} {patterns : List Pattern} {bindings : List Binding} {σ : Assignment} :
    0 < solvedFrom facts patterns bindings σ ↔ ∃ b ∈ bindings, Solves facts patterns b σ := by
  rw [solvedFrom, List.countP_pos_iff]
  simp only [decide_eq_true_eq]

open scoped Classical in
theorem solvedFrom_of_perm (facts : List Fact) {patterns patterns' : List Pattern} (h : patterns.Perm patterns')
    (bindings : List Binding) : solvedFrom facts patterns bindings = solvedFrom facts patterns' bindings := by
  funext σ
  refine List.countP_congr fun b _ => ?_
  rw [decide_eq_true_eq, decide_eq_true_eq]
  exact solves_iff_of_perm h

open scoped Classical in
/-- Where no clauses are left, a binding solves as the assignment that it is. -/
theorem solvedFrom_nil (facts : List Fact) (bindings : List Binding) (σ : Assignment) :
    solvedFrom facts [] bindings σ = (bindings.map Binding.get?).count σ := by
  rw [List.count_eq_countP, List.countP_map]
  refine List.countP_congr fun b _ => ?_
  rw [decide_eq_true_eq, Function.comp_apply, beq_iff_eq]
  exact solves_nil_iff

/-- **The answers are the solutions**, where each assignment is answered as often as seeds solve it. -/
theorem mem_map_get?_iff {facts : List Fact} {patterns : List Pattern} {seeds answers : List Binding}
    (h : solvedFrom facts [] answers = solvedFrom facts patterns seeds) {σ : Assignment} :
    σ ∈ answers.map Binding.get? ↔ ∃ b ∈ seeds, Solves facts patterns b σ := by
  classical
  rw [← List.count_pos_iff, ← solvedFrom_nil facts, h, solvedFrom_pos_iff]

/-- **Answers among which each assignment is as often** differ in their order only. -/
theorem perm_of_solvedFrom (facts : List Fact) {answers answers' : List Binding}
    (h : solvedFrom facts [] answers = solvedFrom facts [] answers') :
    (answers.map Binding.get?).Perm (answers'.map Binding.get?) := by
  classical
  refine List.perm_iff_count.2 fun σ => ?_
  rw [← solvedFrom_nil facts, ← solvedFrom_nil facts, h]

namespace Query

variable {m : KeyMap String} {facts : List Fact} {p : Pattern} {patterns : List Pattern} {b : Binding}
  {stored : List StoredFact}

open scoped Classical in
/-- **A clause gives one answer on the way to each solution.** -/
theorem solvedFrom_listing (hm : Dictionary.Settled m) (hfound : Found m facts (p.bind b) stored)
    (hshort : p.isTooLong = false) (hopen : p.element .txn ≠ .blank) (hvariables : p.variableNames.Nodup)
    (σ : Assignment) :
    solvedFrom facts patterns (listing m (p.bind b) b stored) σ = solvedFrom facts (p :: patterns) [b] σ := by
  have hfresh : (p.bind b).Fresh b := Pattern.fresh_bind hshort (hvariables.sublist (p.variableNames_bind b))
  have hnames : ∀ f : Fact, ((p.bind b).answerOf b f).names = b.names ++ (p.bind b).variableNames := by
    intro f
    rw [Binding.names, Pattern.pairs_answerOf hfresh, List.map_append, Pattern.map_fst_view hfresh.short]
    rfl
  have hbound : (p.bind b).element .txn ≠ .blank := by
    rw [Pattern.element_bind]
    exact fun hblank => hopen (Element.bind_eq_blank_iff.1 hblank)
  rw [solvedFrom_singleton, solvedFrom, countP_eq_ite (nodup_listing hm hfound hfresh)]
  · refine if_congr ?_ rfl rfl
    rw [solves_cons_iff hshort hvariables]
    constructor
    · rintro ⟨r, hr, hsolves⟩
      obtain ⟨f, hf, hagrees, rfl⟩ := (mem_listing_of_open hfound hbound).1 hr
      exact ⟨f, hf, hagrees, hsolves⟩
    · rintro ⟨f, hf, hagrees, hsolves⟩
      exact ⟨_, (mem_listing_of_open hfound hbound).2 ⟨f, hf, hagrees, rfl⟩, hsolves⟩
  · intro r hr r' hr' hsolves hsolves'
    obtain ⟨f, -, -, rfl⟩ := (mem_listing_of_open hfound hbound).1 hr
    obtain ⟨f', -, -, rfl⟩ := (mem_listing_of_open hfound hbound).1 hr'
    exact hsolves.keeps.unique hsolves'.keeps ((hnames f).trans (hnames f').symm)

end Query

/-! ## Clauses in any order -/

/-- Both positions are places of texts, or they are the same. -/
def Position.SameType (pos pos' : Position) : Prop := pos = pos' ∨ pos.isHashed = true ∧ pos'.isHashed = true

instance (pos pos' : Position) : Decidable (pos.SameType pos') :=
  inferInstanceAs (Decidable (pos = pos' ∨ pos.isHashed = true ∧ pos'.isHashed = true))

theorem Position.SameType.takes_eq {pos pos' : Position} (h : pos.SameType pos') : pos.takes = pos'.takes := by
  rcases h with rfl | ⟨hpos, hpos'⟩
  · rfl
  · have htexts : ∀ {pos : Position}, pos.isHashed = true → pos.takes = Position.entity.takes := by
      intro pos hpos
      funext v
      cases pos with
      | entity => rfl
      | attr => cases v <;> rfl
      | value => cases v <;> rfl
      | txn => cases hpos
      | operation => cases hpos
    rw [htexts hpos, htexts hpos']

/-- Clauses that can be answered in every order.  Each has at most five elements, asks for the whole history, names no
variable twice, and its literals are of the types of their positions.  A variable stands at positions of one type. -/
structure Joinable (patterns : List Pattern) : Prop where
  length : ∀ p ∈ patterns, p.elements.length ≤ Pattern.capacity
  history : ∀ p ∈ patterns, p.element .txn ≠ .blank
  distinct : ∀ p ∈ patterns, p.variableNames.Nodup
  typed : ∀ p ∈ patterns, p.WellTyped
  consistent : ∀ p ∈ patterns, ∀ place ∈ p.openPlaces, ∀ p' ∈ patterns, ∀ place' ∈ p'.openPlaces,
    place.2 = place'.2 → place.1.SameType place'.1

/-- The values of the binding are of the types of the positions where the clauses name their variables. -/
def Binding.Suits (b : Binding) (patterns : List Pattern) : Prop :=
  ∀ p ∈ patterns, ∀ place ∈ p.openPlaces, (b.get? place.2).all place.1.takes = true

instance (b : Binding) (patterns : List Pattern) : Decidable (b.Suits patterns) :=
  inferInstanceAs (Decidable (∀ p ∈ patterns, ∀ place ∈ p.openPlaces, (b.get? place.2).all place.1.takes = true))

theorem Binding.suits_iff {b : Binding} {patterns : List Pattern} : b.Suits patterns ↔ ∀ p ∈ patterns, ∀ pos name v,
    p.element pos = .var name → b.get? name = some v → pos.takes v = true := by
  constructor
  · intro hsuits p hp pos name v hvar hbound
    have hall := hsuits p hp (pos, name) (Pattern.mem_openPlaces.2 hvar)
    rwa [hbound] at hall
  · rintro h p hp ⟨pos, name⟩ hplace
    refine Option.all_eq_true_iff_get _ _ |>.2 fun hsome => ?_
    exact h p hp pos name _ (Pattern.mem_openPlaces.1 hplace) (Option.some_get hsome).symm

theorem Binding.Suits.mono {b : Binding} {patterns patterns' : List Pattern} (h : b.Suits patterns)
    (hsub : patterns' ⊆ patterns) : b.Suits patterns' := fun p hp => h p (hsub hp)

namespace Joinable

variable {p : Pattern} {patterns patterns' : List Pattern} {b : Binding}

theorem mono (h : Joinable patterns) (hsub : patterns' ⊆ patterns) : Joinable patterns' where
  length := fun p hp => h.length p (hsub hp)
  history := fun p hp => h.history p (hsub hp)
  distinct := fun p hp => h.distinct p (hsub hp)
  typed := fun p hp => h.typed p (hsub hp)
  consistent := fun p hp place hplace p' hp' => h.consistent p (hsub hp) place hplace p' (hsub hp')

theorem isTooLong_eq_false (h : Joinable patterns) (hp : p ∈ patterns) : p.isTooLong = false :=
  decide_eq_false (Nat.not_lt.2 (h.length p hp))

theorem wellTyped_bind (h : Joinable patterns) (hp : p ∈ patterns) (hsuits : b.Suits patterns) :
    (p.bind b).WellTyped := by
  intro pos v hliteral
  rcases Pattern.element_bind_eq_literal_iff.1 hliteral with hliteral | ⟨name, hvar, hbound⟩
  · exact h.typed p hp pos v hliteral
  · exact Binding.suits_iff.1 hsuits p hp pos name v hvar hbound

/-- **An answer suits the clauses that are left**: what it takes from a fact is of the type of every place of its
variable. -/
theorem suits_answer (h : Joinable (p :: patterns)) (hsuits : b.Suits (p :: patterns)) (f : Fact) :
    ((p.bind b).answerOf b f).Suits patterns := by
  refine Binding.suits_iff.2 fun p' hp' pos' name v hvar' hvalue => ?_
  have hp' := List.mem_cons_of_mem p hp'
  rcases Pattern.bound_or_open_of_get?_answerOf hvalue with hbound | ⟨-, pos, hvar, rfl⟩
  · exact Binding.suits_iff.1 hsuits p' hp' pos' name v hvar' hbound
  · have hsame : pos.SameType pos' := h.consistent p List.mem_cons_self (pos, name) (Pattern.mem_openPlaces.2 hvar)
      p' hp' (pos', name) (Pattern.mem_openPlaces.2 hvar') rfl
    rw [← hsame.takes_eq]
    exact f.takes_get pos

end Joinable

namespace Query

variable {m : KeyMap String} {facts : List Fact} {p : Pattern}

/-- **A clause carries every solution on**: its answers suit the clauses that are left and lead to each assignment as
often as the bindings do. -/
theorem reads_answerAll (h : Ledger m facts) {patterns : List Pattern} (hclauses : Joinable (p :: patterns)) :
    ∀ bindings : List Binding, (∀ b ∈ bindings, b.Suits (p :: patterns)) →
      ∃ answers, (answerAll .eavto p bindings).Reads m (.ok answers) ∧ (∀ r ∈ answers, r.Suits patterns) ∧
        solvedFrom facts patterns answers = solvedFrom facts (p :: patterns) bindings
  | [], _ => ⟨[], .pure _, fun r hr => (by cases hr), rfl⟩
  | b :: rest, hsuits => by
    have hp : p ∈ p :: patterns := List.mem_cons_self
    have hb := hsuits b List.mem_cons_self
    have hshort := hclauses.isTooLong_eq_false hp
    have hopen := hclauses.history p hp
    obtain ⟨stored, hfound⟩ := h.exists_found (p.bind b)
    have hfirst := reads_answer_listing h hshort (hclauses.wellTyped_bind hp hb) hfound
    obtain ⟨others, hothers, hsuits', hsolved⟩ :=
      reads_answerAll h hclauses rest fun b' hb' => hsuits b' (List.mem_cons_of_mem _ hb')
    refine ⟨_, .bind hfirst (.bind hothers (.pure _)), fun r hr => ?_, ?_⟩
    · rcases List.mem_append.1 hr with hr | hr
      · obtain ⟨s, -, f, -, -, -, rfl⟩ := fact_of_mem_listing hfound hr
        exact hclauses.suits_answer hb f
      · exact hsuits' r hr
    · funext σ
      rw [solvedFrom_append, hsolved, solvedFrom_listing h.settled hfound hshort hopen (hclauses.distinct p hp),
        ← solvedFrom_append]
      rfl

/-- **Every assignment is answered once for each seed from which it solves the clauses.** -/
theorem reads_answerClauses (h : Ledger m facts) : ∀ {patterns : List Pattern} (clause : Nat) {bindings : List Binding},
    Joinable patterns → (∀ b ∈ bindings, b.Suits patterns) →
      ∃ answers, (answerClauses .eavto clause patterns bindings).Reads m (.ok answers) ∧
        solvedFrom facts [] answers = solvedFrom facts patterns bindings
  | [], _, bindings, _, _ => ⟨bindings, .pure _, rfl⟩
  | p :: patterns, clause, bindings, hclauses, hsuits => by
    obtain ⟨extended, hextended, hsuits', hsolved⟩ := reads_answerAll h hclauses bindings hsuits
    obtain ⟨answers, hanswers, hsolved'⟩ := reads_answerClauses h (clause + 1) (hclauses.mono (List.subset_cons_self ..)) hsuits'
    exact ⟨answers, .bind hextended (.bind (.tell _) hanswers), hsolved'.trans hsolved⟩

end Query

namespace History

/-- **The order of clauses does not matter for what they ask of the whole history.**  After every run, where all reads
work, clauses that can be joined are answered in each order, from seeds whose values are of their types.  Read as the
values of their variables, the answers are what solves the clauses from a seed, and any two orders give the same ones,
each as often. -/
theorem clause_order_is_irrelevant (durable : Bool) (steps : List Step) {faults : Faults} (hworks : faults.ReadsWork)
    {patterns patterns' : List Pattern} (hclauses : Joinable patterns) (hperm : patterns.Perm patterns')
    {seeds : List Binding} (hseeds : ∀ b ∈ seeds, b.Suits patterns) :
    let h := run durable steps
    let db := h.db.withFaults faults
    ∃ answers answers', (db.query patterns seeds).result = .ok answers ∧
      (db.query patterns' seeds).result = .ok answers' ∧
      (∀ σ, σ ∈ answers.map Binding.get? ↔ ∃ b ∈ seeds, Solves h.facts patterns b σ) ∧
      (answers.map Binding.get?).Perm (answers'.map Binding.get?) := by
  intro h db
  have hs : Sound h := sound_run durable steps
  have hindex : db.index = .eavto := hs.index
  have hclauses' := hclauses.mono hperm.symm.subset
  have hseeds' : ∀ b ∈ seeds, b.Suits patterns' := fun b hb => (hseeds b hb).mono hperm.symm.subset
  obtain ⟨answers, hreads, hsolved⟩ := Query.reads_answerClauses hs.ledger 0 hclauses hseeds
  obtain ⟨answers', hreads', hsolved'⟩ := Query.reads_answerClauses hs.ledger 0 hclauses' hseeds'
  refine ⟨answers, answers', ?_, ?_, fun σ => mem_map_get?_iff hsolved, perm_of_solvedFrom h.facts ?_⟩
  · exact Database.result_query hindex hworks (fun p hp => hclauses.isTooLong_eq_false hp) hreads
  · exact Database.result_query hindex hworks (fun p hp => hclauses'.isTooLong_eq_false hp) hreads'
  · rw [hsolved, hsolved', solvedFrom_of_perm _ hperm]

/-- Names with the authors of their transactions: each order binds the variables in another order. -/
theorem clause_order_is_irrelevant_firstCommit :
    let db := (run false firstCommit).db.withFaults .never
    let names : Pattern := ⟨[.var "?e", .literal (.text "name"), .var "?v", .var "?t"]⟩
    let authors : Pattern := ⟨[.blank, .literal (.text "by"), .var "?who", .var "?t"]⟩
    let r := Binding.ofList [("?e", .text "0001"), ("?v", .text "bob"), ("?t", .integer 1), ("?who", .text "ann")]
    let r' := Binding.ofList [("?who", .text "ann"), ("?t", .integer 1), ("?e", .text "0001"), ("?v", .text "bob")]
    Faults.never.ReadsWork ∧ Joinable [names, authors] ∧ [names, authors].Perm [authors, names] ∧
      (∀ b ∈ [Binding.empty], b.Suits [names, authors]) ∧ (db.query [names, authors] [.empty]).result = .ok [r] ∧
      (db.query [authors, names] [.empty]).result = .ok [r'] ∧ [r.get?].Perm [r'.get?] := by
  intro db names authors r r'
  have hclauses : Joinable [names, authors] := ⟨by decide, by decide, by decide, by decide, by decide⟩
  have hperm : [names, authors].Perm [authors, names] := .swap ..
  have hseeds : ∀ b ∈ [Binding.empty], b.Suits [names, authors] := by decide
  have hok : (db.query [names, authors] [.empty]).result = .ok [r] := by decide +kernel
  have hok' : (db.query [authors, names] [.empty]).result = .ok [r'] := by decide +kernel
  obtain ⟨answers, answers', hanswers, hanswers', -, hsame⟩ :=
    clause_order_is_irrelevant false firstCommit Faults.readsWork_never hclauses hperm hseeds
  obtain rfl : [r] = answers := Except.ok.inj (hok.symm.trans hanswers)
  obtain rfl : [r'] = answers' := Except.ok.inj (hok'.symm.trans hanswers')
  exact ⟨Faults.readsWork_never, hclauses, hperm, hseeds, hok, hok', hsame⟩

end History
end FactBase
