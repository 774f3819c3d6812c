import FactBase.Proofs.Registering
import FactBase.Proofs.Steadiness
import Mathlib.Data.List.Perm.Basic
/-!
# Shuffling — rows that are written in another order

Stores into which the same rows were written, in another order and cut into other transactions, differ in the numbers of
the transactions, in the identifiers of literals whose checksums collide, and so in the order of their keys.  What they
have in common is that their facts have these rows, and their dictionaries the literals of these rows (`Stocks`).  Where
no entity has two rows for an attribute, every row stands for itself, so a clause gives the same answers on both, in
another order (`sameAnswers_answer`); and a list of clauses takes the same answers to the same answers.  Main statement:
`write_order_is_irrelevant`.
-/
namespace FactBase

open Dictionary (slot)

/-! ## What the stores have in common -/

def Fact.row (f : Fact) : Row := ⟨f.entity, f.attr, f.value, f.operation⟩

/-- The entity and the attribute that a row is about. -/
def Row.place (row : Row) : String × String := (row.entity, row.attr)

theorem Fact.get_eq_of_row {f f' : Fact} (h : f.row = f'.row) {pos : Position} (hpos : pos ≠ .txn) :
    f.values.get pos = f'.values.get pos := by
  obtain ⟨hentity, hattr, hvalue, hoperation⟩ := Row.mk.inj h
  cases pos with
  | entity => exact congrArg Value.text hentity
  | attr => exact congrArg Value.text hattr
  | value => exact congrArg Value.text hvalue
  | txn => exact absurd rfl hpos
  | operation => exact congrArg Value.boolean hoperation

section Blank

variable {f f' : Fact} {q : Pattern}

/-- A pattern that leaves the transaction blank does not see it. -/
theorem Fact.Agrees.of_row (h : f.Agrees q) (hblank : q.element .txn = .blank) (hrow : f.row = f'.row) :
    f'.Agrees q := by
  intro pos v hliteral
  have hpos : pos ≠ .txn := by
    rintro rfl
    rw [hblank] at hliteral
    cases hliteral
  rw [← Fact.get_eq_of_row hrow hpos]
  exact h pos v hliteral

theorem Pattern.view_eq_of_row (hblank : q.element .txn = .blank) (hrow : f.row = f'.row) : q.view f = q.view f' := by
  refine List.map_congr_left fun place hplace => congrArg (Prod.mk place.2) (Fact.get_eq_of_row hrow ?_)
  intro heq
  have hvar := mem_openPlaces.1 hplace
  rw [heq, hblank] at hvar
  cases hvar

end Blank

/-- A store of rows: its facts have these rows, each as often, and every literal in its dictionary is one of theirs. -/
structure Stocks (m : KeyMap String) (facts : List Fact) (rows : List Row) : Prop where
  ledger : Ledger m facts
  perm : (facts.map Fact.row).Perm rows
  only : ∀ id l, m.get? (slot id) = some l → ∃ row ∈ rows, l ∈ row.literals

namespace Stocks

variable {m m' : KeyMap String} {facts facts' : List Fact} {rows rows' : List Row} {q : Pattern}
  {stored stored' : List StoredFact}

theorem mem_iff (h : Stocks m facts rows) {row : Row} : row ∈ rows ↔ ∃ f ∈ facts, f.row = row := by
  rw [← h.perm.mem_iff, List.mem_map]

theorem of_perm (h : Stocks m facts rows) (hperm : rows.Perm rows') : Stocks m facts rows' where
  ledger := h.ledger
  perm := h.perm.trans hperm
  only := fun id l hl => by
    obtain ⟨row, hrow, hmem⟩ := h.only id l hl
    exact ⟨row, hperm.mem_iff.1 hrow, hmem⟩

/-- **The dictionary has the literals of the rows**, and no others. -/
theorem held_iff (h : Stocks m facts rows) {l : String} :
    (∃ id, m.get? (slot id) = some l) ↔ ∃ row ∈ rows, l ∈ row.literals := by
  constructor
  · rintro ⟨id, hl⟩
    exact h.only id l hl
  · rintro ⟨row, hrow, hl⟩
    obtain ⟨f, hf, rfl⟩ := h.mem_iff.1 hrow
    obtain ⟨key, ⟨s, hholds, -⟩, -⟩ := h.ledger.stored f hf
    have hslots : ∀ l ∈ [f.entity, f.attr, f.value], ∃ id, m.get? (slot id) = some l := by
      simp only [List.forall_mem_cons]
      exact ⟨⟨_, hholds.entity⟩, ⟨_, hholds.attr⟩, ⟨_, hholds.value⟩, fun l hl => by cases hl⟩
    exact hslots l hl

/-- **The same literals are refused**, with the same errors. -/
theorem refusal?_eq (h : Stocks m facts rows) (h' : Stocks m' facts' rows) (q : Pattern) :
    Goal.refusal? m q = Goal.refusal? m' q := by
  have hknown : ∀ v, Goal.isKnown m v = Goal.isKnown m' v := by
    intro v
    cases v with
    | text s =>
      refine Bool.eq_iff_iff.2 ?_
      simp only [Goal.isKnown, Option.isSome_iff_exists, h.ledger.settled.held_iff, h'.ledger.settled.held_iff]
      exact h.held_iff.trans h'.held_iff.symm
    | integer n => rfl
    | boolean b => rfl
  funext pos
  unfold Goal.refusal? Goal.refusalOf
  simp only [hknown]

theorem eq_of_place (h : Stocks m facts rows) (hplaces : (rows.map Row.place).Nodup) {f f' : Fact} (hf : f ∈ facts)
    (hf' : f' ∈ facts) (hplace : f.row.place = f'.row.place) : f = f' := by
  have hperm := h.perm.map Row.place
  rw [List.map_map] at hperm
  exact List.inj_on_of_nodup_map (hperm.nodup_iff.2 hplaces) hf hf' hplace

/-- **Where no entity has two rows for an attribute, every fact stands for itself.** -/
theorem mem_standing (h : Stocks m facts rows) (hplaces : (rows.map Row.place).Nodup) (hfound : Found m facts q stored)
    {s : StoredFact} : s ∈ Projection.standing true stored ↔ s ∈ stored := by
  rw [Projection.mem_standing hfound.sorted]
  refine ⟨fun htops => htops.1, fun hs => ⟨hs, fun s' hs' halike => ?_⟩⟩
  obtain ⟨f, hf, hholds, -⟩ := hfound.sound s hs
  obtain ⟨f', hf', hholds', -⟩ := hfound.sound s' hs'
  -- facts of one entity and attribute are of one row, so nothing comes after a fact but itself
  obtain ⟨hentity, hattr⟩ := (StoredFact.alike_iff h.ledger.settled hholds' hholds).1 halike
  obtain rfl := h.eq_of_place hplaces hf' hf (Prod.ext hentity hattr)
  obtain rfl := hholds'.unique hholds h.ledger.settled
  exact .inr ⟨rfl, String.le_refl _⟩

theorem views_subset (h : Stocks m facts rows) (h' : Stocks m' facts' rows) (hplaces : (rows.map Row.place).Nodup)
    (hblank : q.element .txn = .blank) (hfound : Found m facts q stored) (hfound' : Found m' facts' q stored') :
    Query.views m q stored ⊆ Query.views m' q stored' := by
  intro values hvalues
  -- the two stores share no identifiers: the row is what leads from a fact of the one to a fact of the other
  obtain ⟨-, -, f, hf, -, hagrees, rfl⟩ := (Query.mem_views hfound).1 hvalues
  obtain ⟨f', hf', hrow⟩ := h'.mem_iff.1 (h.mem_iff.2 ⟨f, hf, rfl⟩)
  have hagrees' := hagrees.of_row hblank hrow.symm
  obtain ⟨s', hs', hholds'⟩ := hfound'.complete f' hf' hagrees'
  refine (Query.mem_views hfound').2 ⟨s', ?_, f', hf', hholds', hagrees', Pattern.view_eq_of_row hblank hrow.symm⟩
  rw [decide_eq_true hblank]
  exact (h'.mem_standing hplaces hfound').2 hs'

/-- **The answers to a pattern are the same**, in some order. -/
theorem perm_listing (h : Stocks m facts rows) (h' : Stocks m' facts' rows) (hplaces : (rows.map Row.place).Nodup)
    (hblank : q.element .txn = .blank) (hfound : Found m facts q stored) (hfound' : Found m' facts' q stored')
    (b : Binding) : (Query.listing m q b stored).Perm (Query.listing m' q b stored') := by
  rw [Query.listing_eq, Query.listing_eq]
  refine List.Perm.map _ ((List.perm_ext_iff_of_nodup (Query.nodup_views h.ledger.settled hfound)
    (Query.nodup_views h'.ledger.settled hfound')).2 fun values => ?_)
  exact ⟨fun hv => h.views_subset h' hplaces hblank hfound hfound' hv,
    fun hv => h'.views_subset h hplaces hblank hfound' hfound hv⟩

end Stocks

/-! ## The same answers, in some order -/

namespace Query

/-- Wherever all reads work, the computations only read, the first over the one map and the second over the other.
Either both give answers, the same ones in some order, or both fail. -/
inductive SameAnswers (m m' : KeyMap String) (x y : Run Query.Error (List Binding)) : Prop where
  | answers {as as' : List Binding} (reads : x.Reads m (.ok as)) (reads' : y.Reads m' (.ok as')) (perm : as.Perm as')
  | fail (fails : x.Fails m) (fails' : y.Fails m')

variable {m m' : KeyMap String} {facts facts' : List Fact} {rows : List Row} {p : Pattern}

namespace SameAnswers

variable {x y : Run Query.Error (List Binding)}

theorem symm (h : SameAnswers m m' x y) : SameAnswers m' m y x := by
  cases h with
  | answers reads reads' perm => exact .answers reads' reads perm.symm
  | fail fails fails' => exact .fail fails' fails

theorem left (h : SameAnswers m m' x y) : (∃ as, x.Reads m (.ok as)) ∨ x.Fails m := by
  cases h with
  | answers reads reads' perm => exact .inl ⟨_, reads⟩
  | fail fails fails' => exact .inr fails

theorem after {α α' : Type} {z : Run Query.Error α} {z' : Run Query.Error α'} {a : α} {a' : α'}
    {f : α → Run Query.Error (List Binding)} {g : α' → Run Query.Error (List Binding)} (hz : z.Reads m (.ok a))
    (hz' : z'.Reads m' (.ok a')) (h : SameAnswers m m' (f a) (g a')) : SameAnswers m m' (z >>= f) (z' >>= g) := by
  cases h with
  | answers reads reads' perm => exact .answers (.bind hz reads) (.bind hz' reads') perm
  | fail fails fails' => exact .fail (.after hz fails) (.after hz' fails')

/-- **What does not depend on the order of bindings goes on from the same answers to the same answers.** -/
theorem bind {f g : List Binding → Run Query.Error (List Binding)} (h : SameAnswers m m' x y)
    (hfg : ∀ as as', as.Perm as' → SameAnswers m m' (f as) (g as')) : SameAnswers m m' (x >>= f) (y >>= g) := by
  cases h with
  | answers reads reads' perm => exact .after reads reads' (hfg _ _ perm)
  | fail fails fails' => exact .fail fails.bind fails'.bind

end SameAnswers

theorem sameAnswers_answer (h : Stocks m facts rows) (h' : Stocks m' facts' rows) (hplaces : (rows.map Row.place).Nodup)
    (hshort : p.isTooLong = false) (hblank : p.element .txn = .blank) (b : Binding) :
    SameAnswers m m' (answer .eavto p b) (answer .eavto p b) := by
  have hbound : (p.bind b).element .txn = .blank := by
    rw [Pattern.element_bind, hblank]
    rfl
  by_cases htyped : (p.bind b).WellTyped
  · obtain ⟨stored, hfound⟩ := h.ledger.exists_found (p.bind b)
    obtain ⟨stored', hfound'⟩ := h'.ledger.exists_found (p.bind b)
    exact .answers (reads_answer_listing h.ledger hshort htyped hfound)
      (reads_answer_listing h'.ledger hshort htyped hfound') (h.perm_listing h' hplaces hbound hfound hfound' b)
  · -- both stores refuse the same literal
    obtain ⟨e, he⟩ := Pattern.exists_refusal (m := m) htyped
    have hreads := reads_answer_of_refusal .eavto hshort he
    rw [h.refusal?_eq h'] at he
    have hreads' := reads_answer_of_refusal .eavto hshort he
    rcases Goal.refusal_cases he with ⟨text, rfl⟩ | ⟨pos, v, rfl, -⟩
    · exact .answers hreads hreads' (.refl _)
    · exact .fail ⟨_, hreads⟩ ⟨_, hreads'⟩

theorem reads_answerAll_flatMap {f : Binding → List Binding} : ∀ {bindings : List Binding},
    (∀ b ∈ bindings, (answer .eavto p b).Reads m (.ok (f b))) →
      (answerAll .eavto p bindings).Reads m (.ok (bindings.flatMap f))
  | [], _ => .pure _
  | b :: rest, h => by
    have hrest := reads_answerAll_flatMap fun b' hb' => h b' (List.mem_cons_of_mem _ hb')
    exact .bind (h b List.mem_cons_self) (.bind hrest (.pure _))

theorem fails_answerAll : ∀ {bindings : List Binding},
    (∀ b ∈ bindings, (∃ as, (answer .eavto p b).Reads m (.ok as)) ∨ (answer .eavto p b).Fails m) →
      (∃ b ∈ bindings, (answer .eavto p b).Fails m) → (answerAll .eavto p bindings).Fails m
  | [], _, ⟨b, hb, _⟩ => by cases hb
  | b :: rest, h, ⟨b', hb', hfails⟩ => by
    rcases h b List.mem_cons_self with ⟨as, hreads⟩ | hfirst
    · rcases List.mem_cons.1 hb' with rfl | hb'
      · exact hfails.bind
      · have hrest := fails_answerAll (fun b hb => h b (List.mem_cons_of_mem _ hb)) ⟨b', hb', hfails⟩
        exact .after hreads hrest.bind
    · exact hfirst.bind

theorem sameAnswers_answerAll (h : ∀ b, SameAnswers m m' (answer .eavto p b) (answer .eavto p b))
    {bindings bindings' : List Binding} (hperm : bindings.Perm bindings') :
    SameAnswers m m' (answerAll .eavto p bindings) (answerAll .eavto p bindings') := by
  by_cases hfail : ∃ b ∈ bindings, (answer .eavto p b).Fails m ∧ (answer .eavto p b).Fails m'
  · obtain ⟨b, hb, hfails, hfails'⟩ := hfail
    exact .fail (fails_answerAll (fun b _ => (h b).left) ⟨b, hb, hfails⟩)
      (fails_answerAll (fun b _ => (h b).symm.left) ⟨b, hperm.mem_iff.1 hb, hfails'⟩)
  · -- where no binding fails, the answers to each are chosen on both sides
    have hanswers : ∀ b ∈ bindings, ∃ as as', (answer .eavto p b).Reads m (.ok as) ∧
        (answer .eavto p b).Reads m' (.ok as') ∧ as.Perm as' := by
      intro b hb
      cases h b with
      | answers reads reads' perm => exact ⟨_, _, reads, reads', perm⟩
      | fail fails fails' => exact absurd ⟨b, hb, fails, fails'⟩ hfail
    choose! f f' hf using hanswers
    exact .answers (reads_answerAll_flatMap fun b hb => (hf b hb).1)
      (reads_answerAll_flatMap fun b hb => (hf b (hperm.mem_iff.2 hb)).2.1)
      (hperm.flatMap fun b hb => (hf b hb).2.2)

theorem sameAnswers_answerClauses : ∀ {patterns : List Pattern} (clause : Nat) {bindings bindings' : List Binding},
    (∀ p ∈ patterns, ∀ b, SameAnswers m m' (answer .eavto p b) (answer .eavto p b)) → bindings.Perm bindings' →
      SameAnswers m m' (answerClauses .eavto clause patterns bindings) (answerClauses .eavto clause patterns bindings')
  | [], _, _, _, _, hperm => .answers (.pure _) (.pure _) hperm
  | p :: _, clause, _, _, h, hperm =>
    (sameAnswers_answerAll (h p List.mem_cons_self) hperm).bind fun _ _ hperm' => .after (.tell _) (.tell _)
      (sameAnswers_answerClauses (clause + 1) (fun q hq => h q (List.mem_cons_of_mem _ hq)) hperm')

/-- **Queries are answered alike by stores of the same rows.** -/
theorem sameAnswers_solve (h : Stocks m facts rows) (h' : Stocks m' facts' rows) (hplaces : (rows.map Row.place).Nodup)
    {patterns : List Pattern} (hblank : ∀ p ∈ patterns, p.element .txn = .blank) (seeds : List Binding) :
    SameAnswers m m' (solve .eavto patterns seeds) (solve .eavto patterns seeds) := by
  unfold solve checkLengths
  cases hfind : patterns.find? Pattern.isTooLong with
  | some p => exact .fail ⟨_, .bind_error (.ofExcept _)⟩ ⟨_, .bind_error (.ofExcept _)⟩
  | none =>
    have hanswers : ∀ p ∈ patterns, ∀ b, SameAnswers m m' (answer .eavto p b) (answer .eavto p b) := fun p hp =>
      sameAnswers_answer h h' hplaces (Bool.eq_false_iff.2 (List.find?_eq_none.1 hfind p hp)) (hblank p hp)
    exact .after (.ofExcept _) (.ofExcept _) (sameAnswers_answerClauses 0 hanswers (.refl seeds))

end Query

/-! ## What is told of an entity -/

namespace KeyMap

variable {α : Type}

theorem eq_of_get? {m m' : KeyMap α} (h : ∀ k, m.get? k = m'.get? k) : m = m' := by
  have hmem : ∀ {m m' : KeyMap α}, (∀ k, m.get? k = m'.get? k) → ∀ p ∈ m.pairs, p ∈ m'.pairs :=
    fun h p hp => mem_of_get? ((h p.1).symm.trans (get?_of_mem hp))
  have : Std.Irrefl fun p q : String × α => p.1 < q.1 := ⟨fun p => String.lt_irrefl p.1⟩
  have : Std.Antisymm fun p q : String × α => p.1 < q.1 :=
    ⟨fun p q hlt hlt' => absurd (String.lt_trans hlt hlt') (String.lt_irrefl p.1)⟩
  have hpairs : m.pairs = m'.pairs :=
    m.ascending.eq_of_mem_iff m'.ascending fun p => ⟨hmem h p, hmem (fun k => (h k).symm) p⟩
  cases m
  cases m'
  cases hpairs
  rfl

/-- **The order of insertions does not matter** where no key is given two values. -/
theorem insertAll_of_perm {batch batch' : List (String × α)} (hperm : batch.Perm batch')
    (hunique : ∀ k v w, (k, v) ∈ batch → (k, w) ∈ batch → w = v) (m : KeyMap α) :
    m.insertAll batch = m.insertAll batch' := by
  have hunique' : ∀ k v w, (k, v) ∈ batch' → (k, w) ∈ batch' → w = v := fun k v w hv hw =>
    hunique k v w (hperm.mem_iff.2 hv) (hperm.mem_iff.2 hw)
  refine eq_of_get? fun k => Option.ext fun v => ?_
  rw [get?_insertAll_eq_some_iff hunique, get?_insertAll_eq_some_iff hunique', hperm.mem_iff]
  exact or_congr_right (and_congr_left' (forall_congr' fun p => by rw [hperm.mem_iff]))

end KeyMap

namespace Query

def attributeOf (b : Binding) : Option (String × Value) :=
  match b.get? "?a", b.get? "?v" with
  | some (.text attr), some value => some (attr, value)
  | _, _ => none

theorem attributes_eq (bindings : List Binding) :
    attributes bindings = KeyMap.empty.insertAll (bindings.filterMap attributeOf) := by
  rw [attributes, KeyMap.insertAll, List.foldl_filterMap]
  congr 1
  funext found b
  unfold attributeOf
  split <;> simp_all

/-- What is asked of an entity. -/
def askedOf (id : String) : Pattern := entityPattern.bind (entityBinding id)

theorem attributeOf_answerOf (id : String) (f : Fact) :
    attributeOf ((askedOf id).answerOf (entityBinding id) f) = some (f.attr, .text f.value) := rfl

variable {m m' : KeyMap String} {facts facts' : List Fact} {rows : List Row} {stored stored' : List StoredFact}
  {id : String}

theorem reads_entity (h : Ledger m facts) (hfound : Found m facts (askedOf id) stored) :
    (entity .eavto id).Reads m (.ok (attributes (listing m (askedOf id) (entityBinding id) stored))) := by
  have hanswer : (answer .eavto entityPattern (entityBinding id)).Reads m
      (.ok (listing m (askedOf id) (entityBinding id) stored)) :=
    reads_answer_listing h rfl (wellTyped_entity id) hfound
  have hall : (answerAll .eavto entityPattern [entityBinding id]).Reads m
      (.ok (listing m (askedOf id) (entityBinding id) stored ++ [])) :=
    .bind hanswer (.bind (.pure _) (.pure _))
  rw [List.append_nil] at hall
  exact .bind (.bind (.ofExcept _) (.bind hall (.bind (.tell _) (.pure _)))) (.pure _)

theorem fact_of_mem_attributes (hfound : Found m facts (askedOf id) stored) {attr : String} {value : Value}
    (h : (attr, value) ∈ (listing m (askedOf id) (entityBinding id) stored).filterMap attributeOf) :
    ∃ f ∈ facts, f.row.place = (id, attr) ∧ .text f.value = value := by
  obtain ⟨r, hr, hattr⟩ := List.mem_filterMap.1 h
  obtain ⟨-, -, f, hf, -, hagrees, rfl⟩ := fact_of_mem_listing hfound hr
  rw [attributeOf_answerOf] at hattr
  obtain ⟨rfl, rfl⟩ := Prod.mk.inj (Option.some.inj hattr)
  have hentity : f.entity = id := Value.text.inj (hagrees .entity _ rfl)
  exact ⟨f, hf, Prod.ext hentity rfl, rfl⟩

/-- **An entity has the same attributes in every store of the rows.** -/
theorem attributes_listing_eq (h : Stocks m facts rows) (h' : Stocks m' facts' rows)
    (hplaces : (rows.map Row.place).Nodup) (hfound : Found m facts (askedOf id) stored)
    (hfound' : Found m' facts' (askedOf id) stored') :
    attributes (listing m (askedOf id) (entityBinding id) stored) =
      attributes (listing m' (askedOf id) (entityBinding id) stored') := by
  have hperm := h.perm_listing h' hplaces rfl hfound hfound' (entityBinding id)
  rw [attributes_eq, attributes_eq]
  refine KeyMap.insertAll_of_perm (hperm.filterMap _) (fun attr v w hv hw => ?_) _
  obtain ⟨f, hf, hplace, rfl⟩ := fact_of_mem_attributes hfound hv
  obtain ⟨f', hf', hplace', rfl⟩ := fact_of_mem_attributes hfound hw
  rw [h.eq_of_place hplaces hf' hf (hplace'.trans hplace.symm)]

end Query

theorem Database.result_entity {db : Database} (hindex : db.index = .eavto) (hworks : db.store.faults.ReadsWork)
    {facts : List Fact} (h : Ledger db.store.entries facts) {id : String} {stored : List StoredFact}
    (hfound : Found db.store.entries facts (Query.askedOf id) stored) :
    (db.entity id).result =
      .ok (Query.attributes (Query.listing db.store.entries (Query.askedOf id) (Query.entityBinding id) stored)) := by
  rw [entity, hindex]
  exact result_run (Query.reads_entity h hfound) hworks

/-! ## Histories that write rows -/

namespace History

/-- A history in which rows were written, each transaction with some of them and without metadata, and nothing failed
but reopenings. -/
inductive Loads : History → List Row → Prop where
  | start (durable : Bool) : Loads (start durable) []
  | commit {h : History} {rows : List Row} (loads : Loads h rows) (faults : Faults) (clean : faults.LeaveNothing)
      (new : List Row) (txn : TxnNumber) (ok : ((h.db.withFaults faults).transact ⟨new, []⟩).result = .ok txn) :
      Loads (h.step (.transact faults clean ⟨new, []⟩)) (rows ++ new)
  | reopen {h : History} {rows : List Row} (loads : Loads h rows) (faults : Faults) :
      Loads (h.step (.reopen faults)) rows

theorem Loads.sound {h : History} {rows : List Row} (hloads : h.Loads rows) : Sound h := by
  induction hloads with
  | start durable => exact sound_start durable
  | commit loads faults clean new txn ok ih => exact ih.step _
  | reopen loads faults ih => exact ih.step _

/-- **A transaction of rows stocks them**, and enters no literals but theirs. -/
theorem Sound.stocks_commit {h : History} (hs : Sound h) {rows : List Row}
    (hstocks : Stocks h.db.store.entries h.facts rows) {faults : Faults} (clean : faults.LeaveNothing) (new : List Row)
    {txn : TxnNumber} (hok : ((h.db.withFaults faults).transact ⟨new, []⟩).result = .ok txn) :
    let h' := h.step (.transact faults clean ⟨new, []⟩)
    Stocks h'.db.store.entries h'.facts (rows ++ new) := by
  intro h'
  have hledger : Ledger h'.db.store.entries h'.facts := (hs.step _).ledger
  obtain ⟨m, henters, hafter⟩ := (h.db.withFaults faults).enters_transact ⟨new, []⟩
  have hnew : ∀ txnSegment, Transaction.rows ⟨new, []⟩ txnSegment = new := fun _ => List.append_nil new
  have hfacts : Transaction.asFacts ⟨new, []⟩ txn = new.map (Fact.ofRow txn) := by
    rw [Transaction.asFacts, hnew]
  have hrows : (new.map (Fact.ofRow txn)).map Fact.row = new := by
    rw [List.map_map]
    exact List.map_id new
  have hstep : h' = _ := attempt_of_ok hok
  rw [hstep] at hledger ⊢
  dsimp only at hledger ⊢
  rw [facts_commit, hfacts] at hledger ⊢
  refine ⟨hledger, ?_, fun id l hl => ?_⟩
  · rw [List.map_append, hrows]
    exact hstocks.perm.append_right new
  · clear hledger
    generalize (h.db.withFaults faults).transact ⟨new, []⟩ = o at hafter hok hl
    obtain ⟨r, db, events⟩ := o
    obtain rfl : r = .ok txn := hok
    obtain ⟨keys, hkeys, hdb⟩ := hafter
    change db.store.entries.get? (slot id) = some l at hl
    rw [hdb, hkeys.get?_slot (henters.settled hs.ledger.settled)] at hl
    rcases henters.new _ _ hl with hold | ⟨-, hmem, -⟩
    · obtain ⟨row, hrow, hl⟩ := hstocks.only id l hold
      exact ⟨row, List.mem_append_left _ hrow, hl⟩
    · obtain ⟨row, hrow, hl⟩ := List.mem_flatMap.1 (Database.registeredBy_subset hmem)
      rw [hnew] at hrow
      exact ⟨row, List.mem_append_right _ hrow, hl⟩

/-- **A store into which rows were written is a store of these rows.** -/
theorem Loads.stocks {h : History} {rows : List Row} (hloads : h.Loads rows) :
    Stocks h.db.store.entries h.facts rows := by
  induction hloads with
  | start durable =>
    refine ⟨(sound_start durable).ledger, .nil, fun id l hl => ?_⟩
    rw [entries_start] at hl
    cases hl
  | commit loads faults clean new txn ok ih => exact loads.sound.stocks_commit ih clean new ok
  | reopen loads faults ih =>
    obtain ⟨-, hkeeps, -⟩ := loads.sound.reopened faults
    rw [History.step, facts_reopened, hkeeps.entries]
    exact ih

/-- **The order in which facts were written does not matter.**  Let the same rows have been written in two histories,
in any orders and each cut into transactions in any way, and let no entity have two rows for an attribute.  Wherever all
reads work, patterns that leave the transaction blank are answered from any seeds on both databases, with the same
bindings, each as often and with its entries in the same order, or on neither.  And both tell the same of every
entity. -/
theorem write_order_is_irrelevant {h h' : History} {rows rows' : List Row} (hloads : h.Loads rows)
    (hloads' : h'.Loads rows') (hperm : rows.Perm rows') (hplaces : (rows.map Row.place).Nodup)
    {faults faults' : Faults} (hworks : faults.ReadsWork) (hworks' : faults'.ReadsWork) {patterns : List Pattern}
    (hblank : ∀ p ∈ patterns, p.element .txn = .blank) (seeds : List Binding) :
    let db := h.db.withFaults faults
    let db' := h'.db.withFaults faults'
    ((∃ answers answers', (db.query patterns seeds).result = .ok answers ∧
        (db'.query patterns seeds).result = .ok answers' ∧ answers.Perm answers') ∨
      ∃ e e', (db.query patterns seeds).result = .error e ∧ (db'.query patterns seeds).result = .error e') ∧
    ∀ id, ∃ attributes, (db.entity id).result = .ok attributes ∧ (db'.entity id).result = .ok attributes := by
  intro db db'
  have hstocks : Stocks db.store.entries h.facts rows := hloads.stocks
  have hstocks' : Stocks db'.store.entries h'.facts rows := hloads'.stocks.of_perm hperm.symm
  have hindex : db.index = .eavto := hloads.sound.index
  have hindex' : db'.index = .eavto := hloads'.sound.index
  constructor
  · rw [Database.query, Database.query, hindex, hindex']
    cases Query.sameAnswers_solve hstocks hstocks' hplaces hblank seeds with
    | answers reads reads' perm =>
      exact .inl ⟨_, _, Database.result_run reads hworks, Database.result_run reads' hworks', perm⟩
    | fail fails fails' =>
      obtain ⟨e, he⟩ := fails
      obtain ⟨e', he'⟩ := fails'
      exact .inr ⟨e, e', Database.result_run he hworks, Database.result_run he' hworks'⟩
  · intro id
    obtain ⟨stored, hfound⟩ := hstocks.ledger.exists_found (Query.askedOf id)
    obtain ⟨stored', hfound'⟩ := hstocks'.ledger.exists_found (Query.askedOf id)
    have hentity := Database.result_entity hindex hworks hstocks.ledger hfound
    have hentity' := Database.result_entity hindex' hworks' hstocks'.ledger hfound'
    rw [← Query.attributes_listing_eq hstocks hstocks' hplaces hfound hfound'] at hentity'
    exact ⟨_, hentity, hentity'⟩

def likesBuckeroo : Row := ⟨"plumless", "likes", "buckeroo", true⟩

/-- Its entity and the one above have the same checksum. -/
def likesTea : Row := ⟨"buckeroo", "likes", "tea", true⟩

/-- Written together, and one after the other in the other order: the two entities get each other's identifiers, and the
answers come in another order. -/
theorem write_order_is_irrelevant_sameChecksum :
    let clean := Faults.leaveNothing_never
    let h := (start false).step (.transact .never clean ⟨[likesBuckeroo, likesTea], []⟩)
    let h' := ((start true).step (.transact .never clean ⟨[likesTea], []⟩)).step
      (.transact .never clean ⟨[likesBuckeroo], []⟩)
    let likes : Pattern := ⟨[.var "?x", .literal (.text "likes"), .var "?y"]⟩
    let r := Binding.ofList [("?x", .text "plumless"), ("?y", .text "buckeroo")]
    let r' := Binding.ofList [("?x", .text "buckeroo"), ("?y", .text "tea")]
    h.Loads [likesBuckeroo, likesTea] ∧ h'.Loads [likesTea, likesBuckeroo] ∧
      [likesBuckeroo, likesTea].Perm [likesTea, likesBuckeroo] ∧
      ([likesBuckeroo, likesTea].map Row.place).Nodup ∧ Faults.never.ReadsWork ∧
      (∀ p ∈ [likes], p.element .txn = .blank) ∧
      ((h.db.withFaults .never).query [likes] [.empty]).result = .ok [r, r'] ∧
      ((h'.db.withFaults .never).query [likes] [.empty]).result = .ok [r', r] ∧ [r, r'].Perm [r', r] ∧
      ∀ id, ∃ attributes, ((h.db.withFaults .never).entity id).result = .ok attributes ∧
        ((h'.db.withFaults .never).entity id).result = .ok attributes := by
  intro clean h h' likes r r'
  have hloads : h.Loads [likesBuckeroo, likesTea] :=
    .commit (.start false) .never clean [likesBuckeroo, likesTea] 1 (by decide +kernel)
  have hfirst : ((start true).step (.transact .never clean ⟨[likesTea], []⟩)).Loads [likesTea] :=
    .commit (.start true) .never clean [likesTea] 1 (by decide +kernel)
  have hloads' : h'.Loads [likesTea, likesBuckeroo] :=
    .commit hfirst .never clean [likesBuckeroo] 2 (by decide +kernel)
  have hperm : [likesBuckeroo, likesTea].Perm [likesTea, likesBuckeroo] := .swap ..
  have hplaces : ([likesBuckeroo, likesTea].map Row.place).Nodup := by decide
  have hblank : ∀ p ∈ [likes], p.element .txn = .blank := by decide
  have hok : ((h.db.withFaults .never).query [likes] [.empty]).result = .ok [r, r'] := by decide +kernel
  have hok' : ((h'.db.withFaults .never).query [likes] [.empty]).result = .ok [r', r] := by decide +kernel
  obtain ⟨hquery, hentity⟩ := write_order_is_irrelevant hloads hloads' hperm hplaces Faults.readsWork_never
    Faults.readsWork_never hblank [.empty]
  refine ⟨hloads, hloads', hperm, hplaces, Faults.readsWork_never, hblank, hok, hok', ?_, hentity⟩
  rcases hquery with ⟨answers, answers', hanswers, hanswers', hsame⟩ | ⟨e, e', herror, -⟩
  · obtain rfl : [r, r'] = answers := Except.ok.inj (hok.symm.trans hanswers)
    obtain rfl : [r', r] = answers' := Except.ok.inj (hok'.symm.trans hanswers')
    exact hsame
  · cases hok.symm.trans herror

end History

end FactBase
