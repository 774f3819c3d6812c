import FactBase.Proofs.Answering
import Mathlib.Data.List.Sort
/-!
# Listing — the answers to a pattern as a list

The stored facts that agree with a pattern are one list, in the order of their keys (`Found.unique`).  The answers are
made from it: of each standing fact what it holds at the open places, and of equal ones the first
(`reads_answer_listing`).  So whatever leaves these facts and their literals alone leaves the answers and their order
alone (`listing_grows`), and where no variable is open twice no answer is given twice (`nodup_listing`).
-/
namespace FactBase

open Dictionary (slot Settled)

theorem length_filter_lt_cons {α : Type} (keep : α → Bool) (a : α) (l : List α) :
    (l.filter keep).length < (a :: l).length := Nat.lt_succ_of_le (List.length_filter_le keep l)

/-- Of a list without its repetitions nothing occurs twice. -/
theorem nodup_eraseDups {α : Type} [BEq α] [LawfulBEq α] : ∀ l : List α, l.eraseDups.Nodup
  | [] => .nil
  | a :: l => by
    rw [List.eraseDups_cons, List.nodup_cons]
    refine ⟨fun hmem => ?_, nodup_eraseDups _⟩
    have hkept := (List.mem_filter.1 (List.mem_eraseDups.1 hmem)).2
    rw [beq_self_eq_true] at hkept
    cases hkept
termination_by l => l.length
decreasing_by exact length_filter_lt_cons _ a l

/-- One more element is kept where it is the first of its kind. -/
theorem eraseDups_append_singleton {α : Type} [BEq α] [LawfulBEq α] (l : List α) (a : α) :
    (l ++ [a]).eraseDups = if a ∈ l then l.eraseDups else l.eraseDups ++ [a] := by
  rw [List.eraseDups_append]
  split
  · rename_i hmem
    simp [List.removeAll, hmem]
  · rename_i hnot
    simp [List.removeAll, hnot, List.eraseDups_cons]

/-- Where all elements are the same one of them is left. -/
theorem eraseDups_of_forall_eq {α : Type} [BEq α] [LawfulBEq α] {l : List α} {a : α} (hne : l ≠ [])
    (hall : ∀ x ∈ l, x = a) : l.eraseDups = [a] := by
  obtain ⟨x, rest, rfl⟩ := List.exists_cons_of_ne_nil hne
  obtain rfl := hall x List.mem_cons_self
  have hrest : (rest.filter fun y => !y == x) = [] := List.filter_eq_nil_iff.2 fun y hy => by
    rw [hall y (List.mem_cons_of_mem _ hy), beq_self_eq_true, Bool.not_true]
    exact Bool.false_ne_true
  rw [List.eraseDups_cons, hrest, List.eraseDups_nil]

/-! ## The list of stored facts -/

variable {m : KeyMap String} {facts : List Fact} {q : Pattern} {stored stored' : List StoredFact}

/-- **The stored facts that agree with a pattern are one list.** -/
theorem Found.unique (h : Found m facts q stored) (h' : Found m facts q stored') (hm : Settled m) :
    stored = stored' := by
  have hsub : ∀ {xs ys : List StoredFact}, Found m facts q xs → Found m facts q ys → ∀ s ∈ xs, s ∈ ys := by
    intro xs ys hxs hys s hs
    obtain ⟨f, hf, hholds, -, hagrees⟩ := hxs.sound s hs
    obtain ⟨s', hs', hholds'⟩ := hys.complete f hf hagrees
    rwa [hholds.unique hholds' hm]
  have : Std.Irrefl fun s s' : StoredFact => s.key < s'.key := ⟨fun s => String.lt_irrefl s.key⟩
  have : Std.Antisymm fun s s' : StoredFact => s.key < s'.key :=
    ⟨fun s s' hlt hlt' => absurd (String.lt_trans hlt hlt') (String.lt_irrefl s.key)⟩
  exact h.sorted.eq_of_mem_iff h'.sorted fun s => ⟨hsub h h' s, hsub h' h s⟩

/-- Where no stored fact has the literals of the pattern, none is found. -/
theorem Found.of_hopeless (h : Ledger m facts) (hhopeless : Goal.Hopeless m q) : Found m facts q [] where
  sorted := .nil
  sound := fun s hs => by cases hs
  complete := fun f hf hagrees => by
    obtain ⟨key, ⟨s, hholds, hle, -⟩, -⟩ := h.stored f hf
    exact absurd hagrees (hhopeless s f hholds hle)

/-- **Facts that do not agree with a pattern are not found**, and what was found of the others still is. -/
theorem Found.grows {m' : KeyMap String} {new : List Fact} (h : Found m facts q stored) (hgrows : m.Grows m')
    (hnew : ∀ f ∈ new, ¬f.Agrees q) : Found m' (facts ++ new) q stored where
  sorted := h.sorted
  sound := fun s hs => by
    obtain ⟨f, hf, hholds, hle, hagrees⟩ := h.sound s hs
    exact ⟨f, List.mem_append_left _ hf, hholds.mono hgrows, hle, hagrees⟩
  complete := fun f hf hagrees => by
    rcases List.mem_append.1 hf with hf | hf
    · obtain ⟨s, hs, hholds⟩ := h.complete f hf hagrees
      exact ⟨s, hs, hholds.mono hgrows⟩
    · exact absurd hagrees (hnew f hf)

/-! ## The list of answers -/

namespace Pattern

/-- What a fact holds at the open places of a pattern. -/
def view (q : Pattern) (f : Fact) : List (String × Value) :=
  q.openPlaces.map fun place => (place.2, f.values.get place.1)

/-- The answer that a fact gives: the binding, with what the fact holds at the open places. -/
def answerOf (q : Pattern) (b : Binding) (f : Fact) : Binding := b.merge (.ofList (q.view f))

def project (q : Pattern) (s : StoredFact) : Projection :=
  q.openPlaces.map fun place => (place.2, Projection.cell s place.1)

theorem mem_openPlaces {pos : Position} {name : String} :
    (pos, name) ∈ q.openPlaces ↔ q.element pos = .var name := by
  rw [openPlaces, List.mem_filterMap]
  constructor
  · rintro ⟨pos', -, hplace⟩
    obtain ⟨n, hn, hplace⟩ := Option.map_eq_some_iff.1 hplace
    obtain ⟨rfl, rfl⟩ := Prod.mk.inj hplace
    cases helement : q.element pos' <;> rw [helement] at hn <;> cases hn
    rfl
  · intro helement
    exact ⟨pos, Position.mem_all pos, by rw [helement]; rfl⟩

theorem map_fst_view (hshort : q.isTooLong = false) (f : Fact) : (q.view f).map (·.1) = q.variableNames := by
  rw [view, List.map_map, ← map_openPlaces hshort]
  rfl

/-- New names come behind the binding. -/
theorem pairs_answerOf {b : Binding} (hfresh : q.Fresh b) (f : Fact) :
    (q.answerOf b f).pairs = b.pairs ++ q.view f := by
  have hnames := q.map_fst_view hfresh.short f
  exact Binding.pairs_merge (hnames ▸ hfresh.nodup) (hnames ▸ hfresh.new)

theorem project_eq {g : Goal} (hg : ∀ pos, Goal.Resolves m pos (q.element pos) (g.get pos)) :
    Projection.project g = q.project := by
  funext s
  rw [Projection.project, Goal.openPlaces_eq hg]
  rfl

/-- **A projection stands for what the fact holds at the open places.** -/
theorem values_project {s : StoredFact} {f : Fact} (hs : s.Holds m f) : (q.project s).values m = q.view f := by
  rw [Projection.values, project, List.map_map]
  refine List.map_congr_left fun place _ => ?_
  rw [Function.comp_apply, Projection.value_cell hs]

end Pattern

namespace Query

/-- The answers to a bound pattern, given the stored facts that agree with it. -/
def listing (m : KeyMap String) (q : Pattern) (b : Binding) (stored : List StoredFact) : List Binding :=
  ((Projection.standing (decide (q.element .txn = .blank)) stored).map q.project).eraseDups.map fun projection =>
    b.merge (.ofList (projection.values m))

/-- **The answers to a pattern under a binding, in their order.** -/
theorem reads_answer_listing (h : Ledger m facts) {p : Pattern} {b : Binding} (hshort : p.isTooLong = false)
    (htyped : (p.bind b).WellTyped) (hfound : Found m facts (p.bind b) stored) :
    (answer .eavto p b).Reads m (.ok (listing m (p.bind b) b stored)) := by
  rcases Goal.reads_ofPattern h.settled ((p.isTooLong_bind b).trans hshort) htyped with
    ⟨g, hread, hg⟩ | ⟨text, hread, hhopeless⟩
  · obtain ⟨found, hmapM, hfound'⟩ := found_of_ledger h hg
    obtain rfl := hfound.unique hfound' h.settled
    have hheld : ∀ s ∈ Projection.standing g.wantsNewest stored, (Projection.project g s).Held m := fun s hs => by
      obtain ⟨-, f, hholds, -⟩ := (hfound.mem_standing h.settled hg).1 hs
      exact Projection.held_project hholds
    have hnewest : g.wantsNewest = decide ((p.bind b).element .txn = .blank) :=
      Bool.eq_iff_iff.2 ((Goal.wantsNewest_iff hg).trans (decide_eq_true_iff).symm)
    have hanswers := reads_answerGoal_of_stored b hmapM hheld
    rw [Pattern.project_eq hg, hnewest] at hanswers
    exact .bind hread.outcome hanswers
  · obtain rfl := hfound.unique (.of_hopeless h hhopeless) h.settled
    have hnone : listing m (p.bind b) b [] = [] := by
      unfold listing Projection.standing
      split <;> rfl
    rw [hnone]
    exact .bind hread.outcome (.bind (.tell _) (.pure _))

/-- What the standing facts hold at the open places, each once. -/
def views (m : KeyMap String) (q : Pattern) (stored : List StoredFact) : List (List (String × Value)) :=
  ((Projection.standing (decide (q.element .txn = .blank)) stored).map q.project).eraseDups.map (·.values m)

theorem listing_eq (m : KeyMap String) (q : Pattern) (b : Binding) (stored : List StoredFact) :
    listing m q b stored = (views m q stored).map fun values => b.merge (.ofList values) := by
  rw [views, List.map_map]
  rfl

theorem mem_views (hfound : Found m facts q stored) {values : List (String × Value)} :
    values ∈ views m q stored ↔ ∃ s ∈ Projection.standing (decide (q.element .txn = .blank)) stored,
      ∃ f ∈ facts, s.Holds m f ∧ f.Agrees q ∧ values = q.view f := by
  constructor
  · intro hvalues
    obtain ⟨projection, hprojection, rfl⟩ := List.mem_map.1 hvalues
    obtain ⟨s, hs, rfl⟩ := List.mem_map.1 (List.mem_eraseDups.1 hprojection)
    obtain ⟨f, hf, hholds, -, hagrees⟩ := hfound.sound s (Projection.mem_of_mem_standing hfound.sorted hs)
    exact ⟨s, hs, f, hf, hholds, hagrees, Pattern.values_project hholds⟩
  · rintro ⟨s, hs, f, -, hholds, -, rfl⟩
    rw [← Pattern.values_project hholds]
    exact List.mem_map_of_mem (List.mem_eraseDups.2 (List.mem_map_of_mem hs))

/-- **Each answer is that of a fact.** -/
theorem fact_of_mem_listing (hfound : Found m facts q stored) {b r : Binding} (hr : r ∈ listing m q b stored) :
    ∃ s ∈ stored, ∃ f ∈ facts, s.Holds m f ∧ f.Agrees q ∧ r = q.answerOf b f := by
  rw [listing_eq] at hr
  obtain ⟨values, hvalues, rfl⟩ := List.mem_map.1 hr
  obtain ⟨s, hs, f, hf, hholds, hagrees, rfl⟩ := (mem_views hfound).1 hvalues
  exact ⟨s, Projection.mem_of_mem_standing hfound.sorted hs, f, hf, hholds, hagrees, rfl⟩

/-- **Where the transaction is not left blank, every agreeing fact answers.** -/
theorem mem_listing_of_open (hfound : Found m facts q stored) (hopen : q.element .txn ≠ .blank) {b r : Binding} :
    r ∈ listing m q b stored ↔ ∃ f ∈ facts, f.Agrees q ∧ r = q.answerOf b f := by
  constructor
  · intro hr
    obtain ⟨s, -, f, hf, -, hagrees, heq⟩ := fact_of_mem_listing hfound hr
    exact ⟨f, hf, hagrees, heq⟩
  · rintro ⟨f, hf, hagrees, rfl⟩
    obtain ⟨s, hs, hholds⟩ := hfound.complete f hf hagrees
    rw [listing_eq]
    refine List.mem_map_of_mem ((mem_views hfound).2 ⟨s, ?_, f, hf, hholds, hagrees, rfl⟩)
    rwa [decide_eq_false hopen]

/-- **Where the transaction is left blank, the facts that stand answer.** -/
theorem mem_listing_of_blank (hm : Settled m) (hfound : Found m facts q stored) (hblank : q.element .txn = .blank)
    {b r : Binding} : r ∈ listing m q b stored ↔ ∃ f : Fact, f.Stands m facts q ∧ r = q.answerOf b f := by
  rw [listing_eq, List.mem_map]
  constructor
  · rintro ⟨values, hvalues, rfl⟩
    obtain ⟨s, hs, f, hf, hholds, -, rfl⟩ := (mem_views hfound).1 hvalues
    rw [decide_eq_true hblank, Projection.mem_standing hfound.sorted] at hs
    exact ⟨f, (hfound.tops_iff hm hs.1 hf hholds).1 hs, rfl⟩
  · rintro ⟨f, hstands, rfl⟩
    obtain ⟨s, hs, hholds⟩ := hfound.complete f hstands.mem hstands.agrees
    refine ⟨q.view f, (mem_views hfound).2 ⟨s, ?_, f, hstands.mem, hholds, hstands.agrees, rfl⟩, rfl⟩
    rw [decide_eq_true hblank, Projection.mem_standing hfound.sorted]
    exact (hfound.tops_iff hm hs hstands.mem hholds).2 hstands

/-- **More facts and literals in the store do not change the answers** that the same stored facts give. -/
theorem listing_grows {m' : KeyMap String} (hfound : Found m facts q stored) (hgrows : m.Grows m') (b : Binding) :
    listing m' q b stored = listing m q b stored := by
  refine List.map_congr_left fun projection hprojection => ?_
  obtain ⟨s, hs, rfl⟩ := List.mem_map.1 (List.mem_eraseDups.1 hprojection)
  obtain ⟨f, -, hholds, -⟩ := hfound.sound s (Projection.mem_of_mem_standing hfound.sorted hs)
  rw [Pattern.values_project hholds, Pattern.values_project (hholds.mono hgrows)]

end Query

theorem Projection.cell_eq (hm : Settled m) {s s' : StoredFact} {f f' : Fact} (hs : s.Holds m f) (hs' : s'.Holds m f')
    {pos : Position} (h : f.values.get pos = f'.values.get pos) : cell s pos = cell s' pos := by
  cases pos with
  | entity => exact congrArg Cell.hashed ((hm.eq_iff hs.entity hs'.entity).2 (Value.text.inj h))
  | attr => exact congrArg Cell.hashed ((hm.eq_iff hs.attr hs'.attr).2 (Value.text.inj h))
  | value => exact congrArg Cell.hashed ((hm.eq_iff hs.value hs'.value).2 (Value.text.inj h))
  | txn =>
    exact congrArg Cell.native ((congrArg Value.integer hs.txn).trans (h.trans (congrArg Value.integer hs'.txn.symm)))
  | operation =>
    exact congrArg Cell.native ((congrArg Value.boolean hs.operation).trans
      (h.trans (congrArg Value.boolean hs'.operation.symm)))

theorem Pattern.project_eq_of_view (hm : Settled m) {s s' : StoredFact} {f f' : Fact} (hs : s.Holds m f)
    (hs' : s'.Holds m f') (h : q.view f = q.view f') : q.project s = q.project s' := by
  refine List.map_congr_left fun place hplace => ?_
  have hvalue := (Prod.mk.inj (List.map_inj_left.1 h place hplace)).2
  exact congrArg (Prod.mk place.2) (Projection.cell_eq hm hs hs' hvalue)

namespace Query

theorem nodup_views (hm : Settled m) (hfound : Found m facts q stored) : (views m q stored).Nodup := by
  refine (nodup_eraseDups _).map_on fun x hx y hy heq => ?_
  obtain ⟨s, hs, rfl⟩ := List.mem_map.1 (List.mem_eraseDups.1 hx)
  obtain ⟨s', hs', rfl⟩ := List.mem_map.1 (List.mem_eraseDups.1 hy)
  obtain ⟨f, -, hholds, -⟩ := hfound.sound s (Projection.mem_of_mem_standing hfound.sorted hs)
  obtain ⟨f', -, hholds', -⟩ := hfound.sound s' (Projection.mem_of_mem_standing hfound.sorted hs')
  rw [Pattern.values_project hholds, Pattern.values_project hholds'] at heq
  exact Pattern.project_eq_of_view hm hholds hholds' heq

/-- **Where no variable is open twice, no answer is given twice.** -/
theorem nodup_listing (hm : Settled m) (hfound : Found m facts q stored) {b : Binding} (hfresh : q.Fresh b) :
    (listing m q b stored).Nodup := by
  rw [listing_eq]
  refine (nodup_views hm hfound).map_on fun x hx y hy heq => ?_
  obtain ⟨s, -, f, -, -, -, rfl⟩ := (mem_views hfound).1 hx
  obtain ⟨s', -, f', -, -, -, rfl⟩ := (mem_views hfound).1 hy
  -- both answers begin with the binding, so they are equal only where the facts hold the same at the open places
  have hview : (q.answerOf b f).pairs = (q.answerOf b f').pairs := congrArg Binding.pairs heq
  rw [Pattern.pairs_answerOf hfresh, Pattern.pairs_answerOf hfresh] at hview
  exact List.append_cancel_left hview

end Query
end FactBase
