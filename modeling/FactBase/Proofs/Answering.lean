import FactBase.Proofs.Bindings
import FactBase.Proofs.Contending
import FactBase.Proofs.History
import FactBase.Proofs.Scanning
/-!
# Answering — the answers to a pattern as facts

The keys that a scan finds are read as the stored facts of those that agree (`found_of_ledger`).  Where the newest are
asked for, the standing ones are those of the facts that no agreeing fact of their entity and attribute comes after
(`Found.tops_iff`).  Each is an answer with the literals of its fact (`reads_extend`), so the answers to a pattern
are what the committed facts say (`queryOne_answers`).  A commit behind a torn record is answered as well, but only
until the database is opened again (`committed_fact_goes_unanswered`).
-/
namespace FactBase

open Dictionary (slot Settled)
open StoredFact (Tops)

/-- A fact stands for its entity and attribute among the facts that agree with a pattern: none of these is of a later
transaction, and none of its own transaction has a greater key. -/
structure Fact.Stands (m : KeyMap String) (facts : List Fact) (p : Pattern) (f : Fact) : Prop where
  mem : f ∈ facts
  agrees : f.Agrees p
  newest : ∀ g ∈ facts, g.Agrees p → g.entity = f.entity → g.attr = f.attr →
    g.txn < f.txn ∨ g.txn = f.txn ∧ ∀ key key', g.Keyed m key → f.Keyed m key' → key ≤ key'

/-- A binding is extended by the variables of a pattern, with what a fact holds at their places. -/
def Fact.Answers (f : Fact) (p : Pattern) (b r : Binding) : Prop :=
  r.pairs = b.pairs ++ p.openPlaces.map fun place => (place.2, f.values.get place.1)

/-- Stored facts, in the order of their keys, that stand for the facts which agree with a pattern. -/
structure Found (m : KeyMap String) (facts : List Fact) (p : Pattern) (stored : List StoredFact) : Prop where
  sorted : stored.Pairwise (·.key < ·.key)
  sound : ∀ s ∈ stored, ∃ f ∈ facts, s.Holds m f ∧ f.txn ≤ maxTxn ∧ f.Agrees p
  complete : ∀ f ∈ facts, f.Agrees p → ∃ s ∈ stored, s.Holds m f

variable {m : KeyMap String} {facts : List Fact} {p : Pattern}

theorem mapM_decode {P : StoredFact → Prop} : ∀ {keys : List String},
    (∀ key ∈ keys, ∃ s, StoredFact.decode key = .ok s ∧ s.key = key ∧ P s) →
      ∃ stored, keys.mapM StoredFact.decode = .ok stored ∧ stored.map StoredFact.key = keys ∧ ∀ s ∈ stored, P s
  | [], _ => ⟨[], rfl, rfl, fun s hs => by cases hs⟩
  | key :: keys, h => by
    obtain ⟨s, hdecode, hkey, hs⟩ := h key List.mem_cons_self
    obtain ⟨stored, hmapM, hkeys, hall⟩ := mapM_decode fun k hk => h k (List.mem_cons_of_mem _ hk)
    refine ⟨s :: stored, ?_, ?_, fun s' hs' => ?_⟩
    · rw [List.mapM_cons, hdecode, hmapM]
      rfl
    · rw [List.map_cons, hkey, hkeys]
    · rcases List.mem_cons.1 hs' with rfl | hs'
      · exact hs
      · exact hall s' hs'

theorem found_of_keys (h : Ledger m facts) {keys : List String} (hsorted : keys.Pairwise (· < ·))
    (hmem : ∀ key, key ∈ keys ↔ ∃ f ∈ facts, f.Keyed m key ∧ f.Agrees p) :
    ∃ stored, keys.mapM StoredFact.decode = .ok stored ∧ Found m facts p stored := by
  have hdecode : ∀ key ∈ keys, ∃ s, StoredFact.decode key = .ok s ∧ s.key = key ∧
      ∃ f ∈ facts, s.Holds m f ∧ f.txn ≤ maxTxn ∧ f.Agrees p := by
    intro key hkey
    obtain ⟨f, hf, ⟨s, hs, hle, rfl⟩, hagrees⟩ := (hmem key).1 hkey
    exact ⟨s, (hs.isStorable h.settled hle).decode_key, rfl, f, hf, hs, hle, hagrees⟩
  obtain ⟨stored, hmapM, hkeys, hsound⟩ := mapM_decode hdecode
  refine ⟨stored, hmapM, ?_, hsound, fun f hf hagrees => ?_⟩
  · rw [← hkeys] at hsorted
    exact List.pairwise_map.1 hsorted
  · obtain ⟨key, hkeyed, -⟩ := h.stored f hf
    have hkey := (hmem key).2 ⟨f, hf, hkeyed, hagrees⟩
    rw [← hkeys] at hkey
    obtain ⟨s, hs, rfl⟩ := List.mem_map.1 hkey
    obtain ⟨f', -, hholds, hle, -⟩ := hsound s hs
    obtain rfl := hkeyed.inj ⟨s, hholds, hle, rfl⟩ h.settled
    exact ⟨s, hs, hholds⟩

/-- **What a goal finds over a ledger.** -/
theorem found_of_ledger (h : Ledger m facts) {g : Goal}
    (hg : ∀ pos, Goal.Resolves m pos (p.element pos) (g.get pos)) :
    ∃ stored, ((m.keysIn (ScanPlan.ofGoal .eavto g).range).filter (ScanPlan.ofGoal .eavto g).accepts).mapM
      StoredFact.decode = .ok stored ∧ Found m facts p stored :=
  found_of_keys h ((m.pairwise_keysIn _).filter _) fun _ => ScanPlan.mem_found h hg

theorem Ledger.exists_found (h : Ledger m facts) (p : Pattern) : ∃ stored, Found m facts p stored := by
  classical
  obtain ⟨stored, -, hfound⟩ := found_of_keys (p := p) h
    ((m.pairwise_keysIn (.under (Key.stem Commit.index))).filter fun key =>
      decide (∃ f ∈ facts, f.Keyed m key ∧ f.Agrees p)) fun key => by
    rw [List.mem_filter, decide_eq_true_eq, h.mem_keysIn]
    constructor
    · exact fun hkey => hkey.2
    · rintro ⟨f, hf, hkeyed, hagrees⟩
      exact ⟨⟨f, hf, hkeyed⟩, f, hf, hkeyed, hagrees⟩
  exact ⟨stored, hfound⟩

namespace StoredFact

theorem alike_iff (hm : Settled m) {s s' : StoredFact} {f f' : Fact} (hs : s.Holds m f) (hs' : s'.Holds m f') :
    s.Alike s' ↔ f.entity = f'.entity ∧ f.attr = f'.attr := by
  rw [Alike, hm.eq_iff hs.entity hs'.entity, hm.eq_iff hs.attr hs'.attr]

end StoredFact

/-- **The newest stored facts are those of the facts that stand.** -/
theorem Found.tops_iff {stored : List StoredFact} (h : Found m facts p stored) (hm : Settled m) {s : StoredFact}
    {f : Fact} (hs : s ∈ stored) (hf : f ∈ facts) (hholds : s.Holds m f) :
    Tops stored s ↔ f.Stands m facts p := by
  obtain ⟨f', -, hholds', hle, hagrees⟩ := h.sound s hs
  obtain rfl := hholds.inj hholds'
  constructor
  · rintro ⟨-, htop⟩
    refine ⟨hf, hagrees, fun g hg hgagrees hentity hattr => ?_⟩
    obtain ⟨s', hs', hg'⟩ := h.complete g hg hgagrees
    have hnewer := htop s' hs' ((StoredFact.alike_iff hm hg' hholds).2 ⟨hentity, hattr⟩)
    rw [StoredFact.NoNewer, hg'.txn, hholds.txn] at hnewer
    rcases hnewer with hlt | ⟨heq, hkey⟩
    · exact .inl hlt
    · refine .inr ⟨heq, fun key key' hkeyed hkeyed' => ?_⟩
      have hgle : g.txn ≤ maxTxn := heq ▸ hle
      obtain rfl := hkeyed.unique ⟨s', hg', hgle, rfl⟩ hm
      obtain rfl := hkeyed'.unique ⟨s, hholds, hle, rfl⟩ hm
      exact hkey
  · intro hstands
    refine ⟨hs, fun s' hs' halike => ?_⟩
    obtain ⟨g, hg, hg', hgle, hgagrees⟩ := h.sound s' hs'
    obtain ⟨hentity, hattr⟩ := (StoredFact.alike_iff hm hg' hholds).1 halike
    rw [StoredFact.NoNewer, hg'.txn, hholds.txn]
    rcases hstands.newest g hg hgagrees hentity hattr with hlt | ⟨heq, hkey⟩
    · exact .inl hlt
    · exact .inr ⟨heq, hkey _ _ ⟨s', hg', hgle, rfl⟩ ⟨s, hholds, hle, rfl⟩⟩

/-! ## Looking literals up -/

def Cell.value (m : KeyMap String) : Cell → Value
  | .hashed id => .text ((m.get? (slot id)).getD "")
  | .native value => value

/-- A projection with its cells looked up. -/
def Projection.values (m : KeyMap String) (projection : Projection) : List (String × Value) :=
  projection.map fun entry => (entry.1, entry.2.value m)

/-- Every identifier in a projection holds a literal. -/
def Projection.Held (m : KeyMap String) (projection : Projection) : Prop :=
  ∀ name id, (name, Cell.hashed id) ∈ projection → (m.get? (slot id)).isSome = true

namespace Query

theorem reads_literals : ∀ {projection : Projection}, projection.Held m →
    (literals projection).Reads m (.ok (projection.values m))
  | [], _ => .pure _
  | (_, .native _) :: _, h =>
    .bind (reads_literals fun n id hid => h n id (List.mem_cons_of_mem _ hid)) (.pure _)
  | (name, .hashed id) :: rest, h => by
    obtain ⟨literal, hliteral⟩ := Option.isSome_iff_exists.1 (h name id List.mem_cons_self)
    have hread := (Dictionary.reads_literalOf hliteral).mapError Query.Error.ofReverse
    have hvalues : Projection.values m ((name, .hashed id) :: rest) =
        (name, .text literal) :: Projection.values m rest := by
      rw [Projection.values, List.map_cons, Cell.value, hliteral]
      rfl
    rw [hvalues]
    exact .bind hread (.bind (reads_literals fun n id hid => h n id (List.mem_cons_of_mem _ hid)) (.pure _))

/-- **Extending looks up every literal**: each projection gives one binding. -/
theorem reads_extend (b : Binding) : ∀ {projections : List Projection},
    (∀ projection ∈ projections, projection.Held m) →
      (extend b projections).Reads m (.ok (projections.map fun projection => b.merge (.ofList (projection.values m))))
  | [], _ => .pure _
  | projection :: _, h =>
    .bind (reads_literals (h projection List.mem_cons_self))
      (.bind (reads_extend b fun q hq => h q (List.mem_cons_of_mem _ hq)) (.pure _))

end Query

namespace Projection

variable {g : Goal} {s : StoredFact} {f : Fact}

theorem value_cell (hs : s.Holds m f) (pos : Position) : (cell s pos).value m = f.values.get pos := by
  cases pos with
  | entity => rw [cell, Cell.value, hs.entity]; rfl
  | attr => rw [cell, Cell.value, hs.attr]; rfl
  | value => rw [cell, Cell.value, hs.value]; rfl
  | txn => rw [cell, Cell.value, hs.txn]; rfl
  | operation => rw [cell, Cell.value, hs.operation]; rfl

theorem held_project (hs : s.Holds m f) : (project g s).Held m := by
  intro name id hid
  obtain ⟨⟨pos, n⟩, -, hcell⟩ := List.mem_map.1 hid
  obtain ⟨-, hcell⟩ := Prod.mk.inj hcell
  cases pos with
  | entity => obtain rfl := Cell.hashed.inj hcell; rw [hs.entity]; rfl
  | attr => obtain rfl := Cell.hashed.inj hcell; rw [hs.attr]; rfl
  | value => obtain rfl := Cell.hashed.inj hcell; rw [hs.value]; rfl
  | txn => cases hcell
  | operation => cases hcell

/-- **A projection stands for what the fact holds at the open places.** -/
theorem values_project (hs : s.Holds m f) :
    (project g s).values m = g.openPlaces.map fun place => (place.2, f.values.get place.1) := by
  rw [values, project, List.map_map]
  refine List.map_congr_left fun place _ => ?_
  rw [Function.comp_apply, value_cell hs]

end Projection

theorem Goal.openPlaces_eq {g : Goal} (hg : ∀ pos, Goal.Resolves m pos (p.element pos) (g.get pos)) :
    g.openPlaces = p.openPlaces := by
  unfold Goal.openPlaces Pattern.openPlaces
  congr 1
  funext pos
  have hterm := hg pos
  generalize g.get pos = t at hterm
  generalize p.element pos = e at hterm
  cases hterm with
  | blank => rfl
  | var name => rfl
  | literal hdenotes => rfl

theorem Goal.wantsNewest_iff {g : Goal} (hg : ∀ pos, Goal.Resolves m pos (p.element pos) (g.get pos)) :
    g.wantsNewest = true ↔ p.element .txn = .blank := by
  have hterm : Goal.Resolves m .txn (p.element .txn) g.txn := hg .txn
  unfold Goal.wantsNewest
  generalize g.txn = t at hterm
  generalize p.element .txn = e at hterm
  cases hterm with
  | blank => simp [Term.isBlank]
  | var name => simp [Term.isBlank]
  | literal hdenotes => simp [Term.isBlank]

/-- The facts that count for the answers to a pattern: those that agree, or of these the ones that stand where the
transaction is left blank. -/
def Fact.Counts (m : KeyMap String) (facts : List Fact) (p : Pattern) (f : Fact) : Prop :=
  if p.element .txn = .blank then f.Stands m facts p else f ∈ facts ∧ f.Agrees p

theorem Fact.counts_of_blank (h : p.element .txn = .blank) {f : Fact} :
    f.Counts m facts p ↔ f.Stands m facts p := by
  rw [Fact.Counts, if_pos h]

theorem Fact.counts_of_open (h : p.element .txn ≠ .blank) {f : Fact} :
    f.Counts m facts p ↔ f ∈ facts ∧ f.Agrees p := by
  rw [Fact.Counts, if_neg h]

/-- **The standing facts are those of the facts that count.** -/
theorem Found.mem_standing {stored : List StoredFact} (h : Found m facts p stored) (hm : Settled m) {g : Goal}
    (hg : ∀ pos, Goal.Resolves m pos (p.element pos) (g.get pos)) {s : StoredFact} :
    s ∈ Projection.standing g.wantsNewest stored ↔ s ∈ stored ∧ ∃ f : Fact, s.Holds m f ∧ f.Counts m facts p := by
  by_cases hblank : p.element .txn = .blank
  · rw [(Goal.wantsNewest_iff hg).2 hblank, Projection.mem_standing h.sorted]
    simp only [Fact.counts_of_blank hblank]
    constructor
    · intro htops
      obtain ⟨f, hf, hholds, -⟩ := h.sound s htops.1
      exact ⟨htops.1, f, hholds, (h.tops_iff hm htops.1 hf hholds).1 htops⟩
    · rintro ⟨hs, f, hholds, hstands⟩
      exact (h.tops_iff hm hs hstands.mem hholds).2 hstands
  · have hnewest : g.wantsNewest = false := Bool.eq_false_iff.2 fun hw => hblank ((Goal.wantsNewest_iff hg).1 hw)
    rw [hnewest]
    simp only [Fact.counts_of_open hblank]
    constructor
    · intro hs
      obtain ⟨f, hf, hholds, -, hagrees⟩ := h.sound s hs
      exact ⟨hs, f, hholds, hf, hagrees⟩
    · exact fun hs => hs.1

theorem Fact.Counts.mem {f : Fact} (h : f.Counts m facts p) : f ∈ facts ∧ f.Agrees p := by
  unfold Fact.Counts at h
  split at h
  · exact ⟨h.mem, h.agrees⟩
  · exact h

theorem Binding.eq_of_pairs {b b' : Binding} (h : b.pairs = b'.pairs) : b = b' := by
  obtain ⟨pairs, hpairs⟩ := b
  obtain ⟨pairs', hpairs'⟩ := b'
  obtain rfl : pairs = pairs' := h
  rfl

/-- The variables of a pattern occur once in it and not in the binding. -/
structure Pattern.Fresh (p : Pattern) (b : Binding) : Prop where
  short : p.isTooLong = false
  nodup : p.variableNames.Nodup
  new : ∀ name ∈ p.variableNames, name ∉ b.names

/-- A bound pattern is fresh where no variable is left open twice. -/
theorem Pattern.fresh_bind {p : Pattern} {b : Binding} (hshort : p.isTooLong = false)
    (hvariables : (p.bind b).variableNames.Nodup) : (p.bind b).Fresh b where
  short := (p.isTooLong_bind b).trans hshort
  nodup := hvariables
  new := fun _ hname => Binding.notMem_names (get?_of_mem_variableNames hname)

namespace Query

theorem answers_iff {b r : Binding} (hfresh : p.Fresh b) {g : Goal}
    (hg : ∀ pos, Goal.Resolves m pos (p.element pos) (g.get pos)) {s : StoredFact} {f : Fact} (hs : s.Holds m f) :
    b.merge (.ofList ((Projection.project g s).values m)) = r ↔ f.Answers p b r := by
  have hvalues := Projection.values_project (g := g) hs
  rw [Goal.openPlaces_eq hg] at hvalues
  have hnames : ((Projection.project g s).values m).map (·.1) = p.variableNames := by
    rw [hvalues, List.map_map, ← Pattern.map_openPlaces hfresh.short]
    rfl
  have hmerge := Binding.pairs_merge (b := b) (hnames ▸ hfresh.nodup) (hnames ▸ hfresh.new)
  rw [hvalues] at hmerge ⊢
  constructor
  · rintro rfl
    exact hmerge
  · intro hanswers
    exact Binding.eq_of_pairs (hmerge.trans hanswers.symm)

/-- **A goal is answered** as soon as the keys found are read and the identifiers that stand are held. -/
theorem reads_answerGoal_of_stored {index : IndexOrder} {g : Goal} {stored : List StoredFact} (b : Binding)
    (hmapM : ((m.keysIn (ScanPlan.ofGoal index g).range).filter (ScanPlan.ofGoal index g).accepts).mapM
      StoredFact.decode = .ok stored)
    (hheld : ∀ s ∈ Projection.standing g.wantsNewest stored, (Projection.project g s).Held m) :
    (answerGoal index g b).Reads m (.ok
      (((Projection.standing g.wantsNewest stored).map (Projection.project g)).eraseDups.map fun projection =>
        b.merge (.ofList (projection.values m)))) := by
  have hscan := (ScanPlan.reads_keys m (ScanPlan.ofGoal index g)).mapError Query.Error.store
  generalize (m.keysIn (ScanPlan.ofGoal index g).range).filter (ScanPlan.ofGoal index g).accepts = keys at *
  have hofKeys : Projection.ofKeys g keys =
      .ok ((Projection.standing g.wantsNewest stored).map (Projection.project g)).eraseDups := by
    rw [Projection.ofKeys_eq, hmapM]
    rfl
  have hproject : (Run.ofExcept ((Projection.ofKeys g keys).mapError Query.Error.key)).Reads m
      (.ok ((Projection.standing g.wantsNewest stored).map (Projection.project g)).eraseDups) := by
    rw [hofKeys]
    exact .ofExcept _
  refine .bind hscan (.bind hproject (.bind (.tell _) (reads_extend b fun projection hprojection => ?_)))
  obtain ⟨s, hs, rfl⟩ := List.mem_map.1 (List.mem_eraseDups.1 hprojection)
  exact hheld s hs

/-- **The answers to a goal** are those of the facts that count for its pattern. -/
theorem reads_answerGoal (h : Ledger m facts) {b : Binding} (hfresh : p.Fresh b) {g : Goal}
    (hg : ∀ pos, Goal.Resolves m pos (p.element pos) (g.get pos)) :
    ∃ answers, (answerGoal .eavto g b).Reads m (.ok answers) ∧
      ∀ r, r ∈ answers ↔ ∃ f : Fact, f.Counts m facts p ∧ f.Answers p b r := by
  obtain ⟨stored, hmapM, hfound⟩ := found_of_ledger h hg
  have hstanding := fun s => hfound.mem_standing h.settled hg (s := s)
  have hheld : ∀ s ∈ Projection.standing g.wantsNewest stored, (Projection.project g s).Held m := fun s hs => by
    obtain ⟨-, f, hholds, -⟩ := (hstanding s).1 hs
    exact Projection.held_project hholds
  refine ⟨_, reads_answerGoal_of_stored b hmapM hheld, fun r => ?_⟩
  rw [List.mem_map]
  constructor
  · rintro ⟨projection, hprojection, hr⟩
    obtain ⟨s, hs, rfl⟩ := List.mem_map.1 (List.mem_eraseDups.1 hprojection)
    obtain ⟨-, f, hholds, hcounts⟩ := (hstanding s).1 hs
    exact ⟨f, hcounts, (answers_iff hfresh hg hholds).1 hr⟩
  · rintro ⟨f, hcounts, hanswers⟩
    obtain ⟨s, hs, hholds⟩ := hfound.complete f hcounts.mem.1 hcounts.mem.2
    refine ⟨Projection.project g s, List.mem_eraseDups.2 (List.mem_map.2 ⟨s, ?_, rfl⟩), ?_⟩
    · exact (hstanding s).2 ⟨hs, f, hholds, hcounts⟩
    · exact (answers_iff hfresh hg hholds).2 hanswers

/-- **The answers to a pattern under a binding** are those of the facts that count for the bound pattern. -/
theorem reads_answer (h : Ledger m facts) {b : Binding} (hfresh : (p.bind b).Fresh b)
    (htyped : (p.bind b).WellTyped) :
    ∃ answers, (answer .eavto p b).Reads m (.ok answers) ∧
      ∀ r, r ∈ answers ↔ ∃ f : Fact, f.Counts m facts (p.bind b) ∧ f.Answers (p.bind b) b r := by
  rcases Goal.reads_ofPattern h.settled hfresh.short htyped with ⟨g, hread, hg⟩ | ⟨text, hread, hhopeless⟩
  · obtain ⟨answers, hanswers, hmem⟩ := reads_answerGoal h hfresh hg
    exact ⟨answers, .bind hread.outcome hanswers, hmem⟩
  · refine ⟨[], .bind hread.outcome (.bind (.tell _) (.pure _)), fun r => ?_⟩
    constructor
    · intro hr
      cases hr
    · rintro ⟨f, hcounts, -⟩
      obtain ⟨hf, hagrees⟩ := hcounts.mem
      obtain ⟨key, ⟨s, hholds, hle, -⟩, -⟩ := h.stored f hf
      exact absurd hagrees (hhopeless s f hholds hle)

end Query

/-- **Of the agreeing facts of an entity and an attribute exactly one stands.** -/
theorem Ledger.exists_stands (h : Ledger m facts) {f : Fact} (hf : f ∈ facts) (hagrees : f.Agrees p) :
    ∃ g : Fact, (g.Stands m facts p ∧ g.entity = f.entity ∧ g.attr = f.attr) ∧
      ∀ g' : Fact, g'.Stands m facts p → g'.entity = f.entity → g'.attr = f.attr → g' = g := by
  obtain ⟨stored, hfound⟩ := h.exists_found p
  obtain ⟨s, hs, hholds⟩ := hfound.complete f hf hagrees
  obtain ⟨t, ht, halike⟩ := Projection.exists_tops hfound.sorted hs
  obtain ⟨g, hg, hholds', -⟩ := hfound.sound t ht.1
  obtain ⟨hentity, hattr⟩ := (StoredFact.alike_iff h.settled hholds hholds').1 halike
  have hstands := (hfound.tops_iff h.settled ht.1 hg hholds').1 ht
  refine ⟨g, ⟨hstands, hentity.symm, hattr.symm⟩, fun g' hg' hentity' hattr' => ?_⟩
  obtain ⟨t', ht', hholds''⟩ := hfound.complete g' hg'.mem hg'.agrees
  have htops := (hfound.tops_iff h.settled ht' hg'.mem hholds'').2 hg'
  have halike' := (StoredFact.alike_iff h.settled hholds'' hholds').2 ⟨hentity'.trans hentity, hattr'.trans hattr⟩
  obtain rfl := Projection.eq_of_tops hfound.sorted htops ht halike'
  exact hholds''.inj hholds'

theorem Ledger.eq_of_stands (h : Ledger m facts) {f g : Fact} (hf : f.Stands m facts p) (hg : g.Stands m facts p)
    (hentity : f.entity = g.entity) (hattr : f.attr = g.attr) : f = g := by
  obtain ⟨top, -, hunique⟩ := h.exists_stands hg.mem hg.agrees
  rw [hunique f hf hentity hattr, hunique g hg rfl rfl]

namespace History

/-- **Queries answer from the log of facts.**  Let any steps be done, whose failing writes leave nothing in the log
file, and then any transactions, whose failing writes may leave anything.  Where all reads work, a pattern of at most
five elements in which no variable occurs twice is answered under a binding as soon as the literals of the bound pattern
are of the types of their positions.  Where its transaction is not left blank, the answers are the binding extended by
each committed fact that has the pattern's literals.  Where it is left blank, the answers are those of the facts that
stand among these: of each entity and attribute exactly one, of the latest transaction and, of several, with the
greatest key. -/
theorem queryOne_answers (durable : Bool) (steps : List Step) (moves : List (Faults × Transaction)) {faults : Faults}
    (hworks : faults.ReadsWork) {p : Pattern} {b : Binding} (hlength : p.elements.length ≤ Pattern.capacity)
    (hvariables : p.variableNames.Nodup) (htyped : (p.bind b).WellTyped) :
    let h := (run durable steps).attempts moves
    let m := h.db.store.entries
    let q := p.bind b
    ∃ answers, ((h.db.withFaults faults).queryOne p b).result = .ok answers ∧
      (q.element .txn ≠ .blank → ∀ r, r ∈ answers ↔ ∃ f ∈ h.facts, f.Agrees q ∧ f.Answers q b r) ∧
      (q.element .txn = .blank →
        (∀ r, r ∈ answers ↔ ∃ f : Fact, f.Stands m h.facts q ∧ f.Answers q b r) ∧
        ∀ f ∈ h.facts, f.Agrees q → ∃ g : Fact, (g.Stands m h.facts q ∧ g.entity = f.entity ∧ g.attr = f.attr) ∧
          ∀ g' : Fact, g'.Stands m h.facts q → g'.entity = f.entity → g'.attr = f.attr → g' = g) := by
  intro h m q
  have hs : Served h := (sound_run durable steps).toServed.attempts moves
  have hshort : p.isTooLong = false := decide_eq_false (Nat.not_lt.2 hlength)
  have hfresh : q.Fresh b := by
    refine ⟨(p.isTooLong_bind b).trans hshort, hvariables.sublist (p.variableNames_bind b), fun name hname => ?_⟩
    exact Binding.notMem_names (Pattern.get?_of_mem_variableNames hname)
  obtain ⟨answers, hreads, hmem⟩ := Query.reads_answer hs.ledger hfresh htyped
  refine ⟨answers, ?_, fun hopen r => ?_, fun hblank => ⟨fun r => ?_, fun f hf hagrees => ?_⟩⟩
  · have hlengths : Query.checkLengths [p] = .ok () := by
      simp [Query.checkLengths, hshort]
    have hsolve : (Query.solveOne .eavto p b).Reads m (.ok answers) := by
      unfold Query.solveOne
      rw [hlengths]
      exact .bind (.ofExcept _) hreads
    have hindex : (h.db.withFaults faults).index = .eavto := hs.index
    rw [Database.queryOne, hindex]
    exact Database.result_run hsolve hworks
  · refine (hmem r).trans (exists_congr fun f => ?_)
    exact (and_congr_left' (Fact.counts_of_open hopen)).trans and_assoc
  · refine (hmem r).trans (exists_congr fun f => ?_)
    exact and_congr_left' (Fact.counts_of_blank hblank)
  · exact hs.ledger.exists_stands hf hagrees

/-- One commit, with metadata. -/
def firstCommit : List Step :=
  [.transact .never Faults.leaveNothing_never ⟨[⟨"0001", "name", "bob", true⟩], [("by", "ann")]⟩]

def attributesPattern : Pattern := ⟨[.literal (.text "0001"), .var "?a", .var "?v"]⟩

theorem queryOne_answers_firstCommit :
    (run false firstCommit).facts = [⟨"0001", "name", "bob", 1, true⟩, ⟨"000001", "by", "ann", 1, true⟩] ∧
    Faults.never.ReadsWork ∧ attributesPattern.elements.length ≤ Pattern.capacity ∧
    attributesPattern.variableNames.Nodup ∧ (attributesPattern.bind .empty).WellTyped ∧
    ∃ answers, (((run false firstCommit).db.withFaults .never).queryOne attributesPattern .empty).result = .ok answers ∧
      ∀ r, r ∈ answers ↔ ∃ f : Fact, f.Stands (run false firstCommit).db.store.entries (run false firstCommit).facts
        (attributesPattern.bind .empty) ∧ f.Answers (attributesPattern.bind .empty) .empty r := by
  have hfacts : (run false firstCommit).facts =
      [⟨"0001", "name", "bob", 1, true⟩, ⟨"000001", "by", "ann", 1, true⟩] := by decide +kernel
  have hlength : attributesPattern.elements.length ≤ Pattern.capacity := by decide
  have hvariables : attributesPattern.variableNames.Nodup := by decide
  have htyped : (attributesPattern.bind .empty).WellTyped := by decide
  have hblank : (attributesPattern.bind .empty).element .txn = .blank := rfl
  obtain ⟨answers, hresult, -, hnewest⟩ :=
    queryOne_answers false firstCommit [] Faults.readsWork_never (b := .empty) hlength hvariables htyped
  rw [attempts_nil] at hresult hnewest
  exact ⟨hfacts, Faults.readsWork_never, hlength, hvariables, htyped, answers, hresult, (hnewest hblank).1⟩

/-- A name is committed.  Taking it back fails, and tears the log file.  Another name is committed behind the torn
record. -/
def torn : History :=
  let tearing : Faults := { Faults.never with write := fun _ => some (5, .io "disk full") }
  (start true).attempts
    [(.never, ⟨[⟨"0001", "name", "bob", true⟩], []⟩), (tearing, ⟨[⟨"0001", "name", "bob", false⟩], []⟩),
      (.never, ⟨[⟨"0001", "name", "eve", true⟩], []⟩)]

/-- **A committed fact goes unanswered** when the torn log file is opened again, although it was answered before. -/
theorem committed_fact_goes_unanswered :
    let h := torn.reopened .never
    let p : Pattern := ⟨[.literal (.text "0001"), .literal (.text "name"), .var "?v", .literal (.integer 2)]⟩
    let f : Fact := ⟨"0001", "name", "eve", 2, true⟩
    let r := Binding.ofList [("?v", .text "eve")]
    p.elements.length ≤ Pattern.capacity ∧ p.variableNames.Nodup ∧ (p.bind .empty).WellTyped ∧
      h.facts = [⟨"0001", "name", "bob", 1, true⟩, f] ∧ f.Agrees (p.bind .empty) ∧
      f.Answers (p.bind .empty) .empty r ∧
      ((torn.db.withFaults .never).queryOne p .empty).result = .ok [r] ∧
      ((h.db.withFaults .never).queryOne p .empty).result = .ok [] := by
  intro h p f r
  have hfacts : h.facts = [⟨"0001", "name", "bob", 1, true⟩, f] := by decide +kernel
  have hagrees : f.Agrees (p.bind .empty) := by
    intro pos v hliteral
    cases pos <;> cases hliteral <;> rfl
  have hbefore : ((torn.db.withFaults .never).queryOne p .empty).result = .ok [r] := by decide +kernel
  have hafter : ((h.db.withFaults .never).queryOne p .empty).result = .ok [] := by decide +kernel
  exact ⟨by decide, by decide, by decide, hfacts, hagrees, rfl, hbefore, hafter⟩

end History
end FactBase
