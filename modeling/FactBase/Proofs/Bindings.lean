import FactBase.Pattern
import Mathlib.Data.List.GetD
import Mathlib.Data.List.Nodup
/-!
# Bindings — the variables of a pattern, and extending a binding by them

A binding that gets new names gets them at its end (`pairs_merge`).  The variables that a bound pattern still has are
variables of the pattern, and new to the binding (`notMem_names`).
-/
namespace FactBase

namespace Binding

def names (b : Binding) : List String := b.pairs.map (·.1)

theorem bindName_of_notMem {name : String} {value : Value} : ∀ {ps : List (String × Value)},
    name ∉ ps.map (·.1) → bindName name value ps = ps ++ [(name, value)]
  | [], _ => rfl
  | (n, v) :: rest, h => by
    rw [List.map_cons, List.mem_cons, not_or] at h
    rw [bindName, if_neg (Ne.symm h.1), bindName_of_notMem h.2]
    rfl

theorem pairs_foldl_insert : ∀ {pairs : List (String × Value)} {b : Binding}, (pairs.map (·.1)).Nodup →
    (∀ name ∈ pairs.map (·.1), name ∉ b.names) →
      (pairs.foldl (fun b p => b.insert p.1 p.2) b).pairs = b.pairs ++ pairs
  | [], b, _, _ => (List.append_nil _).symm
  | (name, value) :: pairs, b, hnodup, hnew => by
    rw [List.map_cons, List.nodup_cons] at hnodup
    have hinsert : (b.insert name value).pairs = b.pairs ++ [(name, value)] :=
      bindName_of_notMem (hnew name List.mem_cons_self)
    have hnew' : ∀ other ∈ pairs.map (·.1), other ∉ (b.insert name value).names := by
      intro other hother
      rw [names, hinsert, List.map_append, List.mem_append, not_or]
      refine ⟨hnew other (List.mem_cons_of_mem _ hother), fun heq => hnodup.1 ?_⟩
      obtain rfl := List.mem_singleton.1 heq
      exact hother
    rw [List.foldl_cons, pairs_foldl_insert hnodup.2 hnew', hinsert, List.append_assoc]
    rfl

/-- **Merging new names puts them behind the old ones.** -/
theorem pairs_merge {b : Binding} {pairs : List (String × Value)} (hnodup : (pairs.map (·.1)).Nodup)
    (hnew : ∀ name ∈ pairs.map (·.1), name ∉ b.names) : (b.merge (.ofList pairs)).pairs = b.pairs ++ pairs := by
  have hlist : (ofList pairs).pairs = pairs := pairs_foldl_insert hnodup fun _ _ h => by cases h
  rw [merge, hlist]
  exact pairs_foldl_insert hnodup hnew

theorem notMem_names {b : Binding} {name : String} (h : b.get? name = none) : name ∉ b.names := by
  intro hmem
  obtain ⟨pair, hpair, rfl⟩ := List.mem_map.1 hmem
  rw [get?, Option.map_eq_none_iff, List.find?_eq_none] at h
  exact h pair hpair (beq_self_eq_true _)

theorem mem_of_find? {pairs : List (String × Value)} {name : String} {value : Value}
    (h : (pairs.find? (·.1 == name)).map (·.2) = some value) : (name, value) ∈ pairs := by
  obtain ⟨pair, hpair, rfl⟩ := Option.map_eq_some_iff.1 h
  have hname : pair.1 = name := by simpa using List.find?_some hpair
  exact hname ▸ List.mem_of_find?_eq_some hpair

/-- **A binding is read through its pairs.** -/
theorem get?_eq_some_iff {b : Binding} {name : String} {value : Value} :
    b.get? name = some value ↔ (name, value) ∈ b.pairs := by
  refine ⟨mem_of_find?, fun hmem => ?_⟩
  cases hget : b.get? name with
  | none => exact absurd (List.mem_map.2 ⟨_, hmem, rfl⟩) (notMem_names hget)
  | some value' =>
    have hpair := List.inj_on_of_nodup_map b.names_nodup (mem_of_find? hget) hmem rfl
    exact congrArg some (Prod.mk.inj hpair).2

/-- Of several pairs for a name the last one stands. -/
theorem get?_foldl_insert (name : String) : ∀ (pairs : List (String × Value)) (b : Binding),
    (pairs.foldl (fun b p => b.insert p.1 p.2) b).get? name =
      ((pairs.reverse.find? (·.1 == name)).map (·.2)).or (b.get? name)
  | [], b => rfl
  | (n, value) :: pairs, b => by
    rw [List.foldl_cons, get?_foldl_insert name pairs, get?_insert, List.reverse_cons, List.find?_append]
    cases pairs.reverse.find? (·.1 == name) with
    | some pair => rfl
    | none => by_cases hn : n = name <;> simp [hn]

/-- **Merging replaces the names that are merged in, and no others.** -/
theorem get?_merge (b other : Binding) (name : String) :
    (b.merge other).get? name = (other.get? name).or (b.get? name) := by
  rw [merge, get?_foldl_insert]
  congr 1
  cases hget : other.get? name with
  | some value =>
    obtain ⟨pair, hpair⟩ := Option.isSome_iff_exists.1 (List.find?_isSome (p := (·.1 == name)).2
      ⟨_, List.mem_reverse.2 (get?_eq_some_iff.1 hget), beq_self_eq_true name⟩)
    have hlast := mem_of_find? (congrArg (Option.map (·.2)) hpair)
    rw [hpair, Option.map_some, ← hget]
    exact (get?_eq_some_iff.2 (List.mem_reverse.1 hlast)).symm
  | none =>
    rw [Option.map_eq_none_iff, List.find?_eq_none]
    intro pair hpair hname
    refine notMem_names hget (List.mem_map.2 ⟨pair, List.mem_reverse.1 hpair, ?_⟩)
    exact beq_iff_eq.1 hname

theorem get?_ofList (pairs : List (String × Value)) (name : String) :
    (ofList pairs).get? name = (pairs.reverse.find? (·.1 == name)).map (·.2) := by
  rw [ofList, get?_foldl_insert]
  exact Option.or_none

theorem get?_ofList_of_notMem {pairs : List (String × Value)} {name : String} (h : name ∉ pairs.map (·.1)) :
    (ofList pairs).get? name = none := by
  rw [get?_ofList, Option.map_eq_none_iff, List.find?_eq_none]
  intro pair hpair hname
  exact h (List.mem_map.2 ⟨pair, List.mem_reverse.1 hpair, beq_iff_eq.1 hname⟩)

theorem get?_ofList_of_mem {pairs : List (String × Value)} {name : String} (h : name ∈ pairs.map (·.1)) :
    ∃ value, (name, value) ∈ pairs ∧ (ofList pairs).get? name = some value := by
  cases hget : (ofList pairs).get? name with
  | some value =>
    rw [get?_ofList] at hget
    exact ⟨value, List.mem_reverse.1 (mem_of_find? hget), rfl⟩
  | none =>
    rw [get?_ofList, Option.map_eq_none_iff, List.find?_eq_none] at hget
    obtain ⟨pair, hpair, rfl⟩ := List.mem_map.1 h
    exact absurd (beq_self_eq_true _) (hget pair (List.mem_reverse.2 hpair))

end Binding

namespace Element

variable {e : Element} {b : Binding} {name : String} {v : Value}

theorem bind_eq_blank_iff : e.bind b = .blank ↔ e = .blank := by
  cases e with
  | blank => exact ⟨fun _ => rfl, fun _ => rfl⟩
  | literal w => exact ⟨fun h => (by cases h), fun h => (by cases h)⟩
  | var n =>
    rw [bind]
    split <;> exact ⟨fun h => (by cases h), fun h => (by cases h)⟩

/-- What is still open after binding was open before, and is not bound. -/
theorem bind_eq_var_iff : e.bind b = .var name ↔ e = .var name ∧ b.get? name = none := by
  cases e with
  | blank => exact ⟨fun h => (by cases h), fun h => (by cases h.1)⟩
  | literal w => exact ⟨fun h => (by cases h), fun h => (by cases h.1)⟩
  | var n =>
    rw [bind]
    constructor
    · intro h
      split at h
      · cases h
      · rename_i hnone
        obtain rfl := Element.var.inj h
        exact ⟨rfl, hnone⟩
    · rintro ⟨hvar, hnone⟩
      obtain rfl := Element.var.inj hvar
      rw [hnone]

/-- The literals after binding are those from before and the values of bound variables. -/
theorem bind_eq_literal_iff :
    e.bind b = .literal v ↔ e = .literal v ∨ ∃ name, e = .var name ∧ b.get? name = some v := by
  cases e with
  | blank => exact ⟨fun h => (by cases h), fun h => (by rcases h with h | ⟨n, h, -⟩ <;> cases h)⟩
  | literal w =>
    refine ⟨fun h => .inl h, fun h => ?_⟩
    rcases h with h | ⟨n, h, -⟩
    · exact h
    · cases h
  | var n =>
    rw [bind]
    constructor
    · intro h
      split at h
      · rename_i w hw
        obtain rfl := Element.literal.inj h
        exact .inr ⟨n, rfl, hw⟩
      · cases h
    · rintro (h | ⟨name, hvar, hv⟩)
      · cases h
      · obtain rfl := Element.var.inj hvar
        rw [hv]

end Element

namespace Pattern

def variableNames (p : Pattern) : List String := p.elements.filterMap Element.variableName?

def openPlaces (p : Pattern) : List (Position × String) :=
  Position.all.filterMap fun pos => (p.element pos).variableName?.map (pos, ·)

/-- **The open places of a pattern that is not too long are those of all its variables.** -/
theorem map_openPlaces {p : Pattern} (h : p.isTooLong = false) : p.openPlaces.map (·.2) = p.variableNames := by
  obtain ⟨elements⟩ := p
  have hlength : elements.length ≤ 5 := Nat.not_lt.1 (of_decide_eq_false h)
  have hmap : (openPlaces ⟨elements⟩).map (·.2) =
      (Position.all.map fun pos => elements.getD pos.index .blank).filterMap Element.variableName? := by
    rw [openPlaces, List.map_filterMap, List.filterMap_map]
    congr 1
    funext pos
    rw [Option.map_map]
    exact Option.map_id'
  have hpad : (Position.all.map fun pos => elements.getD pos.index .blank) =
      elements ++ List.replicate (5 - elements.length) .blank := by
    match elements, hlength with
    | [], _ => rfl
    | [_], _ => rfl
    | [_, _], _ => rfl
    | [_, _, _], _ => rfl
    | [_, _, _, _], _ => rfl
    | [_, _, _, _, _], _ => rfl
  rw [hmap, hpad, List.filterMap_append, List.filterMap_replicate_of_none rfl, List.append_nil]
  rfl

theorem element_bind (p : Pattern) (b : Binding) (pos : Position) :
    (p.bind b).element pos = (p.element pos).bind b :=
  List.getD_map p.elements .blank (Element.bind b)

theorem element_bind_eq_var_iff {p : Pattern} {b : Binding} {pos : Position} {name : String} :
    (p.bind b).element pos = .var name ↔ p.element pos = .var name ∧ b.get? name = none := by
  rw [element_bind, Element.bind_eq_var_iff]

theorem element_bind_eq_literal_iff {p : Pattern} {b : Binding} {pos : Position} {v : Value} :
    (p.bind b).element pos = .literal v ↔
      p.element pos = .literal v ∨ ∃ name, p.element pos = .var name ∧ b.get? name = some v := by
  rw [element_bind, Element.bind_eq_literal_iff]

theorem isTooLong_bind (p : Pattern) (b : Binding) : (p.bind b).isTooLong = p.isTooLong := by
  rw [isTooLong, isTooLong, bind, List.length_map]

theorem variableNames_bind (p : Pattern) (b : Binding) : (p.bind b).variableNames.Sublist p.variableNames := by
  obtain ⟨elements⟩ := p
  change (List.filterMap _ (elements.map (Element.bind b))).Sublist (elements.filterMap _)
  induction elements with
  | nil => exact .slnil
  | cons e elements ih =>
    rw [List.map_cons]
    cases e with
    | blank => exact ih
    | literal v => exact ih
    | var name =>
      rw [Element.bind]
      split
      · exact ih.cons name
      · exact ih.cons_cons name

theorem get?_of_mem_variableNames {p : Pattern} {b : Binding} {name : String} (h : name ∈ (p.bind b).variableNames) :
    b.get? name = none := by
  obtain ⟨e', he', hname⟩ := List.mem_filterMap.1 h
  obtain ⟨e, -, rfl⟩ := List.mem_map.1 he'
  cases e with
  | blank => cases hname
  | literal v => cases hname
  | var n =>
    rw [Element.bind] at hname
    split at hname
    · cases hname
    · rename_i hnone
      obtain rfl : n = name := Option.some.inj hname
      exact hnone

end Pattern
end FactBase
