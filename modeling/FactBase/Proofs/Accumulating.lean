import FactBase.Json.Form
import FactBase.Proofs.Distributing
/-!
# Accumulating — a binding is what its insertions make it

A binding is determined by its names, in their order, and by what they are bound to (`eq_of_names`).  Merging in what a
list of pairs makes is the same as inserting the pairs one by one (`merge_ofList`), repetitions included; the laws of
merging follow.  So whatever has happened to a binding, it is the one that all its insertions make, from the first to
the last (`isWhole_run`).  Main statement: `bindings_are_ordered_maps`.
-/
namespace FactBase

namespace Binding

variable {b b' : Binding} {name : String} {value : Value}

theorem pairs_eq_filterMap (b : Binding) : b.pairs = b.names.filterMap fun name => (b.get? name).map (name, ·) := by
  have hself : ∀ pair ∈ b.pairs, (b.get? pair.1).map (pair.1, ·) = some pair := fun pair hpair => by
    rw [get?_eq_some_iff.2 hpair, Option.map_some]
  rw [names, List.filterMap_map]
  conv => lhs; rw [← List.filterMap_some (l := b.pairs)]
  exact (List.filterMap_congr hself).symm

/-- **Names, in their order, and what they are bound to determine a binding.** -/
theorem eq_of_names (hnames : b.names = b'.names) (hget : ∀ name, b.get? name = b'.get? name) : b = b' := by
  refine eq_of_pairs ?_
  rw [pairs_eq_filterMap b, pairs_eq_filterMap b', hnames]
  simp only [hget]

theorem ofList_pairs (b : Binding) : ofList b.pairs = b := empty_merge b

theorem eraseDups_names (b : Binding) : b.names.eraseDups = b.names := by
  conv => rhs; rw [← ofList_pairs b, names_ofList]
  rfl

theorem merge_eq_ofList (b b' : Binding) : b.merge b' = ofList (b.pairs ++ b'.pairs) := by
  rw [ofList, List.foldl_append]
  change _ = b'.pairs.foldl _ (ofList b.pairs)
  rw [ofList_pairs]
  rfl

/-- **Merging puts the names that are new behind the old ones.** -/
theorem names_merge (b b' : Binding) : (b.merge b').names = (b.names ++ b'.names).eraseDups := by
  rw [merge_eq_ofList, names_ofList, List.map_append]
  rfl

/-- Inserting into a binding before or after it is merged in comes to the same. -/
theorem merge_insert (b b' : Binding) (name : String) (value : Value) :
    b.merge (b'.insert name value) = (b.merge b').insert name value := by
  refine eq_of_names ?_ fun x => ?_
  · rw [names_insert, names_merge, names_merge, names_insert]
    by_cases h : name ∈ b'.names
    · simp [h]
    · rw [if_neg h, ← List.append_assoc, eraseDups_append_singleton]
      simp only [List.mem_eraseDups]
  · rw [get?_insert, get?_merge, get?_merge, get?_insert]
    by_cases h : name = x <;> simp [h]

/-- **Merging in what pairs make is inserting the pairs.** -/
theorem merge_ofList (b : Binding) (pairs : List (String × Value)) :
    b.merge (.ofList pairs) = pairs.foldl (fun b p => b.insert p.1 p.2) b := by
  induction pairs using List.reverseRecOn with
  | nil => rfl
  | append_singleton pairs pair ih =>
    have hlast : ofList (pairs ++ [pair]) = (ofList pairs).insert pair.1 pair.2 := List.foldl_append
    rw [hlast, merge_insert, ih, List.foldl_append]
    rfl

/-! ## The laws of merging -/

theorem merge_assoc (a b c : Binding) : (a.merge b).merge c = a.merge (b.merge c) := by
  rw [merge_eq_ofList b c, merge_ofList, List.foldl_append]
  rfl

theorem merge_self (b : Binding) : b.merge b = b := by
  refine eq_of_names ?_ fun name => ?_
  · have hnone : b.names.removeAll b.names = [] := List.filter_eq_nil_iff.2 fun name hname => by simp [hname]
    rw [names_merge, List.eraseDups_append, hnone, eraseDups_names, List.eraseDups_nil, List.append_nil]
  · rw [get?_merge]
    cases b.get? name <;> rfl

/-! ## What happens to a binding -/

/-- The members of a JSON object, in the order of the text. -/
def members? (text : String) : Option (List (String × Value)) :=
  (Json.tokens text.toList).bind Json.toMembers?

/-- What a binding can go through.  Pairs that are collected and a text that is read make a new one. -/
inductive Operation where
  | insert (name : String) (value : Value)
  | merge (other : Binding)
  | collect (pairs : List (String × Value))
  | read (text : String)

/-- A binding and the insertions that it has seen since it was new, in order. -/
structure Made where
  binding : Binding
  insertions : List (String × Value)

namespace Made

def start : Made := ⟨.empty, []⟩

/-- A merge inserts the pairs of the other binding.  A text that is no object of values makes nothing. -/
def step (x : Made) : Operation → Made
  | .insert name value => ⟨x.binding.insert name value, x.insertions ++ [(name, value)]⟩
  | .merge other => ⟨x.binding.merge other, x.insertions ++ other.pairs⟩
  | .collect pairs => ⟨.ofList pairs, pairs⟩
  | .read text =>
    match Binding.ofJson? text, members? text with
    | some b, some members => ⟨b, members⟩
    | _, _ => x

def run (operations : List Operation) : Made := operations.foldl step start

/-- The binding is the one that its insertions make. -/
def IsWhole (x : Made) : Prop := x.binding = .ofList x.insertions

/-- **Each operation makes of a binding what its insertions make.** -/
theorem IsWhole.step {x : Made} (h : x.IsWhole) (o : Operation) : (x.step o).IsWhole := by
  rw [IsWhole] at h
  cases o with
  | insert name value =>
    change x.binding.insert name value = .ofList (x.insertions ++ [(name, value)])
    rw [h, ofList, ofList, List.foldl_append]
    rfl
  | merge other =>
    change x.binding.merge other = .ofList (x.insertions ++ other.pairs)
    rw [h, ofList, ofList, List.foldl_append]
    rfl
  | collect pairs => rfl
  | read text =>
    rw [Made.step]
    split
    · rename_i b members hb hmembers
      have hread : some b = (members? text).map .ofList := hb.symm
      rw [hmembers] at hread
      exact Option.some.inj hread
    · exact h

theorem isWhole_run (operations : List Operation) : (run operations).IsWhole := by
  induction operations using List.reverseRecOn with
  | nil => rfl
  | append_singleton operations o ih =>
    rw [run, List.foldl_append]
    exact ih.step o

end Made

/-- **A binding is a finite map in the order of first insertion.**  Whatever operations it goes through, each name
stands in it once, the names stand in the order in which they were first inserted, and each is bound to the value that
was inserted under it last.  Merging is associative, the order of the pairs included; merging the empty binding, or
merging into it, changes nothing, nor does merging a binding into itself. -/
theorem bindings_are_ordered_maps :
    (∀ operations, let x := Made.run operations
      x.binding.names.Nodup ∧ x.binding.names = (x.insertions.map (·.1)).eraseDups ∧
        ∀ name, x.binding.get? name = (x.insertions.reverse.find? (·.1 == name)).map (·.2)) ∧
    (∀ a b c : Binding, (a.merge b).merge c = a.merge (b.merge c)) ∧
    ∀ b : Binding, Binding.empty.merge b = b ∧ b.merge .empty = b ∧ b.merge b = b := by
  refine ⟨fun operations => ?_, merge_assoc, fun b => ⟨empty_merge b, rfl, merge_self b⟩⟩
  have hwhole := Made.isWhole_run operations
  generalize Made.run operations = x at hwhole
  have hnames : x.binding.names = (x.insertions.map (·.1)).eraseDups := by rw [hwhole, names_ofList]
  refine ⟨?_, hnames, fun name => ?_⟩
  · rw [hnames]
    exact nodup_eraseDups _
  · rw [hwhole, get?_ofList]

end Binding
end FactBase
