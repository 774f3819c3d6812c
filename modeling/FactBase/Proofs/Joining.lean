/-!
# Joining — lists with one element between each two

What is joined is the first list, and each further one behind its separator (`intercalate_cons`).  So joining appended
lists puts one separator between them, a longer list only adds at the end, and nothing stands in a joined list but the
separator and what stands in its parts.
-/
namespace FactBase

section

variable {α : Type} {sep : α}

theorem intercalate_cons (sep : α) : ∀ (l : List α) (ls : List (List α)),
    [sep].intercalate (l :: ls) = l ++ ls.flatMap (sep :: ·)
  | l, [] => by rw [List.intercalate_singleton, List.flatMap_nil, List.append_nil]
  | l, l' :: ls => by
    rw [List.intercalate_cons_cons, intercalate_cons sep l' ls, List.append_assoc]
    rfl

theorem intercalate_append {ls ls' : List (List α)} (h : ls ≠ []) (h' : ls' ≠ []) :
    [sep].intercalate (ls ++ ls') = [sep].intercalate ls ++ sep :: [sep].intercalate ls' := by
  obtain ⟨l, ls, rfl⟩ := List.exists_cons_of_ne_nil h
  obtain ⟨l', ls', rfl⟩ := List.exists_cons_of_ne_nil h'
  rw [List.cons_append, intercalate_cons, intercalate_cons, intercalate_cons, List.flatMap_append, List.flatMap_cons,
    List.append_assoc, List.cons_append]

theorem intercalate_isPrefix {ls ls' : List (List α)} (h : ls <+: ls') :
    [sep].intercalate ls <+: [sep].intercalate ls' := by
  obtain ⟨more, rfl⟩ := h
  cases ls with
  | nil => exact List.nil_prefix
  | cons l ls =>
    rw [List.cons_append, intercalate_cons, intercalate_cons, List.flatMap_append, ← List.append_assoc]
    exact List.prefix_append ..

theorem mem_intercalate {a : α} {ls : List (List α)} (h : a ∈ [sep].intercalate ls) : a = sep ∨ ∃ l ∈ ls, a ∈ l := by
  cases ls with
  | nil => cases h
  | cons l ls =>
    rw [intercalate_cons, List.mem_append, List.mem_flatMap] at h
    rcases h with h | ⟨l', hl', h⟩
    · exact .inr ⟨l, List.mem_cons_self, h⟩
    · exact (List.mem_cons.1 h).imp_right fun h => ⟨l', List.mem_cons_of_mem _ hl', h⟩

theorem mem_intercalate_of_mem {a : α} {l : List α} {ls : List (List α)} (ha : a ∈ l) (hl : l ∈ ls) :
    a ∈ [sep].intercalate ls := by
  cases ls with
  | nil => cases hl
  | cons l₀ ls =>
    rw [intercalate_cons]
    rcases List.mem_cons.1 hl with rfl | hl
    · exact List.mem_append_left _ ha
    · exact List.mem_append_right _ (List.mem_flatMap.2 ⟨l, hl, List.mem_cons_of_mem _ ha⟩)

end

end FactBase
