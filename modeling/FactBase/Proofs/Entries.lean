import FactBase.KeyInterval
/-!
# Entries — an ordered map through its look-ups

A map is what its look-ups answer: the keys it lists are those that a look-up finds, in strictly ascending order, and
a batch changes the answers of its own keys only, the later entry of a key standing.
-/
namespace FactBase
namespace KeyMap

variable {α : Type}

theorem get?_of_mem {m : KeyMap α} {k : String} {v : α} (h : (k, v) ∈ m.pairs) : m.get? k = some v := by
  obtain ⟨pairs, hasc⟩ := m
  induction pairs with
  | nil => cases h
  | cons p rest ih =>
    obtain ⟨hp, hrest⟩ := List.pairwise_cons.1 hasc
    unfold get?
    rcases List.mem_cons.1 h with rfl | h
    · simp
    · have hne : (p.1 == k) = false := by
        have hlt := hp (k, v) h
        rw [beq_eq_false_iff_ne]
        exact fun heq => String.lt_irrefl k (heq ▸ hlt)
      rw [List.find?_cons_of_neg (by simp [hne])]
      exact ih hrest h

theorem mem_of_get? {m : KeyMap α} {k : String} {v : α} (h : m.get? k = some v) : (k, v) ∈ m.pairs := by
  obtain ⟨p, hp, rfl⟩ := Option.map_eq_some_iff.1 h
  have hk : p.1 = k := by simpa using List.find?_some hp
  rw [← hk]
  exact List.mem_of_find?_eq_some hp

theorem mem_keys {m : KeyMap α} {k : String} : k ∈ m.keys ↔ ∃ v, m.get? k = some v := by
  constructor
  · intro h
    obtain ⟨⟨_, v⟩, hp, rfl⟩ := List.mem_map.1 h
    exact ⟨v, get?_of_mem hp⟩
  · rintro ⟨v, h⟩
    exact List.mem_map.2 ⟨(k, v), mem_of_get? h, rfl⟩

theorem pairwise_keys (m : KeyMap α) : m.keys.Pairwise (· < ·) :=
  List.pairwise_map.2 m.ascending

theorem nodup_keys (m : KeyMap α) : m.keys.Nodup :=
  (pairwise_keys m).imp fun hlt => String.ne_of_lt hlt

theorem mem_keysIn {m : KeyMap α} {i : KeyInterval} {k : String} :
    k ∈ m.keysIn i ↔ (∃ v, m.get? k = some v) ∧ i.contains k = true := by
  rw [keysIn, List.mem_filter, mem_keys]

theorem pairwise_keysIn (m : KeyMap α) (i : KeyInterval) : (m.keysIn i).Pairwise (· < ·) :=
  (pairwise_keys m).filter _

/-- **Of the entries for a key the last one stands.** -/
theorem get?_insertAll (k : String) : ∀ (batch : List (String × α)) (m : KeyMap α),
    (m.insertAll batch).get? k = ((batch.reverse.find? (·.1 == k)).map (·.2)).or (m.get? k)
  | [], m => rfl
  | (k', v) :: batch, m => by
    have ih := get?_insertAll k batch (m.insert k' v)
    have hstep : m.insertAll ((k', v) :: batch) = (m.insert k' v).insertAll batch := rfl
    rw [hstep, ih, get?_insert, List.reverse_cons, List.find?_append]
    cases batch.reverse.find? (·.1 == k) with
    | some p => rfl
    | none => by_cases hk : k' = k <;> simp [hk]

theorem insertAll_flatten : ∀ (batches : List (List (String × α))) (m : KeyMap α),
    batches.foldl insertAll m = m.insertAll batches.flatten
  | [], _ => rfl
  | batch :: batches, m => by
    rw [List.foldl_cons, insertAll_flatten batches, List.flatten_cons, insertAll_append]

theorem get?_insertAll_of_notMem {k : String} {batch : List (String × α)} (m : KeyMap α)
    (h : ∀ p ∈ batch, p.1 ≠ k) : (m.insertAll batch).get? k = m.get? k := by
  have hnone : batch.reverse.find? (·.1 == k) = none :=
    List.find?_eq_none.2 fun p hp => by simpa using h p (List.mem_reverse.1 hp)
  rw [get?_insertAll, hnone]
  rfl

theorem get?_insertAll_of_mem {k : String} {v : α} {batch : List (String × α)} (m : KeyMap α)
    (hmem : (k, v) ∈ batch) (huniq : ∀ w, (k, w) ∈ batch → w = v) : (m.insertAll batch).get? k = some v := by
  rw [get?_insertAll]
  cases hfind : batch.reverse.find? (·.1 == k) with
  | none =>
    have := List.find?_eq_none.1 hfind (k, v) (List.mem_reverse.2 hmem)
    simp at this
  | some p =>
    have hk : p.1 = k := by simpa using List.find?_some hfind
    have hp : (k, p.2) ∈ batch := by
      rw [← hk]; exact List.mem_reverse.1 (List.mem_of_find?_eq_some hfind)
    rw [Option.map_some, huniq p.2 hp]
    rfl

/-- **A batch with one value for each of its keys** answers for these keys, and the map for the others. -/
theorem get?_insertAll_eq_some_iff {batch : List (String × α)}
    (hunique : ∀ k v w, (k, v) ∈ batch → (k, w) ∈ batch → w = v) (m : KeyMap α) {k : String} {v : α} :
    (m.insertAll batch).get? k = some v ↔ (k, v) ∈ batch ∨ (∀ p ∈ batch, p.1 ≠ k) ∧ m.get? k = some v := by
  by_cases hk : ∃ w, (k, w) ∈ batch
  · obtain ⟨w, hw⟩ := hk
    rw [get?_insertAll_of_mem m hw fun w' hw' => hunique k w w' hw hw', Option.some.injEq]
    constructor
    · rintro rfl
      exact .inl hw
    · rintro (hv | ⟨hnone, -⟩)
      · exact hunique k v w hv hw
      · exact absurd rfl (hnone _ hw)
  · have hnone : ∀ p ∈ batch, p.1 ≠ k := fun p hp heq => hk ⟨p.2, heq ▸ hp⟩
    rw [get?_insertAll_of_notMem m hnone]
    exact ⟨fun hget => .inr ⟨hnone, hget⟩, fun h => h.elim (fun hv => absurd rfl (hnone _ hv)) (·.2)⟩

end KeyMap
end FactBase
