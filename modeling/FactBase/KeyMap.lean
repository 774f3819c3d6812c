/-!
# KeyMap — an ordered map from texts

The pairs are kept in strictly ascending order of their keys, so a map has one representation: two maps that answer
every look-up alike are equal.  Texts compare by code point, which is the order of their UTF-8 bytes.
-/
namespace FactBase
namespace KeyMap

variable {α : Type}

/-- Puts a pair at its place, or replaces the value that its key has. -/
def insertPair (k : String) (v : α) : List (String × α) → List (String × α)
  | [] => [(k, v)]
  | (k', v') :: rest =>
    if k < k' then (k, v) :: (k', v') :: rest
    else if k = k' then (k, v) :: rest
    else (k', v') :: insertPair k v rest

theorem mem_insertPair {k : String} {v : α} {p : String × α} :
    ∀ {ps : List (String × α)}, p ∈ insertPair k v ps → p = (k, v) ∨ p ∈ ps
  | [], h => .inl (by simpa [insertPair] using h)
  | (k', v') :: rest, h => by
    unfold insertPair at h
    split at h
    · rcases List.mem_cons.1 h with h | h
      · exact .inl h
      · exact .inr h
    · split at h
      · rcases List.mem_cons.1 h with h | h
        · exact .inl h
        · exact .inr (List.mem_cons_of_mem _ h)
      · rcases List.mem_cons.1 h with h | h
        · exact .inr (h ▸ List.mem_cons_self)
        · rcases mem_insertPair h with h | h
          · exact .inl h
          · exact .inr (List.mem_cons_of_mem _ h)

theorem pairwise_insertPair (k : String) (v : α) :
    ∀ {ps : List (String × α)}, ps.Pairwise (·.1 < ·.1) → (insertPair k v ps).Pairwise (·.1 < ·.1)
  | [], _ => List.pairwise_singleton ..
  | (k', v') :: rest, h => by
    obtain ⟨hk', hrest⟩ := List.pairwise_cons.1 h
    unfold insertPair
    split
    · rename_i hlt
      refine List.pairwise_cons.2 ⟨fun p hp => ?_, h⟩
      rcases List.mem_cons.1 hp with rfl | hp
      · exact hlt
      · exact String.lt_trans hlt (hk' p hp)
    · split
      · rename_i heq
        exact List.pairwise_cons.2 ⟨fun p hp => heq ▸ hk' p hp, hrest⟩
      · rename_i hnlt hne
        have hlt : k' < k := Std.lt_of_le_of_ne (String.not_lt.1 hnlt) (Ne.symm hne)
        refine List.pairwise_cons.2 ⟨fun p hp => ?_, pairwise_insertPair k v hrest⟩
        rcases mem_insertPair hp with rfl | hp
        · exact hlt
        · exact hk' p hp

theorem find?_insertPair (k : String) (v : α) (x : String) :
    ∀ ps : List (String × α), (insertPair k v ps).find? (·.1 == x) =
      if k = x then some (k, v) else ps.find? (·.1 == x)
  | [] => by by_cases hx : k = x <;> simp [insertPair, hx]
  | (k', v') :: rest => by
    have ih := find?_insertPair k v x rest
    unfold insertPair
    split
    · by_cases hx : k = x <;> simp [hx]
    · split
      · rename_i heq
        subst heq
        by_cases hx : k = x <;> simp [hx]
      · rename_i hne
        by_cases hx : k' = x
        · have hkx : ¬k = x := fun h => hne (h.trans hx.symm)
          simp [hx, hkx]
        · have hb : (k' == x) = false := by simpa using hx
          simp [hb, ih]

end KeyMap

structure KeyMap (α : Type) where
  pairs : List (String × α)
  ascending : pairs.Pairwise (·.1 < ·.1)

namespace KeyMap

variable {α : Type}

def empty : KeyMap α := ⟨[], .nil⟩

def size (m : KeyMap α) : Nat := m.pairs.length

def isEmpty (m : KeyMap α) : Bool := m.pairs.isEmpty

def keys (m : KeyMap α) : List String := m.pairs.map (·.1)

def get? (m : KeyMap α) (k : String) : Option α := (m.pairs.find? (·.1 == k)).map (·.2)

def insert (m : KeyMap α) (k : String) (v : α) : KeyMap α :=
  ⟨insertPair k v m.pairs, pairwise_insertPair k v m.ascending⟩

/-- Inserts pairs one after the other, so of two with one key the later stands. -/
def insertAll (m : KeyMap α) (batch : List (String × α)) : KeyMap α :=
  batch.foldl (fun m p => m.insert p.1 p.2) m

/-- Takes a key out, with its value. -/
def erase (m : KeyMap α) (k : String) : KeyMap α :=
  ⟨m.pairs.filter fun p => !p.1 == k, m.ascending.filter _⟩

theorem get?_insert (m : KeyMap α) (k x : String) (v : α) :
    (m.insert k v).get? x = if k = x then some v else m.get? x := by
  unfold get? insert
  rw [find?_insertPair]
  split <;> rfl

theorem get?_erase (m : KeyMap α) (k x : String) : (m.erase k).get? x = if k = x then none else m.get? x := by
  unfold get? erase
  rw [List.find?_filter]
  split
  · rename_i heq
    subst heq
    rw [List.find?_eq_none.2 fun p _ => by simp]
    rfl
  · rename_i hne
    congr 2
    funext p
    by_cases hp : p.1 = x
    · simp [hp, Ne.symm hne]
    · simp [hp]

theorem insertAll_append (m : KeyMap α) (b c : List (String × α)) :
    m.insertAll (b ++ c) = (m.insertAll b).insertAll c :=
  List.foldl_append

end KeyMap
end FactBase
