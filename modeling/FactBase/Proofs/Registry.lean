import FactBase.Dictionary
import FactBase.Proofs.Digits
import FactBase.Proofs.Effects
/-!
# Registry — the dictionary as a map between literals and identifiers

Looking up follows a chain to the literal's slot (`seek`), registering to that slot or to the first free one
(`vacancy`).  The invariant is that every literal that some slot holds is found from its chain (`Settled`): so a
literal has one identifier, and filling a free slot keeps every look-up that succeeded.
-/
namespace FactBase
namespace Dictionary

/-- The identifier on a chain whose slot holds the literal, where no free slot comes before it. -/
def seek (m : KeyMap String) (literal : String) : List Identifier → Option Identifier
  | [] => none
  | id :: rest =>
    match m.get? (slot id) with
    | some held => if held = literal then some id else seek m literal rest
    | none => none

/-- The first identifier on a chain whose slot is free, where the literal does not come before it. -/
def vacancy (m : KeyMap String) (literal : String) : List Identifier → Option Identifier
  | [] => none
  | id :: rest =>
    match m.get? (slot id) with
    | some held => if held = literal then none else vacancy m literal rest
    | none => some id

/-- The identifier of a literal, if it is registered. -/
def identify (m : KeyMap String) (literal : String) : Option Identifier := seek m literal (chain literal)

/-- **Every literal that a slot holds is found there.** -/
def Settled (m : KeyMap String) : Prop :=
  ∀ id literal, m.get? (slot id) = some literal → identify m literal = some id

def entry (id : Identifier) (literal : String) : Batch := [(slot id, literal)]

theorem slot_inj {id id' : Identifier} (h : slot id = slot id') : id = id' := by
  obtain ⟨segment⟩ := id
  obtain ⟨segment'⟩ := id'
  congr 1
  have hlist := congrArg String.toList h
  simp only [slot, String.toList_append, List.append_cancel_left_eq] at hlist
  exact String.toList_injective hlist

theorem get?_entry (m : KeyMap String) (id : Identifier) (literal key : String) :
    (m.insertAll (entry id literal)).get? key = if slot id = key then some literal else m.get? key :=
  KeyMap.get?_insert m (slot id) key literal

theorem held_of_seek {m : KeyMap String} {literal : String} {id : Identifier} : ∀ {ids : List Identifier},
    seek m literal ids = some id → id ∈ ids ∧ m.get? (slot id) = some literal
  | id' :: rest, h => by
    unfold seek at h
    split at h
    · rename_i held hheld
      split at h
      · rename_i heq
        obtain rfl := Option.some.inj h
        exact ⟨List.mem_cons_self, heq ▸ hheld⟩
      · obtain ⟨hmem, hget⟩ := held_of_seek h
        exact ⟨List.mem_cons_of_mem _ hmem, hget⟩
    · cases h

theorem free_of_vacancy {m : KeyMap String} {literal : String} {id : Identifier} : ∀ {ids : List Identifier},
    vacancy m literal ids = some id → id ∈ ids ∧ m.get? (slot id) = none
  | id' :: rest, h => by
    unfold vacancy at h
    split at h
    · split at h
      · cases h
      · obtain ⟨hmem, hget⟩ := free_of_vacancy h
        exact ⟨List.mem_cons_of_mem _ hmem, hget⟩
    · rename_i hfree
      obtain rfl := Option.some.inj h
      exact ⟨List.mem_cons_self, hfree⟩

/-- A chain that leads to the literal still does once more slots are filled. -/
theorem seek_mono {m m' : KeyMap String} (hle : ∀ id l, m.get? (slot id) = some l → m'.get? (slot id) = some l)
    {literal : String} {id : Identifier} : ∀ {ids : List Identifier},
    seek m literal ids = some id → seek m' literal ids = some id
  | id' :: rest, h => by
    unfold seek at h ⊢
    split at h
    · rename_i held hheld
      rw [hle _ _ hheld]
      dsimp only
      split at h
      · rename_i heq
        rwa [if_pos heq]
      · rename_i hne
        rw [if_neg hne]
        exact seek_mono hle h
    · cases h

theorem seek_entry {m : KeyMap String} {literal : String} {id : Identifier} : ∀ {ids : List Identifier},
    vacancy m literal ids = some id → seek (m.insertAll (entry id literal)) literal ids = some id
  | id' :: rest, h => by
    have hfree := (free_of_vacancy h).2
    unfold vacancy at h
    unfold seek
    rw [get?_entry]
    split at h
    · rename_i held hheld
      have hne : slot id ≠ slot id' := fun heq => by
        rw [heq, hheld] at hfree
        cases hfree
      rw [if_neg hne, hheld]
      dsimp only
      split at h
      · cases h
      · rename_i hne'
        rw [if_neg hne']
        exact seek_entry h
    · obtain rfl := Option.some.inj h
      rw [if_pos rfl]
      dsimp only
      rw [if_pos rfl]

theorem settled_empty : Settled .empty := fun id literal h => by cases h

/-- **Registering keeps the dictionary settled.** -/
theorem Settled.register {m : KeyMap String} (h : Settled m) {literal : String} {id : Identifier}
    (hvacant : vacancy m literal (chain literal) = some id) : Settled (m.insertAll (entry id literal)) := by
  have hfree := (free_of_vacancy hvacant).2
  intro id' literal' hheld
  rw [get?_entry] at hheld
  split at hheld
  -- the slot just filled is reached because it was the first free one of its chain
  · rename_i heq
    obtain rfl := slot_inj heq
    obtain rfl := Option.some.inj hheld
    exact seek_entry hvacant
  -- any other slot still is: chains only grow, since the new slot was free before
  · refine seek_mono (fun j l hj => ?_) (h id' literal' hheld)
    rw [get?_entry, if_neg ?_, hj]
    intro heq
    rw [heq, hj] at hfree
    cases hfree

theorem seek_congr {m m' : KeyMap String} (h : ∀ id, m'.get? (slot id) = m.get? (slot id)) (literal : String) :
    ∀ ids : List Identifier, seek m' literal ids = seek m literal ids
  | [] => rfl
  | id :: rest => by
    rw [seek, seek, h id, seek_congr h literal rest]

theorem Settled.congr {m m' : KeyMap String} (hm : Settled m) (h : ∀ id, m'.get? (slot id) = m.get? (slot id)) :
    Settled m' := fun id literal hheld => by
  rw [identify, seek_congr h]
  exact hm id literal (h id ▸ hheld)

theorem Settled.held_iff {m : KeyMap String} (h : Settled m) {literal : String} {id : Identifier} :
    identify m literal = some id ↔ m.get? (slot id) = some literal :=
  ⟨fun hid => (held_of_seek hid).2, h id literal⟩

/-- **One literal, one identifier**, and the other way round. -/
theorem Settled.eq_iff {m : KeyMap String} (h : Settled m) {id id' : Identifier} {l l' : String}
    (hl : m.get? (slot id) = some l) (hl' : m.get? (slot id') = some l') : id = id' ↔ l = l' := by
  constructor
  · rintro rfl
    exact Option.some.inj (hl.symm.trans hl')
  · rintro rfl
    exact Option.some.inj ((h id l hl).symm.trans (h id' l hl'))

theorem Settled.issued {m : KeyMap String} (h : Settled m) {literal : String} {id : Identifier}
    (hheld : m.get? (slot id) = some literal) : ∃ digest, id = .ofDigest digest := by
  have hmem := (held_of_seek (h id literal hheld)).1
  obtain ⟨attempt, -, rfl⟩ := List.mem_map.1 hmem
  exact ⟨_, rfl⟩

/-! ## The calls -/

theorem reads_read (m : KeyMap String) (id : Identifier) : (read id).Reads m (.ok (m.get? (slot id))) :=
  Run.Reads.mapError Dictionary.Error.store (Run.Reads.get (slot id))

theorem reads_find (m : KeyMap String) (literal : String) : ∀ ids : List Identifier,
    (find literal ids).Reads m ((seek m literal ids).elim (.error (.notFound literal)) .ok)
  | [] => .throw _
  | id :: rest => by
    refine .bind (reads_read m id) ?_
    rw [seek]
    cases m.get? (slot id) with
    | none => exact .throw _
    | some held =>
      dsimp only
      split
      · exact .pure id
      · exact reads_find m literal rest

/-- **Where reads work, a look-up finds the identifier of a registered literal**, and tells that another is none. -/
theorem reads_idOf (m : KeyMap String) (literal : String) :
    (idOf literal).Reads m ((identify m literal).elim (.error (.notFound literal)) .ok) :=
  reads_find m literal (chain literal)

theorem reads_literalOf {m : KeyMap String} {id : Identifier} {literal : String}
    (h : m.get? (slot id) = some literal) : (literalOf id).Reads m (.ok literal) := by
  refine .bind (reads_read m id) ?_
  rw [h]
  exact .pure literal

/-- What a registration along a chain may do: find the literal, fill the first free slot with it, or fail and write
nothing. -/
def Registered (m : KeyMap String) (literal : String) (ids : List Identifier) :
    Except Dictionary.Error Identifier → List Batch → Prop
  | .ok id, batches => (batches = [] ∧ seek m literal ids = some id) ∨
      (batches = [entry id literal] ∧ vacancy m literal ids = some id)
  | .error _, batches => batches = []

theorem does_claim (m : KeyMap String) (literal : String) : ∀ ids : List Identifier,
    (claim literal ids).Does m (Registered m literal ids)
  | [] => .throw rfl
  | id :: rest => by
    refine .bind (.get m (slot id) Dictionary.Error.store) (fun e batches h => h) ?_
    rintro _ _ ⟨rfl, rfl⟩
    change Run.Does _ m _
    cases hget : m.get? (slot id) with
    | some held =>
      dsimp only
      split
      · rename_i heq
        refine .pure (.inl ⟨rfl, ?_⟩)
        rw [seek, hget]
        exact if_pos heq
      · rename_i hne
        refine (does_claim m literal rest).mono fun r batches h => ?_
        have hseek : seek m literal (id :: rest) = seek m literal rest := by
          rw [seek, hget]
          exact if_neg hne
        have hvacancy : vacancy m literal (id :: rest) = vacancy m literal rest := by
          rw [vacancy, hget]
          exact if_neg hne
        cases r with
        | error e => exact h
        | ok id' =>
          change (_ ∧ seek m literal (id :: rest) = _) ∨ (_ ∧ vacancy m literal (id :: rest) = _)
          rwa [hseek, hvacancy]
    | none =>
      refine .bind (.write m (entry id literal) Dictionary.Error.store) (fun e batches h => h) ?_
      rintro _ _ rfl
      refine .pure (.inr ⟨rfl, ?_⟩)
      rw [vacancy, hget]

/-- **Registering a literal** finds it, fills the first free slot of its chain, or fails and writes nothing. -/
theorem does_register (m : KeyMap String) (literal : String) :
    (register literal).Does m (Registered m literal (chain literal)) :=
  does_claim m literal (chain literal)

end Dictionary
end FactBase
