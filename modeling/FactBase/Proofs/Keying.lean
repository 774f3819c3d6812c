import FactBase.Proofs.Codec
/-!
# Keying — the keys of a fact, in every index

A name is that of an index exactly if it is an ordering of the five letters (`exists_ofName?_iff`).  A fact whose
identifiers hold no separator has one key in each index, and is read back from it (`encode_eq_ok_iff`).
A key that is read as a fact is the key of that fact in one index and in no other (`existsUnique_index`).  Main
statement: `index_keys_are_exact`.
-/
namespace FactBase

namespace IndexOrder

theorem ofName?_eq_some_iff {name : String} {index : IndexOrder} : ofName? name = some index ↔ index.name = name :=
  ⟨name_of_ofName?, fun h => h ▸ ofName?_name index⟩

theorem map_letter_filterMap : ∀ {cs : List Char}, (∀ c ∈ cs, (Position.ofLetter? c).isSome = true) →
    (cs.filterMap Position.ofLetter?).map Position.letter = cs
  | [], _ => rfl
  | c :: cs, h => by
    obtain ⟨p, hp⟩ := Option.isSome_iff_exists.1 (h c List.mem_cons_self)
    rw [List.filterMap_cons_some hp, List.map_cons, Position.letter_of_ofLetter? hp,
      map_letter_filterMap fun c' hc' => h c' (List.mem_cons_of_mem _ hc')]

/-- **The names of indexes are the orderings of the five letters**, and nothing else is one. -/
theorem exists_ofName?_iff {name : String} :
    (∃ index, ofName? name = some index) ↔ name.toList.Perm ['e', 'a', 'v', 't', 'o'] := by
  constructor
  · rintro ⟨index, hindex⟩
    rw [← name_of_ofName? hindex, IndexOrder.name, String.toList_ofList]
    exact index.isOrdering.map Position.letter
  · intro hperm
    have hfive : ∀ c ∈ ['e', 'a', 'v', 't', 'o'], (Position.ofLetter? c).isSome = true := by
      simp only [List.forall_mem_cons]
      exact ⟨rfl, rfl, rfl, rfl, rfl, fun c hc => by cases hc⟩
    have hletters : ∀ c ∈ name.toList, (Position.ofLetter? c).isSome = true := fun c hc =>
      hfive c (hperm.mem_iff.1 hc)
    refine ⟨⟨name.toList.filterMap Position.ofLetter?, hperm.filterMap Position.ofLetter?⟩, ?_⟩
    rw [ofName?_eq_some_iff, IndexOrder.name, map_letter_filterMap hletters, String.ofList_toList]

end IndexOrder

/-- **The transaction segments that can be read are those that are written.** -/
theorem Segment.toTxn_eq_ok_iff {segment : String} {txn : TxnNumber} :
    toTxn segment = .ok txn ↔ ofTxn txn = .ok segment := by
  constructor
  · intro h
    obtain ⟨hle, htext⟩ := txnText_of_toTxn h
    rw [ofTxn_of_le hle, htext]
  · intro h
    by_cases hle : txn ≤ maxTxn
    · obtain rfl := Except.ok.inj ((ofTxn_of_le hle).symm.trans h)
      exact toTxn_txnText hle
    · cases (ofTxn_of_lt (UInt64.not_le.1 hle)).symm.trans h

namespace StoredFact

variable {f f' : StoredFact} {key : String}

/-- **A fact has a key in each index** if its transaction has a segment, and otherwise in none. -/
theorem encode_eq_ok_iff {index : IndexOrder} :
    f.encode index = .ok key ↔ f.txn ≤ maxTxn ∧ key = Key.encodeAll index f.texts := by
  have hsegments : Key.encode index (f.segments (Segment.txnText f.txn)) = Key.encodeAll index f.texts :=
    Key.encode_eq_encodeAll index fun p => by cases p <;> rfl
  by_cases hle : f.txn ≤ maxTxn
  · rw [encode, Segment.ofTxn_of_le hle, Except.map, hsegments, Except.ok.injEq]
    exact ⟨fun h => ⟨hle, h.symm⟩, fun h => h.2.symm⟩
  · rw [encode, Segment.ofTxn_of_lt (UInt64.not_le.1 hle)]
    exact ⟨fun h => (by cases h), fun h => absurd h.1 hle⟩

/-- **A key that is read as a fact is its key in exactly one index.** -/
theorem existsUnique_index (h : decode key = .ok f) : ∃! index, f.encode index = .ok key := by
  obtain ⟨hle, index, hsplit⟩ := split_of_decode h
  refine ⟨index, encode_eq_ok_iff.2 ⟨hle, Key.encodeAll_of_split hsplit⟩, fun index' hindex' => ?_⟩
  obtain ⟨-, rfl⟩ := encode_eq_ok_iff.1 hindex'
  have hsplit' := Key.split_encodeAll index' (isWhole_of_decode h)
  exact (Prod.mk.inj (Except.ok.inj (hsplit'.symm.trans hsplit))).1

/-- **Facts and their keys determine each other, in every index.**  A name is that of an index exactly if it is an
ordering of the five letters, and the index has this name.  A fact whose identifiers hold no separator and whose
transaction has a segment has a key in every index, and it is read back from the key; so in one index two such facts
never have the same key.  A key that is read as a fact is the key of that fact in exactly one index.  And a segment is
read as a transaction exactly if the transaction is written so. -/
theorem index_keys_are_exact :
    (∀ name, (∃ index, IndexOrder.ofName? name = some index) ↔ name.toList.Perm ['e', 'a', 'v', 't', 'o']) ∧
    (∀ name index, IndexOrder.ofName? name = some index ↔ index.name = name) ∧
    (∀ (index : IndexOrder) (f : StoredFact),
      (∀ id ∈ [f.entity, f.attr, f.value], Key.separator ∉ id.segment.toList) → f.txn ≤ maxTxn →
      ∃ key, f.encode index = .ok key ∧ decode key = .ok f) ∧
    (∀ key f, decode key = .ok f → ∃! index, f.encode index = .ok key) ∧
    (∀ (index : IndexOrder) (f f' : StoredFact) (key : String),
      (∀ id ∈ [f.entity, f.attr, f.value], Key.separator ∉ id.segment.toList) →
      (∀ id ∈ [f'.entity, f'.attr, f'.value], Key.separator ∉ id.segment.toList) →
      f.encode index = .ok key → f'.encode index = .ok key → f = f') ∧
    ∀ segment txn, Segment.toTxn segment = .ok txn ↔ Segment.ofTxn txn = .ok segment := by
  refine ⟨fun _ => IndexOrder.exists_ofName?_iff, fun _ _ => IndexOrder.ofName?_eq_some_iff,
    fun index f hf hle => ?_, fun key f h => existsUnique_index h, fun index f f' key hf hf' h h' => ?_,
    fun _ _ => Segment.toTxn_eq_ok_iff⟩
  · exact ⟨_, encode_eq_ok_iff.2 ⟨hle, rfl⟩, decode_encodeAll index (isWhole_of_identifiers hf) hle⟩
  · obtain ⟨hle, rfl⟩ := encode_eq_ok_iff.1 h
    obtain ⟨hle', hkey⟩ := encode_eq_ok_iff.1 h'
    have hread := decode_encodeAll index (isWhole_of_identifiers hf) hle
    have hread' := decode_encodeAll index (isWhole_of_identifiers hf') hle'
    rw [← hkey] at hread'
    exact Except.ok.inj (hread.symm.trans hread')

end StoredFact
end FactBase
