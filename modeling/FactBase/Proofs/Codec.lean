import FactBase.Key.Codec
import FactBase.Proofs.Digits
import FactBase.Proofs.Interval
import FactBase.Proofs.Joining
/-!
# Codec — a key and its segments determine each other

The name of an index is read back as its order, and a key splits into the segments it was joined from
(`split_encodeAll`); whatever splits was joined so (`encodeAll_of_split`).  A stored fact whose identifiers hold no
separator is read back from its key (`decode_encodeAll`).
-/
namespace FactBase

namespace Position

theorem letter_of_ofLetter? {c : Char} {p : Position} (h : ofLetter? c = some p) : p.letter = c := by
  unfold ofLetter? at h
  split at h
  case h_6 => cases h
  all_goals (obtain rfl := Option.some.inj h; rfl)

theorem nodup_all : all.Nodup := by decide

end Position

namespace IndexOrder

theorem length_order (index : IndexOrder) : index.order.length = 5 := index.isOrdering.length_eq

theorem nodup_order (index : IndexOrder) : index.order.Nodup := index.isOrdering.nodup_iff.2 Position.nodup_all

theorem mem_order (index : IndexOrder) (p : Position) : p ∈ index.order :=
  index.isOrdering.mem_iff.2 (Position.mem_all p)

theorem slot_lt (index : IndexOrder) (p : Position) : index.slot p < index.order.length :=
  List.idxOf_lt_length_iff.2 (index.mem_order p)

theorem getElem?_slot (index : IndexOrder) (p : Position) : index.order[index.slot p]? = some p := by
  rw [List.getElem?_eq_getElem (index.slot_lt p)]
  exact congrArg some (List.getElem_idxOf (index.slot_lt p))

theorem slot_getElem (index : IndexOrder) {i : Nat} (h : i < index.order.length) : index.slot index.order[i] = i :=
  List.Nodup.idxOf_getElem index.nodup_order i h

theorem mapM_ofLetter?_letter : ∀ ps : List Position, (ps.map Position.letter).mapM Position.ofLetter? = some ps
  | [] => rfl
  | p :: ps => by
    rw [List.map_cons, List.mapM_cons, Position.ofLetter?_letter, mapM_ofLetter?_letter ps]
    rfl

theorem map_letter_of_mapM : ∀ {cs : List Char} {ps : List Position}, cs.mapM Position.ofLetter? = some ps →
    ps.map Position.letter = cs
  | [], ps, h => by
    obtain rfl := Option.some.inj h
    rfl
  | c :: cs, ps, h => by
    rw [List.mapM_cons] at h
    obtain ⟨p, hp, h⟩ := Option.bind_eq_some_iff.1 h
    obtain ⟨ps', hps', h⟩ := Option.bind_eq_some_iff.1 h
    obtain rfl := Option.some.inj h
    rw [List.map_cons, Position.letter_of_ofLetter? hp, map_letter_of_mapM hps']

theorem ofOrder?_order (index : IndexOrder) : ofOrder? index.order = some index :=
  dif_pos (List.isPerm_iff.2 index.isOrdering)

theorem order_of_ofOrder? {ps : List Position} {index : IndexOrder} (h : ofOrder? ps = some index) :
    index.order = ps := by
  unfold ofOrder? at h
  split at h
  · obtain rfl := Option.some.inj h
    rfl
  · cases h

/-- **The name of an index is read as its order.** -/
theorem ofName?_name (index : IndexOrder) : ofName? index.name = some index := by
  rw [ofName?, name, String.toList_ofList, mapM_ofLetter?_letter, Option.bind_some, ofOrder?_order]

theorem name_of_ofName? {s : String} {index : IndexOrder} (h : ofName? s = some index) : index.name = s := by
  obtain ⟨ps, hps, horder⟩ := Option.bind_eq_some_iff.1 h
  rw [name, order_of_ofOrder? horder, map_letter_of_mapM hps, String.ofList_toList]

theorem separator_notMem_name (index : IndexOrder) : Key.separator ∉ index.name.toList := by
  rw [name, String.toList_ofList]
  intro h
  obtain ⟨p, -, hp⟩ := List.mem_map.1 h
  cases p <;> revert hp <;> decide

end IndexOrder

namespace Key

theorem toList_join (parts : List String) :
    (join parts).toList = [separator].intercalate (parts.map String.toList) := by
  rw [join, String.toList_ofList]

theorem splitOn_join {parts : List String} (h : ∀ s ∈ parts, separator ∉ s.toList) (hne : parts ≠ []) :
    (join parts).toList.splitOn separator = parts.map String.toList := by
  rw [toList_join, List.splitOn_intercalate]
  · intro l hl
    obtain ⟨s, hs, rfl⟩ := List.mem_map.1 hl
    exact h s hs
  · simpa using hne

/-- What lies between two separators holds none. -/
theorem separator_notMem_of_mem_splitOn : ∀ {cs part : List Char}, part ∈ cs.splitOn separator → separator ∉ part
  | [], part, hpart => by
    rw [List.splitOn_nil, List.mem_singleton] at hpart
    rw [hpart]
    exact List.not_mem_nil
  | c :: cs, part, hpart => by
    rw [List.splitOn_cons_eq_if_modifyHead] at hpart
    split at hpart
    · rcases List.mem_cons.1 hpart with rfl | hpart
      · exact List.not_mem_nil
      · exact separator_notMem_of_mem_splitOn hpart
    · rename_i hc
      obtain ⟨first, rest, hsplit⟩ := List.exists_cons_of_ne_nil (List.splitOn_ne_nil separator cs)
      have hrest : ∀ part ∈ first :: rest, separator ∉ part := fun part hpart =>
        separator_notMem_of_mem_splitOn (hsplit ▸ hpart)
      rw [hsplit, List.modifyHead_cons] at hpart
      rcases List.mem_cons.1 hpart with rfl | hpart
      · -- the first part grows by a character that is no separator
        rw [List.mem_cons, not_or]
        exact ⟨fun heq => hc (beq_iff_eq.2 heq.symm), hrest first List.mem_cons_self⟩
      · exact hrest part (List.mem_cons_of_mem _ hpart)

/-- **Parts without separators are told apart by what they are joined to**, if there are as many of them. -/
theorem join_inj {xs ys : List String} (hxs : ∀ s ∈ xs, separator ∉ s.toList) (hys : ∀ s ∈ ys, separator ∉ s.toList)
    (hlength : xs.length = ys.length) (h : join xs = join ys) : xs = ys := by
  cases xs with
  | nil => exact (List.length_eq_zero_iff.1 hlength.symm).symm
  | cons x xs =>
    cases ys with
    | nil => cases hlength
    | cons y ys =>
      have hparts := splitOn_join hxs (List.cons_ne_nil _ _)
      rw [h, splitOn_join hys (List.cons_ne_nil _ _)] at hparts
      exact ((List.map_inj_right fun _ _ heq => String.toList_injective heq).1 hparts).symm

def encodeAll (index : IndexOrder) (segments : Tuple String) : String :=
  join (index.name :: index.order.map segments.get)

theorem encode_eq_encodeAll (index : IndexOrder) {segments : Tuple (Option String)} {all : Tuple String}
    (h : ∀ p, segments.get p = some (all.get p)) : encode index segments = encodeAll index all := by
  rw [encode, encodeAll]
  congr 2
  refine List.map_congr_left fun p _ => ?_
  rw [h p]
  rfl

theorem toList_encodeAll (index : IndexOrder) (segments : Tuple String) : (encodeAll index segments).toList =
    (stem index).toList ++ [separator].intercalate (index.order.map fun p => (segments.get p).toList) := by
  have hne : (index.order.map segments.get).map String.toList ≠ [] := by
    intro h
    have := congrArg List.length h
    simp [index.length_order] at this
  rw [encodeAll, toList_join, List.map_cons, List.intercalate_cons_of_ne_nil hne, stem, String.toList_push,
    List.map_map]
  rfl

theorem lt_highMark (index : IndexOrder) {segments : Tuple String}
    (h : ∀ p, ∀ c ∈ (segments.get p).toList, c < KeyInterval.highMark) {c : Char}
    (hc : c ∈ [separator].intercalate (index.order.map fun p => (segments.get p).toList)) :
    c < KeyInterval.highMark := by
  rcases mem_intercalate hc with rfl | ⟨l, hl, hc⟩
  · decide
  · obtain ⟨p, -, rfl⟩ := List.mem_map.1 hl
    exact h p c hc

/-- **A key splits into what it was joined from.** -/
theorem split_encodeAll (index : IndexOrder) {segments : Tuple String}
    (h : ∀ p, separator ∉ (segments.get p).toList) : split (encodeAll index segments) = .ok (index, segments) := by
  have hparts : ∀ s ∈ index.name :: index.order.map segments.get, separator ∉ s.toList := by
    intro s hs
    rcases List.mem_cons.1 hs with rfl | hs
    · exact index.separator_notMem_name
    · obtain ⟨p, -, rfl⟩ := List.mem_map.1 hs
      exact h p
  have hlength : ((index.order.map segments.get).map String.toList).length = 5 := by
    rw [List.length_map, List.length_map, index.length_order]
  rw [split, encodeAll, splitOn_join hparts (List.cons_ne_nil _ _), List.map_cons]
  dsimp only
  rw [String.ofList_toList, IndexOrder.ofName?_name]
  dsimp only
  rw [if_pos hlength]
  congr 2
  apply Tuple.ext_get
  intro p
  rw [Tuple.get_ofFn, List.getD_eq_getElem?_getD, List.getElem?_map, List.getElem?_map, index.getElem?_slot]
  exact String.ofList_toList

/-- **A key that splits is its index and segments, joined.** -/
theorem encodeAll_of_split {key : String} {index : IndexOrder} {segments : Tuple String}
    (h : split key = .ok (index, segments)) : key = encodeAll index segments := by
  unfold split at h
  split at h
  · cases h
  rename_i name parts hparts
  split at h
  · cases h
  rename_i index' hname
  split at h
  case isFalse => cases h
  rename_i hlength
  obtain ⟨rfl, rfl⟩ := Prod.mk.inj (Except.ok.inj h)
  have hmap : (index'.order.map fun p => parts.getD (index'.slot p) []) = parts := by
    apply List.ext_getElem
    · rw [List.length_map, index'.length_order, hlength]
    · intro i hi hi'
      rw [List.getElem_map, index'.slot_getElem, List.getD_eq_getElem?_getD, List.getElem?_eq_getElem hi']
      rfl
  apply String.toList_injective
  rw [encodeAll, toList_join, List.map_cons, IndexOrder.name_of_ofName? hname, String.toList_ofList, List.map_map]
  have hsegments : (index'.order.map (String.toList ∘ (Tuple.ofFn fun p =>
      String.ofList (parts.getD (index'.slot p) [])).get)) = parts := by
    conv => rhs; rw [← hmap]
    refine List.map_congr_left fun p _ => ?_
    rw [Function.comp_apply, Tuple.get_ofFn, String.toList_ofList]
  rw [hsegments, ← hparts, List.intercalate_splitOn]

/-- **The segments of a key that splits hold no separator.** -/
theorem separator_notMem_of_split {key : String} {index : IndexOrder} {segments : Tuple String}
    (h : split key = .ok (index, segments)) (p : Position) : separator ∉ (segments.get p).toList := by
  unfold split at h
  split at h
  · cases h
  rename_i name parts hparts
  split at h
  · cases h
  rename_i index' hname
  split at h
  case isFalse => cases h
  obtain ⟨rfl, rfl⟩ := Prod.mk.inj (Except.ok.inj h)
  rw [Tuple.get_ofFn, String.toList_ofList, List.getD_eq_getElem?_getD]
  cases hpart : parts[index'.slot p]? with
  | none => exact List.not_mem_nil
  | some part =>
    have hmem : part ∈ key.toList.splitOn separator := by
      rw [hparts]
      exact List.mem_cons_of_mem _ (List.mem_of_getElem? hpart)
    exact separator_notMem_of_mem_splitOn hmem

end Key

namespace StoredFact

/-- The segments of a fact's key, by position. -/
def texts (f : StoredFact) : Tuple String :=
  ⟨f.entity.segment, f.attr.segment, f.value.segment, Segment.txnText f.txn, Segment.ofOperation f.operation⟩

def key (f : StoredFact) : String := Key.encodeAll .eavto f.texts

theorem encode_segments (f : StoredFact) :
    Key.encode .eavto (f.segments (Segment.txnText f.txn)) = f.key :=
  Key.encode_eq_encodeAll .eavto fun p => by cases p <;> rfl

/-- No identifier of the fact holds a separator. -/
def IsWhole (f : StoredFact) : Prop := ∀ pos, Key.separator ∉ (f.texts.get pos).toList

theorem isWhole_of_identifiers {f : StoredFact}
    (h : ∀ id ∈ [f.entity, f.attr, f.value], Key.separator ∉ id.segment.toList) : f.IsWhole := by
  intro pos
  cases pos with
  | entity => exact h f.entity (by simp)
  | attr => exact h f.attr (by simp)
  | value => exact h f.value (by simp)
  | txn => exact fun hsep => absurd (Segment.isPlain_txnText hsep).1 (Char.lt_irrefl _)
  | operation => exact fun hsep => absurd (Segment.isPlain_ofOperation hsep).1 (Char.lt_irrefl _)

/-- **A fact is read back from its key in any index.** -/
theorem decode_encodeAll (index : IndexOrder) {f : StoredFact} (h : f.IsWhole) (hle : f.txn ≤ maxTxn) :
    decode (Key.encodeAll index f.texts) = .ok f := by
  have htxn : Segment.toTxn f.texts.txn = .ok f.txn := Segment.toTxn_txnText hle
  have hoperation : Segment.toOperation f.texts.operation = .ok f.operation :=
    Segment.toOperation_ofOperation f.operation
  simp only [decode, Key.split_encodeAll index h, bind, Except.bind, htxn, hoperation]
  rfl

/-- What a store may hold a fact's key for: identifiers that were issued, and a transaction that has a segment. -/
structure IsStorable (f : StoredFact) : Prop where
  entity : ∃ digest, f.entity = .ofDigest digest
  attr : ∃ digest, f.attr = .ofDigest digest
  value : ∃ digest, f.value = .ofDigest digest
  txn : f.txn ≤ maxTxn

theorem IsStorable.isPlain {f : StoredFact} (h : f.IsStorable) {p : Position} {c : Char}
    (hc : c ∈ (f.texts.get p).toList) : Numeral.isPlain c := by
  cases p with
  | entity =>
    obtain ⟨d, hd⟩ := h.entity
    change c ∈ f.entity.segment.toList at hc
    exact Identifier.isPlain_ofDigest (hd ▸ hc)
  | attr =>
    obtain ⟨d, hd⟩ := h.attr
    change c ∈ f.attr.segment.toList at hc
    exact Identifier.isPlain_ofDigest (hd ▸ hc)
  | value =>
    obtain ⟨d, hd⟩ := h.value
    change c ∈ f.value.segment.toList at hc
    exact Identifier.isPlain_ofDigest (hd ▸ hc)
  | txn => exact Segment.isPlain_txnText hc
  | operation => exact Segment.isPlain_ofOperation hc

theorem IsStorable.isWhole {f : StoredFact} (h : f.IsStorable) : f.IsWhole := fun _ hsep =>
  absurd (h.isPlain hsep).1 (Char.lt_irrefl _)

theorem IsStorable.split_key {f : StoredFact} (h : f.IsStorable) : Key.split f.key = .ok (.eavto, f.texts) :=
  Key.split_encodeAll .eavto h.isWhole

/-- **A stored fact is read back from its key.** -/
theorem IsStorable.decode_key {f : StoredFact} (h : f.IsStorable) : decode f.key = .ok f :=
  decode_encodeAll .eavto h.isWhole h.txn

/-- **A key that is read as a fact has the segments of that fact**, in the order of its index. -/
theorem split_of_decode {key : String} {f : StoredFact} (h : decode key = .ok f) :
    f.txn ≤ maxTxn ∧ ∃ index, Key.split key = .ok (index, f.texts) := by
  unfold decode at h
  simp only [bind, Except.bind] at h
  split at h
  · cases h
  rename_i parts hsplit
  obtain ⟨index, segments⟩ := parts
  split at h
  · cases h
  rename_i txn htxn
  split at h
  · cases h
  rename_i operation hoperation
  obtain rfl := Except.ok.inj h
  obtain ⟨hle, htxnText⟩ := Segment.txnText_of_toTxn htxn
  refine ⟨hle, index, hsplit.trans ?_⟩
  rw [texts, htxnText, Segment.ofOperation_of_toOperation hoperation]

theorem isWhole_of_decode {key : String} {f : StoredFact} (h : decode key = .ok f) : f.IsWhole := by
  obtain ⟨-, index, hsplit⟩ := split_of_decode h
  exact Key.separator_notMem_of_split hsplit

theorem IsStorable.key_inj {f g : StoredFact} (hf : f.IsStorable) (hg : g.IsStorable) (h : f.key = g.key) : f = g :=
  Except.ok.inj (hf.decode_key.symm.trans ((congrArg decode h).trans hg.decode_key))

theorem IsStorable.under_key {f : StoredFact} (h : f.IsStorable) :
    (KeyInterval.under (Key.stem .eavto)).contains f.key = true := by
  refine KeyInterval.contains_under (Key.toList_encodeAll .eavto f.texts) ?_ fun c hc => ?_
  · intro hnil
    have := congrArg List.length hnil
    simp [IndexOrder.eavto, Position.all, List.intercalate] at this
  · exact Key.lt_highMark .eavto (fun p c hc => (h.isPlain hc).2) hc

end StoredFact
end FactBase
