import FactBase.Proofs.ByteOrder
import FactBase.Proofs.Keying
import Mathlib.Data.List.Infix
/-!
# Collating — keys stand in the order of their segments

Segments at one position have one width, and their digits are in byte order, so they compare as the numbers that they
spell (`compare_fixed`).  A separator stands at the same places of two keys of one index and never decides, so the
keys compare as their numbers do in the order of the index (`compare_key`).  Whatever lies between two keys that begin
with the same segments begins with them too (`leading_of_between`).  Main statement: `keys_collate_by_segments`.
-/
namespace FactBase

/-! ## Comparing from the front -/

section

variable {α : Type} [Ord α]

theorem compare_cons (x y : α) (xs ys : List α) :
    compare (x :: xs) (y :: ys) = (compare x y).then (compare xs ys) := List.compareLex_cons_cons

theorem compare_append : ∀ {xs ys : List α} (as bs : List α), xs.length = ys.length →
    compare (xs ++ as) (ys ++ bs) = (compare xs ys).then (compare as bs)
  | [], [], _, _, _ => rfl
  | x :: xs, y :: ys, as, bs, h => by
    rw [List.cons_append, List.cons_append, compare_cons, compare_cons, compare_append as bs (Nat.succ.inj h),
      Ordering.then_assoc]

theorem compare_map_congr {ι β : Type} [Ord β] {f f' : ι → α} {g g' : ι → β} : ∀ {is : List ι},
    (∀ i ∈ is, compare (f i) (f' i) = compare (g i) (g' i)) →
    compare (is.map f) (is.map f') = compare (is.map g) (is.map g')
  | [], _ => rfl
  | i :: is, h => by
    have ih := compare_map_congr fun j hj => h j (List.mem_cons_of_mem _ hj)
    simp only [List.map_cons, compare_cons, h i List.mem_cons_self, ih]

theorem compare_eq_lt_of_lt [Std.ReflOrd α] [LT α] (hlt : ∀ {x y : α}, x < y → compare x y = .lt) :
    ∀ {xs ys : List α}, xs < ys → compare xs ys = .lt
  | [], _ :: _, _ => rfl
  | x :: xs, y :: ys, h => by
    rw [compare_cons, Ordering.then_eq_lt]
    rcases List.cons_lt_cons_iff.1 h with hfirst | ⟨rfl, hrest⟩
    · exact .inl (hlt hfirst)
    · exact .inr ⟨Std.compare_self, compare_eq_lt_of_lt hlt hrest⟩

end

/-- **Texts compare as their bytes do.** -/
theorem Bytes.compare_ofText (s t : String) : compare (ofText s) (ofText t) = compare s.toList t.toList := by
  have hless : ∀ {s t : String}, s < t → compare (ofText s) (ofText t) = .lt ∧ compare s.toList t.toList = .lt :=
    fun h => ⟨compare_eq_lt_of_lt Std.compare_eq_lt.2 (ofText_lt_iff.2 h), compare_eq_lt_of_lt (fun h => if_pos h) h⟩
  by_cases heq : t = s
  · rw [heq, Std.compare_self, Std.compare_self]
  · by_cases hlt : s < t
    · rw [(hless hlt).1, (hless hlt).2]
    · have hgt := hless (Std.lt_of_le_of_ne (String.not_lt.1 hlt) heq)
      rw [Std.OrientedOrd.eq_swap, hgt.1, Std.OrientedOrd.eq_swap, hgt.2]

namespace Numeral

theorem compare_digit : ∀ c d : Fin 36, compare (digit c) (digit d) = compare c.val d.val := by decide +kernel

/-- Numbers compare by the quotient first, and by the remainder where the quotients are the same. -/
theorem compare_div_mod (base m n : Nat) :
    (compare (m / base) (n / base)).then (compare (m % base) (n % base)) = compare m n := by
  have hm := Nat.div_add_mod m base
  have hn := Nat.div_add_mod n base
  rcases Nat.lt_trichotomy (m / base) (n / base) with h | h | h
  · rw [Nat.compare_eq_lt.2 h, Nat.compare_eq_lt.2 (Nat.lt_of_div_lt_div h)]
    rfl
  · rw [Nat.compare_eq_eq.2 h, Ordering.eq_then]
    rw [h] at hm
    rw [Nat.compare_eq_ite_lt, Nat.compare_eq_ite_lt]
    simp only [show m % base < n % base ↔ m < n by omega, show n % base < m % base ↔ n < m by omega]
  · rw [Nat.compare_eq_gt.2 h, Nat.compare_eq_gt.2 (Nat.lt_of_div_lt_div h)]
    rfl

/-- **Numerals of one width compare as their numbers do.** -/
theorem compare_fixed {base : Nat} (hpos : 0 < base) (hbase : base ≤ 36) : ∀ {width m n : Nat},
    m < Nat.pow base width → n < Nat.pow base width →
    compare (fixed base width m) (fixed base width n) = compare m n
  | 0, m, n, hm, hn => by
    obtain rfl : m = 0 := Nat.lt_one_iff.1 hm
    obtain rfl : n = 0 := Nat.lt_one_iff.1 hn
    rfl
  | width + 1, m, n, hm, hn => by
    have hquotient : ∀ {k : Nat}, k < Nat.pow base (width + 1) → k / base < Nat.pow base width := fun h =>
      (Nat.div_lt_iff_lt_mul hpos).2 h
    have hdigit : ∀ k : Nat, k % base < 36 := fun k => Nat.lt_of_lt_of_le (Nat.mod_lt k hpos) hbase
    have hlast : compare (digit (m % base)) (digit (n % base)) = compare (m % base) (n % base) :=
      compare_digit ⟨m % base, hdigit m⟩ ⟨n % base, hdigit n⟩
    have hnil : compare ([] : List Char) [] = .eq := rfl
    rw [fixed, fixed, compare_append _ _ (by rw [length_fixed, length_fixed]),
      compare_fixed hpos hbase (hquotient hm) (hquotient hn), compare_cons, hnil, Ordering.then_eq, hlast,
      compare_div_mod]

end Numeral

/-! ## Segments -/

theorem Identifier.compare_ofDigest (d d' : UInt32) :
    compare (ofDigest d).segment.toList (ofDigest d').segment.toList = compare d.toNat d'.toNat := by
  rw [ofDigest, ofDigest, Numeral.hex32, Numeral.hex32, String.toList_ofList, String.toList_ofList]
  exact Numeral.compare_fixed (by decide) (by decide) d.toNat_lt d'.toNat_lt

namespace Segment

theorem compare_txnText {m n : TxnNumber} (hm : m ≤ maxTxn) (hn : n ≤ maxTxn) :
    compare (txnText m).toList (txnText n).toList = compare m.toNat n.toNat := by
  rw [txnText, txnText, String.toList_ofList, String.toList_ofList]
  exact Numeral.compare_fixed (by decide) (Nat.le_refl 36) (Nat.lt_succ_of_le (UInt64.le_iff_toNat_le.1 hm))
    (Nat.lt_succ_of_le (UInt64.le_iff_toNat_le.1 hn))

theorem compare_ofOperation (b c : Bool) :
    compare (ofOperation b).toList (ofOperation c).toList = compare b.toNat c.toNat := by
  cases b <;> cases c <;> decide

theorem length_txnText (txn : TxnNumber) : (txnText txn).toList.length = 6 := by
  rw [txnText, String.toList_ofList, Numeral.length_fixed]

theorem length_ofOperation (b : Bool) : (ofOperation b).toList.length = 1 := by cases b <;> rfl

end Segment

/-! ## Keys of one index -/

/-- A fact with digests where a stored fact has their identifiers. -/
structure DigestFact where
  entity : UInt32
  attr : UInt32
  value : UInt32
  txn : TxnNumber
  operation : Bool

namespace DigestFact

def stored (f : DigestFact) : StoredFact :=
  ⟨.ofDigest f.entity, .ofDigest f.attr, .ofDigest f.value, f.txn, f.operation⟩

/-- The number at each position; that of a retraction is less than that of an assertion. -/
def numbers (f : DigestFact) : Tuple Nat :=
  ⟨f.entity.toNat, f.attr.toNat, f.value.toNat, f.txn.toNat, f.operation.toNat⟩

variable {f g : DigestFact}

/-- **Segments at one position compare as the numbers there.** -/
theorem compare_segment (hf : f.txn ≤ maxTxn) (hg : g.txn ≤ maxTxn) (p : Position) :
    compare (f.stored.texts.get p).toList (g.stored.texts.get p).toList =
      compare (f.numbers.get p) (g.numbers.get p) := by
  cases p with
  | entity => exact Identifier.compare_ofDigest f.entity g.entity
  | attr => exact Identifier.compare_ofDigest f.attr g.attr
  | value => exact Identifier.compare_ofDigest f.value g.value
  | txn => exact Segment.compare_txnText hf hg
  | operation => exact Segment.compare_ofOperation f.operation g.operation

theorem length_segment (p : Position) :
    (f.stored.texts.get p).toList.length = (g.stored.texts.get p).toList.length := by
  cases p with
  | entity => exact (Identifier.length_ofDigest _).trans (Identifier.length_ofDigest _).symm
  | attr => exact (Identifier.length_ofDigest _).trans (Identifier.length_ofDigest _).symm
  | value => exact (Identifier.length_ofDigest _).trans (Identifier.length_ofDigest _).symm
  | txn => exact (Segment.length_txnText _).trans (Segment.length_txnText _).symm
  | operation => exact (Segment.length_ofOperation _).trans (Segment.length_ofOperation _).symm

end DigestFact

namespace Key

theorem compare_intercalate {ι : Type} {f g : ι → List Char} : ∀ {is : List ι},
    (∀ i ∈ is, (f i).length = (g i).length) →
    compare ([separator].intercalate (is.map f)) ([separator].intercalate (is.map g)) = compare (is.map f) (is.map g)
  | [], _ => rfl
  | [i], _ => by
    have hnil : compare ([] : List (List Char)) [] = .eq := rfl
    rw [List.map_singleton, List.map_singleton, List.intercalate_singleton, List.intercalate_singleton, compare_cons,
      hnil, Ordering.then_eq]
  | i :: j :: is, h => by
    have ih := compare_intercalate fun k hk => h k (List.mem_cons_of_mem _ hk)
    have hlength : (f i ++ [separator]).length = (g i ++ [separator]).length := by
      rw [List.length_append, List.length_append, h i List.mem_cons_self]
    simp only [List.map_cons] at ih ⊢
    rw [List.intercalate_cons_cons, List.intercalate_cons_cons, compare_append _ _ hlength,
      compare_append _ _ (h i List.mem_cons_self), Std.compare_self, Ordering.then_eq, ih, compare_cons (f i)]

end Key

/-- The numbers in the order in which an index writes their segments. -/
def DigestFact.numbersIn (f : DigestFact) (index : IndexOrder) : List Nat := index.order.map f.numbers.get

/-- **Keys of one index compare as the numbers of their facts do in the order of the index.** -/
theorem DigestFact.compare_key {f g : DigestFact} (hf : f.txn ≤ maxTxn) (hg : g.txn ≤ maxTxn) (index : IndexOrder) :
    compare (Key.encodeAll index f.stored.texts).toList (Key.encodeAll index g.stored.texts).toList =
      compare (f.numbersIn index) (g.numbersIn index) := by
  rw [Key.toList_encodeAll, Key.toList_encodeAll, compare_append _ _ rfl, Std.compare_self, Ordering.eq_then,
    Key.compare_intercalate fun p _ => length_segment p]
  exact compare_map_congr fun p _ => compare_segment hf hg p

/-! ## Keys that begin alike -/

namespace Key

/-- The index of a key and its first `n` segments, in the order of the index. -/
def leading (n : Nat) (key : String) : Option (IndexOrder × List String) :=
  (split key).toOption.map fun (index, segments) => (index, (index.order.take n).map segments.get)

variable {n : Nat} {key key' key'' : String} {index : IndexOrder} {segments : Tuple String} {run : List String}

theorem leading_eq_some_iff : leading n key = some (index, run) ↔
    ∃ segments, split key = .ok (index, segments) ∧ run = (index.order.take n).map segments.get := by
  rw [leading]
  cases hsplit : split key with
  | error e => exact ⟨fun h => (by cases h), fun ⟨_, h, _⟩ => (by cases h)⟩
  | ok parts =>
    obtain ⟨index', segments⟩ := parts
    constructor
    · intro h
      obtain ⟨rfl, rfl⟩ := Prod.mk.inj (Option.some.inj h)
      exact ⟨segments, rfl, rfl⟩
    · rintro ⟨_, h, rfl⟩
      obtain ⟨rfl, rfl⟩ := Prod.mk.inj (Except.ok.inj h)
      rfl

/-- What the text of a key begins with that has more segments behind the run. -/
def opening (index : IndexOrder) (run : List String) : List Char := (join (index.name :: run)).toList ++ [separator]

theorem toList_of_split (h : split key = .ok (index, segments)) (hn : n < 5) :
    key.toList = opening index ((index.order.take n).map segments.get) ++
      [separator].intercalate ((index.order.drop n).map fun p => (segments.get p).toList) := by
  have hne : (index.order.drop n).map (fun p => (segments.get p).toList) ≠ [] := by
    intro hnil
    have hlength := congrArg List.length hnil
    rw [List.length_map, List.length_drop, index.length_order, List.length_nil] at hlength
    omega
  have hparts : index.order.map (fun p => (segments.get p).toList) =
      (index.order.take n).map (fun p => (segments.get p).toList) ++
        (index.order.drop n).map (fun p => (segments.get p).toList) := by
    rw [← List.map_append, List.take_append_drop]
  rw [encodeAll_of_split h, encodeAll, opening, toList_join, toList_join, List.map_cons, List.map_cons, List.map_map,
    List.map_map, List.append_assoc, List.singleton_append, ← intercalate_append (List.cons_ne_nil _ _) hne,
    List.cons_append]
  exact congrArg (fun parts => [separator].intercalate (index.name.toList :: parts)) hparts

theorem separator_notMem_parts (h : split key = .ok (index, segments)) :
    ∀ s ∈ index.name :: index.order.map segments.get, separator ∉ s.toList := by
  intro s hs
  rcases List.mem_cons.1 hs with rfl | hs
  · exact index.separator_notMem_name
  · obtain ⟨p, -, rfl⟩ := List.mem_map.1 hs
    exact separator_notMem_of_split h p

/-- **A key that has the opening of another begins with the same segments.** -/
theorem leading_of_opening (h : split key = .ok (index, segments)) (hn : n < 5) (h' : ∃ parts, split key' = .ok parts)
    (hopening : opening index ((index.order.take n).map segments.get) <+: key'.toList) :
    leading n key' = some (index, (index.order.take n).map segments.get) := by
  obtain ⟨⟨index', segments'⟩, hsplit⟩ := h'
  obtain ⟨rest, hrest⟩ := hopening
  have hopened : ∀ s ∈ index.name :: (index.order.take n).map segments.get, separator ∉ s.toList := fun s hs =>
    separator_notMem_parts h s ((((List.take_sublist n _).map _).cons_cons _).subset hs)
  -- the parts of the second key, once by its own index and once by what its text begins with
  have hparts : (index.name :: (index.order.take n).map segments.get).map String.toList <+:
      (index'.name :: index'.order.map segments'.get).map String.toList := by
    rw [← splitOn_join (separator_notMem_parts hsplit) (List.cons_ne_nil _ _),
      ← splitOn_join hopened (List.cons_ne_nil _ _), ← encodeAll, ← encodeAll_of_split hsplit, ← hrest, opening,
      List.append_assoc, List.singleton_append, List.splitOn_append_cons_self]
    exact List.prefix_append ..
  rw [List.map_cons, List.map_cons, List.cons_prefix_cons] at hparts
  obtain ⟨hname, hrun⟩ := hparts
  have hindex : index = index' := by
    have hread := IndexOrder.ofName?_name index
    rw [String.toList_injective hname, IndexOrder.ofName?_name] at hread
    exact (Option.some.inj hread).symm
  subst hindex
  refine leading_eq_some_iff.2 ⟨segments', hsplit, ?_⟩
  have hlength : (((index.order.take n).map segments.get).map String.toList).length = n := by
    rw [List.length_map, List.length_map, List.length_take, index.length_order]
    omega
  rw [List.prefix_iff_eq_take, hlength, ← List.map_take, ← List.map_take] at hrun
  exact (List.map_inj_right fun _ _ heq => String.toList_injective heq).1 hrun

/-- **What lies between two keys that begin alike begins so too.** -/
theorem leading_of_between (h : leading n key = some (index, run)) (h'' : leading n key'' = some (index, run))
    (hsplit : ∃ parts, split key' = .ok parts) (hle : key ≤ key') (hle' : key' ≤ key'') :
    leading n key' = some (index, run) := by
  obtain ⟨segments, hkey, rfl⟩ := leading_eq_some_iff.1 h
  obtain ⟨segments'', hkey'', hrun⟩ := leading_eq_some_iff.1 h''
  rcases Nat.lt_or_ge n 5 with hn | hn
  · have htext := toList_of_split hkey hn
    have htext'' := toList_of_split hkey'' hn
    rw [KeyInterval.le_iff_not_above] at hle hle'
    rw [htext] at hle
    rw [htext'', ← hrun] at hle'
    exact leading_of_opening hkey hn hsplit (KeyInterval.isPrefix_of_between hle hle')
  · -- the run is all segments, so both keys are the same text
    rw [List.take_of_length_le (index.length_order.symm ▸ hn)] at hrun
    have heq : key = key'' := by
      rw [encodeAll_of_split hkey, encodeAll_of_split hkey'', encodeAll, encodeAll, hrun]
    rw [Std.le_antisymm (heq ▸ hle') hle]
    exact h

end Key

namespace StoredFact

variable {f f' : StoredFact} {key key' : String} {index : IndexOrder} {run : List String}

/-- The text of a fact's key up to its transaction, and the transaction's segment behind it. -/
theorem toList_of_leading (h : decode key = .ok f)
    (hrun : Key.leading (index.slot .txn) key = some (index, run)) :
    ∃ rest, key.toList = Key.opening index run ++ ((Segment.txnText f.txn).toList ++ rest) := by
  obtain ⟨-, index', hsplit⟩ := split_of_decode h
  obtain ⟨segments, hsplit', rfl⟩ := Key.leading_eq_some_iff.1 hrun
  obtain ⟨rfl, rfl⟩ := Prod.mk.inj (Except.ok.inj (hsplit.symm.trans hsplit'))
  have hslot := index'.slot_lt .txn
  have hdrop : index'.order.drop (index'.slot .txn) = .txn :: index'.order.drop (index'.slot .txn + 1) := by
    rw [List.drop_eq_getElem_cons hslot]
    exact congrArg (· :: _) (List.getElem_idxOf hslot)
  have htext := Key.toList_of_split hsplit (index'.length_order ▸ hslot)
  rw [hdrop, List.map_cons, intercalate_cons] at htext
  exact ⟨_, htext⟩

/-- **Among keys that begin alike up to the transaction, the transactions are in order.** -/
theorem txn_le_of_leading (h : decode key = .ok f) (h' : decode key' = .ok f')
    (hrun : Key.leading (index.slot .txn) key = some (index, run))
    (hrun' : Key.leading (index.slot .txn) key' = some (index, run)) (hle : key ≤ key') : f.txn ≤ f'.txn := by
  obtain ⟨rest, htext⟩ := toList_of_leading h hrun
  obtain ⟨rest', htext'⟩ := toList_of_leading h' hrun'
  refine UInt64.not_lt.1 fun hlt => ?_
  have hlength : (Segment.txnText f'.txn).toList.length = (Segment.txnText f.txn).toList.length := by
    rw [Segment.length_txnText, Segment.length_txnText]
  have hless : compare key'.toList key.toList = .lt := by
    rw [htext, htext', compare_append _ _ rfl, Std.compare_self, Ordering.eq_then, compare_append _ _ hlength,
      Segment.compare_txnText (split_of_decode h').1 (split_of_decode h).1,
      Nat.compare_eq_lt.2 (UInt64.lt_iff_toNat_lt.1 hlt)]
    rfl
  rw [← Bytes.compare_ofText] at hless
  by_cases heq : key' = key
  · rw [heq, Std.compare_self] at hless
    cases hless
  · have hgreater := compare_eq_lt_of_lt Std.compare_eq_lt.2
      (Bytes.ofText_lt_iff.2 (Std.lt_of_le_of_ne hle (Ne.symm heq)))
    rw [Std.OrientedOrd.eq_swap, hless] at hgreater
    cases hgreater

end StoredFact

/-! ## Lists of keys -/

section

variable {α : Type} {R : α → α → Prop} {P : α → Bool}

/-- In an ordered list that begins with a chosen element, the chosen ones come first, if whatever lies between two of
them is chosen. -/
theorem filter_isPrefix : ∀ {l : List α} {a : α}, (a :: l).Pairwise R → P a = true →
    (∀ b ∈ l, ∀ c ∈ l, R a b → R b c → P c = true → P b = true) → l.filter P <+: l
  | [], _, _, _, _ => List.nil_prefix
  | b :: l, a, h, ha, hbetween => by
    obtain ⟨hab, hl⟩ := List.pairwise_cons.1 h
    obtain ⟨hbl, hll⟩ := List.pairwise_cons.1 hl
    by_cases hb : P b = true
    · rw [List.filter_cons_of_pos hb, List.cons_prefix_cons]
      refine ⟨rfl, filter_isPrefix (a := a) (List.pairwise_cons.2 ⟨fun c hc => ?_, hll⟩) ha fun c hc d hd => ?_⟩
      · exact hab c (List.mem_cons_of_mem _ hc)
      · exact hbetween c (List.mem_cons_of_mem _ hc) d (List.mem_cons_of_mem _ hd)
    · have hnone : (b :: l).filter P = [] := by
        refine List.filter_eq_nil_iff.2 fun c hc hPc => ?_
        rcases List.mem_cons.1 hc with rfl | hcl
        · exact hb hPc
        · exact hb (hbetween b List.mem_cons_self c hc (hab b List.mem_cons_self) (hbl c hcl) hPc)
      rw [hnone]
      exact List.nil_prefix

/-- **The chosen elements of an ordered list stand together**, if whatever lies between two of them is chosen. -/
theorem filter_isInfix : ∀ {l : List α}, l.Pairwise R →
    (∀ a ∈ l, ∀ b ∈ l, ∀ c ∈ l, R a b → R b c → P a = true → P c = true → P b = true) → l.filter P <:+: l
  | [], _, _ => List.nil_infix
  | a :: l, h, hbetween => by
    by_cases ha : P a = true
    · rw [List.filter_cons_of_pos ha]
      refine ((List.cons_prefix_cons).2 ⟨rfl, filter_isPrefix h ha fun b hb c hc hab hbc hPc => ?_⟩).isInfix
      exact hbetween a List.mem_cons_self b (List.mem_cons_of_mem _ hb) c (List.mem_cons_of_mem _ hc) hab hbc ha hPc
    · rw [List.filter_cons_of_neg ha]
      refine (filter_isInfix (List.pairwise_cons.1 h).2 fun b hb c hc d hd => ?_).trans (List.suffix_cons a l).isInfix
      exact hbetween b (List.mem_cons_of_mem _ hb) c (List.mem_cons_of_mem _ hc) d (List.mem_cons_of_mem _ hd)

end

/-- **Keys stand in the order of their segments.**  In every index, keys of facts with digests compare, as bytes, as
the numbers of the facts do, position by position in the order of the index: first difference first, digests and
transactions as numbers, a retraction before an assertion.  And in every list of keys in the order of their bytes,
those that begin with the same segments stand together, and among those that begin alike up to the transaction the
transactions ascend. -/
theorem keys_collate_by_segments (index : IndexOrder) :
    (∀ f g : DigestFact, f.txn ≤ maxTxn → g.txn ≤ maxTxn → ∃ key key', f.stored.encode index = .ok key ∧
      g.stored.encode index = .ok key' ∧
        compare (Bytes.ofText key) (Bytes.ofText key') = compare (f.numbersIn index) (g.numbersIn index)) ∧
    ∀ keys : List String, (keys.map Bytes.ofText).Pairwise (· ≤ ·) →
      (∀ key ∈ keys, ∃ f, StoredFact.decode key = .ok f) →
      (∀ n run, keys.filter (fun key => Key.leading n key = some (index, run)) <:+: keys) ∧
      ∀ run, (keys.filter fun key => Key.leading (index.slot .txn) key = some (index, run)).Pairwise fun key key' =>
        ∀ f f', StoredFact.decode key = .ok f → StoredFact.decode key' = .ok f' → f.txn ≤ f'.txn := by
  refine ⟨fun f g hf hg => ?_, fun keys hsorted hread => ?_⟩
  · refine ⟨_, _, StoredFact.encode_eq_ok_iff.2 ⟨hf, rfl⟩, StoredFact.encode_eq_ok_iff.2 ⟨hg, rfl⟩, ?_⟩
    rw [Bytes.compare_ofText]
    exact DigestFact.compare_key hf hg index
  · have hordered : keys.Pairwise (· ≤ ·) := (List.pairwise_map.1 hsorted).imp fun h =>
      String.not_lt.1 fun hlt => h (Bytes.ofText_lt_iff.2 hlt)
    have hsplit : ∀ key ∈ keys, ∃ parts, Key.split key = .ok parts := fun key hkey => by
      obtain ⟨f, hf⟩ := hread key hkey
      obtain ⟨-, index', h⟩ := StoredFact.split_of_decode hf
      exact ⟨_, h⟩
    refine ⟨fun n run => filter_isInfix hordered fun a _ b hb c _ hab hbc ha hc => ?_, fun run => ?_⟩
    · rw [decide_eq_true_eq] at ha hc ⊢
      exact Key.leading_of_between ha hc (hsplit b hb) hab hbc
    · refine (hordered.filter _).imp_of_mem fun hkey hkey' hle f f' hf hf' => ?_
      have hrun := of_decide_eq_true (List.mem_filter.1 hkey).2
      have hrun' := of_decide_eq_true (List.mem_filter.1 hkey').2
      exact StoredFact.txn_le_of_leading hf hf' hrun hrun' hle

/-- Three keys in the order of their bytes, of two indexes; the two of one entity have transactions 35 and 36. -/
theorem keys_collate_by_segments_oneEntity :
    let early : DigestFact := ⟨0xffffffff, 1, 2, 35, true⟩
    let late : DigestFact := ⟨0xffffffff, 1, 2, 36, false⟩
    let keys := ["aevto!00000001!ffffffff!00000002!00000z!1", "eavto!ffffffff!00000001!00000002!00000z!1",
      "eavto!ffffffff!00000001!00000002!000010!0"]
    (early.stored.encode .eavto = .ok keys[1] ∧ late.stored.encode .eavto = .ok keys[2] ∧
      compare (Bytes.ofText keys[1]) (Bytes.ofText keys[2]) = .lt) ∧
    (keys.filter fun key => Key.leading 3 key = some (.eavto, ["ffffffff", "00000001", "00000002"])) = keys.drop 1 ∧
    keys.drop 1 <:+: keys ∧ early.txn ≤ late.txn := by
  intro early late keys
  have hsorted : (keys.map Bytes.ofText).Pairwise (· ≤ ·) := by decide +kernel
  have hearly : StoredFact.decode keys[1] = .ok early.stored := by decide +kernel
  have hlate : StoredFact.decode keys[2] = .ok late.stored := by decide +kernel
  have hread : ∀ key ∈ keys, ∃ f, StoredFact.decode key = .ok f := by
    simp only [keys, List.forall_mem_cons]
    exact ⟨⟨early.stored, by decide +kernel⟩, ⟨_, hearly⟩, ⟨_, hlate⟩, fun key h => by cases h⟩
  have hgroup : (keys.filter fun key => Key.leading 3 key = some (.eavto, ["ffffffff", "00000001", "00000002"])) =
      keys.drop 1 := by decide +kernel
  obtain ⟨hcompare, hlists⟩ := keys_collate_by_segments .eavto
  obtain ⟨hcontiguous, hascend⟩ := hlists keys hsorted hread
  have hinfix := hcontiguous 3 ["ffffffff", "00000001", "00000002"]
  have htxns := hascend ["ffffffff", "00000001", "00000002"]
  obtain ⟨key, key', hkey, hkey', horder⟩ := hcompare early late (by decide) (by decide)
  change (keys.filter fun key => decide (Key.leading 3 key = some (.eavto, _))).Pairwise _ at htxns
  rw [hgroup] at hinfix htxns
  have hfirst : early.stored.encode .eavto = .ok keys[1] := by decide +kernel
  have hsecond : late.stored.encode .eavto = .ok keys[2] := by decide +kernel
  obtain rfl := Except.ok.inj (hkey.symm.trans hfirst)
  obtain rfl := Except.ok.inj (hkey'.symm.trans hsecond)
  refine ⟨⟨hfirst, hsecond, horder.trans (by decide)⟩, hgroup, hinfix, ?_⟩
  exact (List.pairwise_cons.1 htxns).1 keys[2] List.mem_cons_self _ _ hearly hlate

end FactBase
