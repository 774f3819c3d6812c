import FactBase.Proofs.Contending
import FactBase.Proofs.Listing
/-!
# Representing — the answers of keys, said without the contest

Grouped by entity and attribute, facts have one representative in each group: of the facts of the highest transaction
the last one.  The groups stand in the order in which their first facts come.  Taking the facts one after the other
keeps these representatives (`standing_eq_representatives`), in whatever order the facts come, so keys give the
distinct projections of the representatives, or the error of the first key that cannot be read
(`ofKeys_gives_representatives`).
-/
namespace FactBase

namespace StoredFact

/-- The group of a fact. -/
def place (f : StoredFact) : Identifier × Identifier := (f.entity, f.attr)

/-- No fact is of a higher transaction. -/
def isHighest (facts : List StoredFact) (f : StoredFact) : Bool := facts.all fun f' => f'.txn ≤ f.txn

/-- Of the facts of the highest transaction the last one. -/
def newest? (facts : List StoredFact) : Option StoredFact := (facts.filter (isHighest facts)).getLast?

theorem isHighest_iff {facts : List StoredFact} {f : StoredFact} :
    isHighest facts f = true ↔ ∀ f' ∈ facts, f'.txn ≤ f.txn := by
  simp only [isHighest, List.all_eq_true, decide_eq_true_eq]

theorem mem_of_newest? {facts : List StoredFact} {h : StoredFact} (hnewest : newest? facts = some h) :
    h ∈ facts ∧ ∀ f ∈ facts, f.txn ≤ h.txn := by
  obtain ⟨hmem, hhighest⟩ := List.mem_filter.1 (List.mem_of_getLast? hnewest)
  exact ⟨hmem, isHighest_iff.1 hhighest⟩

theorem exists_highest : ∀ {facts : List StoredFact}, facts ≠ [] → ∃ h ∈ facts, ∀ f ∈ facts, f.txn ≤ h.txn
  | [f], _ => ⟨f, List.mem_singleton_self f, fun f' hf' => List.mem_singleton.1 hf' ▸ UInt64.le_refl _⟩
  | f :: f' :: facts, _ => by
    obtain ⟨h, hmem, hhighest⟩ := exists_highest (List.cons_ne_nil f' facts)
    by_cases hle : f.txn ≤ h.txn
    · refine ⟨h, List.mem_cons_of_mem _ hmem, fun x hx => ?_⟩
      rcases List.mem_cons.1 hx with rfl | hx
      · exact hle
      · exact hhighest x hx
    · have hlt : h.txn < f.txn := UInt64.not_le.1 hle
      refine ⟨f, List.mem_cons_self, fun x hx => ?_⟩
      rcases List.mem_cons.1 hx with rfl | hx
      · exact UInt64.le_refl _
      · exact UInt64.le_trans (hhighest x hx) (UInt64.le_of_lt hlt)

theorem newest?_eq_none_iff {facts : List StoredFact} : newest? facts = none ↔ facts = [] := by
  constructor
  · intro hnone
    by_cases hempty : facts = []
    · exact hempty
    · obtain ⟨h, hmem, hhighest⟩ := exists_highest hempty
      have hkept : h ∈ facts.filter (isHighest facts) := List.mem_filter.2 ⟨hmem, isHighest_iff.2 hhighest⟩
      rw [List.getLast?_eq_none_iff.1 hnone] at hkept
      cases hkept
  · rintro rfl
    rfl

/-- **One more fact** is the newest, unless a fact before it has a higher transaction. -/
theorem newest?_append_singleton (facts : List StoredFact) (f : StoredFact) : newest? (facts ++ [f]) =
    match newest? facts with
    | none => some f
    | some h => some (if f.txn < h.txn then h else f) := by
  cases hnewest : newest? facts with
  | none =>
    rw [newest?_eq_none_iff.1 hnewest]
    simp [newest?, isHighest]
  | some h =>
    obtain ⟨hmem, hhighest⟩ := mem_of_newest? hnewest
    dsimp only
    by_cases hlt : f.txn < h.txn
    · -- the new fact is not among the highest, and all that are come up to it
      have hf : ¬isHighest (facts ++ [f]) f = true := fun hf =>
        absurd (isHighest_iff.1 hf h (List.mem_append_left _ hmem)) (UInt64.not_le.2 hlt)
      have hsame : facts.filter (isHighest (facts ++ [f])) = facts.filter (isHighest facts) := by
        refine List.filter_congr fun x _ => Bool.eq_iff_iff.2 ?_
        rw [isHighest_iff, isHighest_iff]
        refine ⟨fun hx x' hx' => hx x' (List.mem_append_left _ hx'), fun hx x' hx' => ?_⟩
        rcases List.mem_append.1 hx' with hx' | hx'
        · exact hx x' hx'
        · rw [List.mem_singleton.1 hx']
          exact UInt64.le_trans (UInt64.le_of_lt hlt) (hx h hmem)
      rw [if_pos hlt, newest?, List.filter_append, hsame, List.filter_cons_of_neg hf, List.filter_nil, List.append_nil]
      exact hnewest
    · -- the new fact is among the highest, and comes behind all others
      have hf : isHighest (facts ++ [f]) f = true := by
        refine isHighest_iff.2 fun x hx => ?_
        rcases List.mem_append.1 hx with hx | hx
        · exact UInt64.le_trans (hhighest x hx) (UInt64.not_lt.1 hlt)
        · exact List.mem_singleton.1 hx ▸ UInt64.le_refl _
      rw [if_neg hlt, newest?, List.filter_append, List.filter_cons_of_pos hf, List.filter_nil, List.getLast?_concat]

end StoredFact

namespace Projection

open StoredFact (place newest? newest?_append_singleton newest?_eq_none_iff mem_of_newest?)

/-- The facts of a group. -/
def groupOf (facts : List StoredFact) (p : Identifier × Identifier) : List StoredFact :=
  facts.filter fun f => decide (f.place = p)

/-- The one fact that a group is represented by. -/
def newestOf (facts : List StoredFact) (p : Identifier × Identifier) : Option StoredFact := newest? (groupOf facts p)

/-- The facts that answers are made of.  Where only the newest are asked for, it is one for each entity and attribute, in
the order of the groups' first facts. -/
def representatives (newestOnly : Bool) (facts : List StoredFact) : List StoredFact :=
  if newestOnly then (facts.map place).eraseDups.filterMap (newestOf facts) else facts

variable {facts : List StoredFact} {f : StoredFact} {p : Identifier × Identifier}

theorem exists_newestOf (hp : p ∈ facts.map place) : ∃ h, newestOf facts p = some h ∧ h.place = p := by
  obtain ⟨f, hf, rfl⟩ := List.mem_map.1 hp
  have hgroup : f ∈ groupOf facts f.place := List.mem_filter.2 ⟨hf, decide_eq_true rfl⟩
  cases hnewest : newestOf facts f.place with
  | none =>
    rw [newest?_eq_none_iff.1 hnewest] at hgroup
    cases hgroup
  | some h => exact ⟨h, rfl, of_decide_eq_true (List.mem_filter.1 (mem_of_newest? hnewest).1).2⟩

theorem newestOf_append_same (hp : f.place = p) : newestOf (facts ++ [f]) p =
    match newestOf facts p with
    | none => some f
    | some h => some (if f.txn < h.txn then h else f) := by
  have hgroup : groupOf (facts ++ [f]) p = groupOf facts p ++ [f] := by
    simp [groupOf, hp]
  rw [newestOf, hgroup]
  exact newest?_append_singleton ..

theorem newestOf_append_other (hp : f.place ≠ p) : newestOf (facts ++ [f]) p = newestOf facts p := by
  have hgroup : groupOf (facts ++ [f]) p = groupOf facts p := by
    simp [groupOf, hp]
  rw [newestOf, hgroup, newestOf]

/-- **Superseding changes the group of the fact**, or adds it at the end. -/
theorem supersede_filterMap (f : StoredFact) : ∀ {places : List (Identifier × Identifier)}, places.Nodup →
    (∀ p ∈ places, p ∈ facts.map place) →
      supersede f (places.filterMap (newestOf facts)) =
        if f.place ∈ places then places.filterMap (newestOf (facts ++ [f]))
        else places.filterMap (newestOf facts) ++ [f]
  | [], _, _ => rfl
  | p :: places, hnodup, hseen => by
    obtain ⟨hp, hrest⟩ := List.nodup_cons.1 hnodup
    obtain ⟨h, hnewest, hplace⟩ := exists_newestOf (hseen p List.mem_cons_self)
    have halike : h.entity = f.entity ∧ h.attr = f.attr ↔ f.place = p := by
      rw [← hplace, eq_comm (a := f.place), StoredFact.place, StoredFact.place, Prod.mk.injEq]
    rw [List.filterMap_cons_some hnewest, supersede]
    by_cases hfp : f.place = p
    · -- the group of the fact comes here, and all later groups are others
      have hothers : places.filterMap (newestOf facts) = places.filterMap (newestOf (facts ++ [f])) :=
        List.filterMap_congr fun q hq => (newestOf_append_other fun hfq => hp (hfp ▸ hfq ▸ hq)).symm
      have hchanged : newestOf (facts ++ [f]) p = some (if f.txn < h.txn then h else f) := by
        rw [newestOf_append_same hfp, hnewest]
      rw [if_pos (halike.2 hfp), if_pos (List.mem_cons.2 (.inl hfp)), List.filterMap_cons_some hchanged, hothers]
    · have hsame : newestOf (facts ++ [f]) p = some h := (newestOf_append_other hfp).trans hnewest
      have hmem : f.place ∈ p :: places ↔ f.place ∈ places := by
        rw [List.mem_cons, or_iff_right hfp]
      rw [if_neg fun heq => hfp (halike.1 heq),
        supersede_filterMap f hrest fun q hq => hseen q (List.mem_cons_of_mem _ hq), List.filterMap_cons_some hsame]
      simp only [hmem]
      split <;> rfl

/-- **The standing facts are the representatives**, whatever order the facts come in. -/
theorem standing_eq_representatives (newestOnly : Bool) (facts : List StoredFact) :
    standing newestOnly facts = representatives newestOnly facts := by
  cases newestOnly with
  | false => rfl
  | true =>
    induction facts using List.reverseRecOn with
    | nil => rfl
    | append_singleton facts f ih =>
      have hseen : ∀ p ∈ (facts.map place).eraseDups, p ∈ facts.map place := fun p hp => List.mem_eraseDups.1 hp
      rw [standing_append_singleton, ih, representatives, representatives, if_pos rfl, if_pos rfl,
        supersede_filterMap f (nodup_eraseDups _) hseen, List.map_append, List.map_singleton, eraseDups_append_singleton]
      by_cases hplace : f.place ∈ facts.map place
      · rw [if_pos (List.mem_eraseDups.2 hplace), if_pos hplace]
      · -- the first fact of its group: the other groups keep theirs
        have hothers : (facts.map place).eraseDups.filterMap (newestOf facts) =
            (facts.map place).eraseDups.filterMap (newestOf (facts ++ [f])) :=
          List.filterMap_congr fun p hp => (newestOf_append_other fun hfp => hplace (hfp ▸ hseen p hp)).symm
        have hnone : groupOf facts f.place = [] := List.filter_eq_nil_iff.2 fun f' hf' heq =>
          hplace (of_decide_eq_true heq ▸ List.mem_map_of_mem hf')
        have hfirst : newestOf (facts ++ [f]) f.place = some f := by
          rw [newestOf_append_same rfl, newestOf, hnone]
          rfl
        rw [if_neg fun hmem => hplace (hseen _ hmem), if_neg hplace, List.filterMap_append, hothers,
          List.filterMap_cons_some hfirst]
        rfl

/-! ## Reading the keys -/

variable {g : Goal}

/-- Reading stops at the first key that cannot be read. -/
theorem mapM_of_error {key : String} {after : List String} {e : Key.Error}
    (hkey : StoredFact.decode key = .error e) : ∀ {before : List String},
      (∀ k ∈ before, ∃ f, StoredFact.decode k = .ok f) →
        (before ++ key :: after).mapM StoredFact.decode = .error e
  | [], _ => by
    rw [List.nil_append, List.mapM_cons, hkey]
    rfl
  | k :: before, hbefore => by
    obtain ⟨f, hf⟩ := hbefore k List.mem_cons_self
    rw [List.cons_append, List.mapM_cons, hf, mapM_of_error hkey fun k' hk' => hbefore k' (List.mem_cons_of_mem _ hk')]
    rfl

theorem mapM_of_map_eq : ∀ {keys : List String} {facts : List StoredFact},
    keys.map StoredFact.decode = facts.map .ok → keys.mapM StoredFact.decode = .ok facts
  | [], facts, h => by
    rw [List.map_eq_nil_iff.1 h.symm]
    rfl
  | key :: keys, [], h => by cases h
  | key :: keys, f :: facts, h => by
    obtain ⟨hkey, hkeys⟩ := List.cons.inj h
    rw [List.mapM_cons, hkey, mapM_of_map_eq hkeys]
    rfl

/-- Without variables all projections are the same. -/
theorem project_of_openPlaces_nil (hopen : g.openPlaces = []) (f : StoredFact) : project g f = [] := by
  rw [project, hopen]
  rfl

theorem standing_ne_nil (newestOnly : Bool) (hfacts : facts ≠ []) : standing newestOnly facts ≠ [] := by
  rw [standing_eq_representatives]
  cases newestOnly with
  | false => exact hfacts
  | true =>
    obtain ⟨f, rest, rfl⟩ := List.exists_cons_of_ne_nil hfacts
    have hplace : f.place ∈ (f :: rest).map place := List.mem_map_of_mem List.mem_cons_self
    obtain ⟨h, hnewest, -⟩ := exists_newestOf hplace
    exact List.ne_nil_of_mem (List.mem_filterMap.2 ⟨_, List.mem_eraseDups.2 hplace, hnewest⟩)

/-- **What keys give.**  The keys come in any order, and some of them may be unreadable: then the error of the first such
key is the result.  Otherwise the result is the projections of the representatives, each where it comes first.  It has
every one of these projections, and only them.  Without variables there is one answer, which binds nothing, as soon as
there is a key. -/
theorem ofKeys_gives_representatives (g : Goal) (keys : List String) :
    (∀ before key after e, keys = before ++ key :: after → (∀ k ∈ before, ∃ f, StoredFact.decode k = .ok f) →
      StoredFact.decode key = .error e → ofKeys g keys = .error e) ∧
    ∀ facts, keys.map StoredFact.decode = facts.map .ok →
      ∃ answers, ofKeys g keys = .ok answers ∧
        answers = ((representatives g.wantsNewest facts).map (project g)).eraseDups ∧
        answers.Nodup ∧ (∀ p, p ∈ answers ↔ ∃ f ∈ representatives g.wantsNewest facts, project g f = p) ∧
        (g.openPlaces = [] → keys ≠ [] → answers = [[]]) := by
  refine ⟨?_, fun facts hfacts => ?_⟩
  · rintro before key after e rfl hbefore hkey
    rw [ofKeys_eq, mapM_of_error hkey hbefore]
    rfl
  · refine ⟨((representatives g.wantsNewest facts).map (project g)).eraseDups, ?_, rfl, nodup_eraseDups _, fun p => ?_,
      fun hopen hkeys => ?_⟩
    · rw [ofKeys_eq, mapM_of_map_eq hfacts, ← standing_eq_representatives]
      rfl
    · rw [List.mem_eraseDups, List.mem_map]
    · have hfacts' : facts ≠ [] := by
        rintro rfl
        exact hkeys (List.map_eq_nil_iff.1 hfacts)
      rw [← standing_eq_representatives]
      refine eraseDups_of_forall_eq (fun hnil => standing_ne_nil _ hfacts' (List.map_eq_nil_iff.1 hnil)) fun p hp => ?_
      obtain ⟨f, -, rfl⟩ := List.mem_map.1 hp
      exact project_of_openPlaces_nil hopen f

/-- Keys in an order that no scan gives: the second group comes between the facts of the first, and of these the second
is older and the last two are of the highest transaction. -/
def unorderedKeys : List String := ["eavto!ab!name!bob!000003!1", "aevto!name!cd!eve!000001!1",
  "eavto!ab!name!rob!000002!1", "eavto!ab!name!ann!000003!0"]

theorem ofKeys_gives_representatives_unorderedKeys :
    let g : Goal := ⟨.var "?e", .blank, .var "?v", .blank, .var "?e"⟩
    ofKeys g unorderedKeys = .ok
      [[("?e", .hashed ⟨"ab"⟩), ("?v", .hashed ⟨"ann"⟩), ("?e", .native (.boolean false))],
        [("?e", .hashed ⟨"cd"⟩), ("?v", .hashed ⟨"eve"⟩), ("?e", .native (.boolean true))]] ∧
      ofKeys g (unorderedKeys ++ "eavto!ab!name" :: unorderedKeys) = .error (.malformed "eavto!ab!name") := by
  intro g
  have hdecode : unorderedKeys.map StoredFact.decode =
      [⟨⟨"ab"⟩, ⟨"name"⟩, ⟨"bob"⟩, 3, true⟩, ⟨⟨"cd"⟩, ⟨"name"⟩, ⟨"eve"⟩, 1, true⟩,
        ⟨⟨"ab"⟩, ⟨"name"⟩, ⟨"rob"⟩, 2, true⟩, ⟨⟨"ab"⟩, ⟨"name"⟩, ⟨"ann"⟩, 3, false⟩].map .ok := by cbv
  have hread : ∀ k ∈ unorderedKeys, ∃ f, StoredFact.decode k = .ok f := by
    intro k hk
    have hmem := List.mem_map_of_mem (f := StoredFact.decode) hk
    rw [hdecode] at hmem
    obtain ⟨f, -, hf⟩ := List.mem_map.1 hmem
    exact ⟨f, hf.symm⟩
  have hbad : StoredFact.decode "eavto!ab!name" = .error (.malformed "eavto!ab!name") := by cbv
  refine ⟨?_, (ofKeys_gives_representatives g _).1 unorderedKeys _ unorderedKeys _ rfl hread hbad⟩
  obtain ⟨answers, hanswers, heq, -⟩ := (ofKeys_gives_representatives g unorderedKeys).2 _ hdecode
  rw [hanswers, heq]
  decide +kernel

end Projection
end FactBase
