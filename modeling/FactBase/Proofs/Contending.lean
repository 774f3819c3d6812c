import FactBase.Proofs.Standing
/-!
# Contending — the places among the answers, and what is handed out for them

The contest for the places reflects the facts seen so far (`Contest.Reflects`): it has one holder for each standing fact,
and under the mark of each holder the projection of its fact.  Identifiers that were read off a key hold no separator,
so a mark belongs to one projection only (`mark_inj`), and no candidate displaces another.  Handing the candidates out
is then the same as taking the projections of the standing facts without their repetitions (`ofKeys_eq`).
-/
namespace FactBase

/-! ## Marks -/

namespace Projection

variable {g : Goal} {f f' : StoredFact}

theorem separator_notMem_text (hf : f.IsWhole) (pos : Position) : Key.separator ∉ (cell f pos).text.toList := by
  cases pos with
  | entity => exact hf .entity
  | attr => exact hf .attr
  | value => exact hf .value
  | txn => exact fun hsep => absurd (Numeral.isPlain_of_mem_decimal hsep).1 (Char.lt_irrefl _)
  | operation => exact hf .operation

/-- At one position the text of a cell names the cell. -/
theorem cell_eq_of_text {pos : Position} (h : (cell f pos).text = (cell f' pos).text) : cell f pos = cell f' pos := by
  cases pos with
  | entity => exact congrArg (fun segment => Cell.hashed ⟨segment⟩) h
  | attr => exact congrArg (fun segment => Cell.hashed ⟨segment⟩) h
  | value => exact congrArg (fun segment => Cell.hashed ⟨segment⟩) h
  | txn => exact congrArg (fun txn => Cell.native (.integer txn)) (UInt64.toNat_inj.1 (Numeral.decimal_inj h))
  | operation => exact congrArg (fun b => Cell.native (.boolean b)) (Segment.ofOperation_inj h)

/-- **A mark belongs to one projection.** -/
theorem mark_inj (hf : f.IsWhole) (hf' : f'.IsWhole) (h : (project g f).mark = (project g f').mark) :
    project g f = project g f' := by
  have htexts : ∀ {f : StoredFact}, f.IsWhole → ∀ s ∈ (project g f).map fun entry => entry.2.text,
      Key.separator ∉ s.toList := by
    intro f hf s hs
    obtain ⟨entry, hentry, rfl⟩ := List.mem_map.1 hs
    obtain ⟨place, -, rfl⟩ := List.mem_map.1 hentry
    exact separator_notMem_text hf place.1
  have hlength : ((project g f).map fun entry => entry.2.text).length =
      ((project g f').map fun entry => entry.2.text).length := by
    simp only [project, List.length_map]
  have hjoined := Key.join_inj (htexts hf) (htexts hf') hlength h
  rw [project, project, List.map_map, List.map_map] at hjoined
  refine List.map_congr_left fun place hplace => ?_
  exact congrArg (Prod.mk place.2) (cell_eq_of_text (List.map_inj_left.1 hjoined place hplace))

/-! ## Handing out -/

namespace Contest

/-- **Handing out takes repetitions away.**  The holders' marks are those of projections, and each candidate that is
left under one of these marks is the projection itself. -/
theorem handOut_eq : ∀ {holders : List Holder} {projections : List Projection} {candidates : KeyMap Projection},
    holders.map Holder.mark = projections.map mark →
    (∀ p ∈ projections, ∀ q ∈ projections, p.mark = q.mark → p = q) →
    (∀ p ∈ projections, ∀ q, candidates.get? p.mark = some q → q = p) →
      handOut holders candidates = (projections.filter fun p => (candidates.get? p.mark).isSome).eraseDups
  | [], [], _, _, _, _ => rfl
  | h :: holders, p :: projections, candidates, hmarks, hinj, hown => by
    have hmark : h.mark = p.mark := (List.cons.inj hmarks).1
    have hrest : holders.map Holder.mark = projections.map mark := (List.cons.inj hmarks).2
    have hinj' : ∀ q ∈ projections, ∀ r ∈ projections, q.mark = r.mark → q = r := fun q hq r hr =>
      hinj q (List.mem_cons_of_mem _ hq) r (List.mem_cons_of_mem _ hr)
    rw [handOut, hmark]
    cases hget : candidates.get? p.mark with
    | none =>
      rw [List.filter_cons_of_neg (by simp [hget])]
      exact handOut_eq hrest hinj' fun q hq => hown q (List.mem_cons_of_mem _ hq)
    | some q =>
      obtain rfl : q = p := hown p List.mem_cons_self q hget
      rw [List.filter_cons_of_pos (by simp [hget]), List.eraseDups_cons, List.filter_filter]
      dsimp only
      congr 1
      rw [handOut_eq hrest hinj' fun r hr r' hr' => ?_]
      · -- the erased mark is that of the projection just handed out, and of no other one
        congr 1
        refine List.filter_congr fun r hr => ?_
        rw [KeyMap.get?_erase]
        by_cases hrq : r = q
        · simp [hrq]
        · have hne : q.mark ≠ r.mark := fun heq =>
            hrq (hinj r (List.mem_cons_of_mem _ hr) q List.mem_cons_self heq.symm)
          simp [hne, hrq]
      · rw [KeyMap.get?_erase] at hr'
        split at hr'
        · cases hr'
        · exact hown r (List.mem_cons_of_mem _ hr) r' hr'

end Contest

/-! ## Places -/

theorem mem_of_mem_supersede {x : StoredFact} : ∀ {newest : List StoredFact}, x ∈ supersede f newest →
    x ∈ newest ∨ x = f
  | [], hx => .inr (List.mem_singleton.1 hx)
  | h :: rest, hx => by
    unfold supersede at hx
    split at hx
    · rcases List.mem_cons.1 hx with rfl | hx
      · split
        · exact .inl List.mem_cons_self
        · exact .inr rfl
      · exact .inl (List.mem_cons_of_mem _ hx)
    · rcases List.mem_cons.1 hx with rfl | hx
      · exact .inl List.mem_cons_self
      · exact (mem_of_mem_supersede hx).imp_left (List.mem_cons_of_mem _)

theorem standing_append_singleton (facts : List StoredFact) (f : StoredFact) :
    standing true (facts ++ [f]) = supersede f (standing true facts) := by
  rw [standing, standing, if_pos rfl, if_pos rfl, List.foldl_append]
  rfl

/-- Only facts that were seen stand. -/
theorem standing_subset (newestOnly : Bool) (facts : List StoredFact) : standing newestOnly facts ⊆ facts := by
  cases newestOnly with
  | false => exact fun _ hx => hx
  | true =>
    induction facts using List.reverseRecOn with
    | nil => exact fun _ hx => hx
    | append_singleton facts f ih =>
      intro x hx
      rw [standing_append_singleton] at hx
      rcases mem_of_mem_supersede hx with hx | rfl
      · exact List.mem_append_left _ (ih hx)
      · exact List.mem_append_right _ (List.mem_singleton_self x)

theorem mem_of_mem_seat {h x : Holder} : ∀ {holders : List Holder}, x ∈ h.seat holders → x ∈ holders ∨ x = h
  | [], hx => .inr (List.mem_singleton.1 hx)
  | h' :: rest, hx => by
    unfold Holder.seat at hx
    split at hx
    · rcases List.mem_cons.1 hx with rfl | hx
      · exact .inr rfl
      · exact .inl (List.mem_cons_of_mem _ hx)
    · rcases List.mem_cons.1 hx with rfl | hx
      · exact .inl List.mem_cons_self
      · exact (mem_of_mem_seat hx).imp_left (List.mem_cons_of_mem _)

/-- A place that nobody holds is a new one at the end. -/
theorem seat_of_new {h : Holder} : ∀ {holders : List Holder}, (∀ h' ∈ holders, h'.place ≠ h.place) →
    h.seat holders = holders ++ [h]
  | [], _ => rfl
  | h' :: rest, hnew => by
    rw [Holder.seat, if_neg (hnew h' List.mem_cons_self),
      seat_of_new fun h'' hh => hnew h'' (List.mem_cons_of_mem _ hh)]
    rfl

/-- What a fact is in the place that it gets. -/
def holderOf (g : Goal) (number : Nat) (f : StoredFact) : Holder :=
  ⟨placeOf g.wantsNewest number f, f.txn, (project g f).mark⟩

/-- The holders that the facts seen so far leave. -/
def seated (g : Goal) (seen : List StoredFact) : List Holder :=
  if g.wantsNewest then (standing true seen).map (holderOf g 0)
  else seen.zipIdx.map fun entry => holderOf g entry.2 entry.1

theorem placeOf_eq_iff (hnewest : g.wantsNewest = true) {number number' : Nat} :
    placeOf g.wantsNewest number f = placeOf g.wantsNewest number' f' ↔ f.entity = f'.entity ∧ f.attr = f'.attr := by
  rw [placeOf, placeOf, if_pos hnewest, if_pos hnewest, Place.newest.injEq]

theorem holderOf_eq (hnewest : g.wantsNewest = true) (number : Nat) : holderOf g number f = holderOf g 0 f := by
  have hplace : placeOf g.wantsNewest number f = placeOf g.wantsNewest 0 f := (placeOf_eq_iff hnewest).2 ⟨rfl, rfl⟩
  rw [holderOf, hplace]
  rfl

/-- **Superseding a fact is taking its place**, unless its transaction is the higher one. -/
theorem map_holderOf_supersede (hnewest : g.wantsNewest = true) : ∀ newest : List StoredFact,
    (supersede f newest).map (holderOf g 0) =
      if ((newest.map (holderOf g 0)).find? fun h => h.place = (holderOf g 0 f).place).any fun h => f.txn < h.txn
      then newest.map (holderOf g 0) else (holderOf g 0 f).seat (newest.map (holderOf g 0))
  | [] => rfl
  | h :: rest => by
    have hplace : (holderOf g 0 h).place = (holderOf g 0 f).place ↔ h.entity = f.entity ∧ h.attr = f.attr :=
      placeOf_eq_iff hnewest
    rw [List.map_cons, supersede, Holder.seat, List.find?_cons]
    by_cases hsame : h.entity = f.entity ∧ h.attr = f.attr
    · rw [if_pos hsame, if_pos (hplace.2 hsame), decide_eq_true (hplace.2 hsame)]
      dsimp only [Option.any_some]
      by_cases hlt : f.txn < h.txn
      · have hlt' : decide (f.txn < (holderOf g 0 h).txn) = true := decide_eq_true hlt
        rw [if_pos hlt, if_pos hlt']
        rfl
      · have hlt' : ¬decide (f.txn < (holderOf g 0 h).txn) = true := fun htrue => hlt (of_decide_eq_true htrue)
        rw [if_neg hlt, if_neg hlt']
        rfl
    · rw [if_neg hsame, if_neg fun heq => hsame (hplace.1 heq), decide_eq_false fun heq => hsame (hplace.1 heq),
        List.map_cons, map_holderOf_supersede hnewest rest]
      split <;> rfl

namespace Contest

/-- The contest reflects the facts that were seen: they leave its holders, each holder has a candidate, and the candidates
are projections of facts, each under its mark. -/
structure Reflects (g : Goal) (seen : List StoredFact) (c : Contest) : Prop where
  holders : c.holders = seated g seen
  kept : ∀ h ∈ c.holders, (c.candidates.get? h.mark).isSome = true
  own : ∀ text q, c.candidates.get? text = some q → ∃ f ∈ seen, text = (project g f).mark ∧ q = project g f

theorem reflects_start (g : Goal) : Reflects g [] .start where
  holders := by cases h : g.wantsNewest <;> simp [start, seated, standing, h]
  kept := fun h hh => by cases hh
  own := fun text q hq => by cases hq

variable {c : Contest} {seen : List StoredFact}

/-- What entering a fact does, in each of the two cases. -/
theorem holders_enter (number : Nat) (f : StoredFact) :
    (c.enter g number f).holders =
      if (c.holders.find? fun h => h.place = (holderOf g number f).place).any fun h => f.txn < h.txn then c.holders
      else (holderOf g number f).seat c.holders := by
  unfold enter
  exact apply_ite Contest.holders ..

/-- **The next fact** is numbered by how many were seen before it. -/
theorem seated_append_singleton (g : Goal) (seen : List StoredFact) (f : StoredFact) :
    seated g (seen ++ [f]) =
      if ((seated g seen).find? fun h => h.place = (holderOf g seen.length f).place).any fun h => f.txn < h.txn
      then seated g seen else (holderOf g seen.length f).seat (seated g seen) := by
  unfold seated
  by_cases hnewest : g.wantsNewest = true
  · simp only [if_pos hnewest]
    rw [standing_append_singleton, map_holderOf_supersede hnewest, holderOf_eq hnewest seen.length]
  · simp only [if_neg hnewest]
    have hnew : ∀ h ∈ seen.zipIdx.map fun entry => holderOf g entry.2 entry.1,
        h.place ≠ (holderOf g seen.length f).place := by
      intro h hh
      obtain ⟨⟨f', number⟩, hentry, rfl⟩ := List.mem_map.1 hh
      have hlt := (List.mem_zipIdx' hentry).1
      rw [holderOf, holderOf, placeOf, placeOf, if_neg hnewest, if_neg hnewest]
      intro heq
      exact absurd (Place.scanned.inj heq) (Nat.ne_of_lt hlt)
    have hnone : (seen.zipIdx.map fun entry => holderOf g entry.2 entry.1).find?
        (fun h => h.place = (holderOf g seen.length f).place) = none :=
      List.find?_eq_none.2 fun h hh htrue => hnew h hh (of_decide_eq_true htrue)
    rw [hnone, seat_of_new hnew, List.zipIdx_append, List.map_append]
    simp

theorem Reflects.enter (hc : Reflects g seen c) (f : StoredFact) : Reflects g (seen ++ [f]) (c.enter g seen.length f) where
  holders := by rw [holders_enter, hc.holders, seated_append_singleton]
  kept := by
    unfold Contest.enter
    dsimp only
    split
    · exact hc.kept
    · intro h hh
      rw [KeyMap.get?_insert]
      split
      · rfl
      · rename_i hmark
        rcases mem_of_mem_seat hh with hh | rfl
        · exact hc.kept h hh
        · exact absurd rfl hmark
  own := by
    have hmono : ∀ text q, c.candidates.get? text = some q →
        ∃ f' ∈ seen ++ [f], text = (project g f').mark ∧ q = project g f' := by
      intro text q hq
      obtain ⟨f', hf', hmark⟩ := hc.own text q hq
      exact ⟨f', List.mem_append_left _ hf', hmark⟩
    unfold Contest.enter
    dsimp only
    split
    · exact hmono
    · intro text q hq
      rw [KeyMap.get?_insert] at hq
      split at hq
      · rename_i hmark
        exact ⟨f, List.mem_append_right _ (List.mem_singleton_self f), hmark.symm, (Option.some.inj hq).symm⟩
      · exact hmono text q hq

/-- **Entering keys** reads them, up to the first that cannot be read, and reflects their facts. -/
theorem enterKeys_spec : ∀ (keys : List String) {seen : List StoredFact} {c : Contest}, Reflects g seen c →
    match keys.mapM StoredFact.decode with
    | .ok facts => ∃ c', enterKeys g seen.length keys c = .ok c' ∧ Reflects g (seen ++ facts) c'
    | .error e => enterKeys g seen.length keys c = .error e
  | [], seen, c, hc => ⟨c, rfl, (List.append_nil seen).symm ▸ hc⟩
  | key :: keys, seen, c, hc => by
    rw [List.mapM_cons, enterKeys]
    cases hkey : StoredFact.decode key with
    | error e => rfl
    | ok f =>
      have hrest := enterKeys_spec keys (hc.enter f)
      rw [List.length_append, List.length_singleton] at hrest
      cases hkeys : keys.mapM StoredFact.decode with
      | error e =>
        rw [hkeys] at hrest
        exact hrest
      | ok facts =>
        rw [hkeys] at hrest
        obtain ⟨c', henter, hc'⟩ := hrest
        refine ⟨c', henter, ?_⟩
        rwa [List.append_assoc] at hc'

end Contest

theorem map_mark_seated (g : Goal) (seen : List StoredFact) :
    (seated g seen).map Holder.mark = ((standing g.wantsNewest seen).map (project g)).map mark := by
  unfold seated
  split
  · rename_i hnewest
    rw [hnewest, List.map_map, List.map_map]
    rfl
  · rename_i hnewest
    rw [Bool.eq_false_iff.2 hnewest, standing, if_neg Bool.false_ne_true, List.map_map, List.map_map]
    conv => rhs; rw [← List.zipIdx_map_fst 0 seen, List.map_map]
    rfl

theorem isWhole_of_mapM : ∀ {keys : List String} {facts : List StoredFact},
    keys.mapM StoredFact.decode = .ok facts → ∀ f ∈ facts, f.IsWhole
  | [], facts, h, f, hf => by
    obtain rfl := Except.ok.inj h
    cases hf
  | key :: keys, facts, h, f, hf => by
    rw [List.mapM_cons] at h
    cases hkey : StoredFact.decode key with
    | error e => rw [hkey] at h; cases h
    | ok f' =>
      cases hkeys : keys.mapM StoredFact.decode with
      | error e => rw [hkey, hkeys] at h; cases h
      | ok facts' =>
        rw [hkey, hkeys] at h
        obtain rfl := Except.ok.inj h
        rcases List.mem_cons.1 hf with rfl | hf
        · exact StoredFact.isWhole_of_decode hkey
        · exact isWhole_of_mapM hkeys f hf

/-- **What keys give**: the error of the first that cannot be read, or the projections of the standing facts, each once. -/
theorem ofKeys_eq (g : Goal) (keys : List String) : ofKeys g keys =
    (keys.mapM StoredFact.decode).map fun facts => ((standing g.wantsNewest facts).map (project g)).eraseDups := by
  have hspec := Contest.enterKeys_spec keys (Contest.reflects_start g)
  rw [List.length_nil] at hspec
  unfold ofKeys
  cases hfacts : keys.mapM StoredFact.decode with
  | error e =>
    rw [hfacts] at hspec
    rw [hspec]
    rfl
  | ok facts =>
    rw [hfacts] at hspec
    obtain ⟨c, henter, hc⟩ := hspec
    rw [henter]
    rw [List.nil_append] at hc
    have hwhole : ∀ f ∈ standing g.wantsNewest facts, f.IsWhole := fun f hf =>
      isWhole_of_mapM hfacts f (standing_subset _ facts hf)
    have hmarks : c.holders.map Holder.mark = ((standing g.wantsNewest facts).map (project g)).map mark := by
      rw [hc.holders, map_mark_seated]
    refine congrArg Except.ok ((Contest.handOut_eq hmarks (fun p hp q hq hmark => ?_) fun p hp q hq => ?_).trans ?_)
    · obtain ⟨f, hf, rfl⟩ := List.mem_map.1 hp
      obtain ⟨f', hf', rfl⟩ := List.mem_map.1 hq
      exact mark_inj (hwhole f hf) (hwhole f' hf') hmark
    · obtain ⟨f, hf, rfl⟩ := List.mem_map.1 hp
      obtain ⟨f', hf', hmark, rfl⟩ := hc.own _ q hq
      exact (mark_inj (hwhole f hf) (isWhole_of_mapM hfacts f' hf') hmark).symm
    · rw [List.filter_eq_self.2 fun p hp => ?_]
      have hmem : p.mark ∈ c.holders.map Holder.mark := hmarks ▸ List.mem_map_of_mem hp
      obtain ⟨h, hh, hmark⟩ := List.mem_map.1 hmem
      exact hmark ▸ hc.kept h hh

end Projection
end FactBase
