import FactBase.Proofs.Codec
import FactBase.Query.Projection
/-!
# Standing — the newest fact of each entity and attribute

Facts are taken in the order of their keys.  What has been kept so far has one fact of each entity and attribute seen,
and that fact is of the highest transaction and, of several, has the greatest key (`Newest`).  So the standing facts
are those that no other one comes after (`mem_standing`).
-/
namespace FactBase

namespace StoredFact

/-- Of one entity and one attribute. -/
def Alike (s s' : StoredFact) : Prop := s.entity = s'.entity ∧ s.attr = s'.attr

/-- Of an earlier transaction, or of the same one and with a key that is not greater. -/
def NoNewer (s s' : StoredFact) : Prop := s.txn < s'.txn ∨ s.txn = s'.txn ∧ s.key ≤ s'.key

/-- The newest of its entity and attribute. -/
def Tops (facts : List StoredFact) (s : StoredFact) : Prop := s ∈ facts ∧ ∀ s' ∈ facts, s'.Alike s → s'.NoNewer s

theorem Alike.refl (s : StoredFact) : s.Alike s := ⟨rfl, rfl⟩

theorem Alike.symm {s s' : StoredFact} (h : s.Alike s') : s'.Alike s := ⟨h.1.symm, h.2.symm⟩

theorem Alike.trans {s s' s'' : StoredFact} (h : s.Alike s') (h' : s'.Alike s'') : s.Alike s'' :=
  ⟨h.1.trans h'.1, h.2.trans h'.2⟩

theorem NoNewer.txn_le {s s' : StoredFact} (h : s.NoNewer s') : s.txn ≤ s'.txn := by
  rcases h with h | ⟨h, -⟩
  · exact UInt64.le_of_lt h
  · exact h ▸ UInt64.le_refl _

theorem noNewer_of_le {s s' : StoredFact} (htxn : s.txn ≤ s'.txn) (hkey : s.key ≤ s'.key) : s.NoNewer s' := by
  by_cases h : s.txn = s'.txn
  · exact .inr ⟨h, hkey⟩
  · exact .inl (UInt64.lt_of_le_of_ne htxn h)

theorem NoNewer.key_eq {s s' : StoredFact} (h : s.NoNewer s') (h' : s'.NoNewer s) : s.key = s'.key := by
  have htxn : s.txn = s'.txn := UInt64.le_antisymm h.txn_le h'.txn_le
  rcases h with h | ⟨-, h⟩
  · exact absurd (htxn ▸ h) (UInt64.lt_irrefl _)
  · rcases h' with h' | ⟨-, h'⟩
    · exact absurd (htxn ▸ h') (UInt64.lt_irrefl _)
    · exact String.le_antisymm h h'

end StoredFact

namespace Projection

open StoredFact (Alike NoNewer Tops)

/-- Takes a fact among the newest ones, in the place of its entity and attribute. -/
def supersede (f : StoredFact) : List StoredFact → List StoredFact
  | [] => [f]
  | h :: rest =>
    if h.entity = f.entity ∧ h.attr = f.attr then (if f.txn < h.txn then h else f) :: rest
    else h :: supersede f rest

/-- The facts that stand for answers, in the order in which their places were first taken. -/
def standing (newestOnly : Bool) (facts : List StoredFact) : List StoredFact :=
  if newestOnly then facts.foldl (fun newest f => supersede f newest) [] else facts

/-- No two facts of one entity and attribute. -/
def Apart (newest : List StoredFact) : Prop := newest.Pairwise fun s s' => ¬s.Alike s'

theorem alike_supersede (f : StoredFact) : ∀ newest : List StoredFact,
    (∃ h ∈ supersede f newest, f.Alike h) ∧ ∀ s ∈ newest, ∃ h ∈ supersede f newest, s.Alike h
  | [] => ⟨⟨f, List.mem_singleton_self f, .refl f⟩, fun s hs => (by cases hs)⟩
  | h :: rest => by
    unfold supersede
    split
    · rename_i halike
      have halike : h.Alike f := halike
      have hmem : ∃ g ∈ (if f.txn < h.txn then h else f) :: rest, f.Alike g := by
        refine ⟨_, List.mem_cons_self, ?_⟩
        split
        · exact halike.symm
        · exact .refl f
      refine ⟨hmem, fun s hs => ?_⟩
      rcases List.mem_cons.1 hs with rfl | hs
      · obtain ⟨g, hg, hfg⟩ := hmem
        exact ⟨g, hg, halike.trans hfg⟩
      · exact ⟨s, List.mem_cons_of_mem _ hs, .refl s⟩
    · obtain ⟨⟨g, hg, hfg⟩, hrest⟩ := alike_supersede f rest
      refine ⟨⟨g, List.mem_cons_of_mem _ hg, hfg⟩, fun s hs => ?_⟩
      rcases List.mem_cons.1 hs with rfl | hs
      · exact ⟨s, List.mem_cons_self, .refl s⟩
      · obtain ⟨g, hg, hsg⟩ := hrest s hs
        exact ⟨g, List.mem_cons_of_mem _ hg, hsg⟩

/-- What a fact leaves: the facts that it is not alike or does not come up to, and itself where it does. -/
theorem mem_supersede {f x : StoredFact} : ∀ {newest : List StoredFact}, Apart newest → x ∈ supersede f newest →
    (x ∈ newest ∧ (x.Alike f → f.txn < x.txn)) ∨ (x = f ∧ ∀ h ∈ newest, h.Alike f → h.txn ≤ f.txn)
  | [], _, hx => .inr ⟨List.mem_singleton.1 hx, fun h hh => by cases hh⟩
  | h :: rest, hapart, hx => by
    obtain ⟨hh, hrest⟩ := List.pairwise_cons.1 hapart
    unfold supersede at hx
    split at hx
    · rename_i halike
      have halike : h.Alike f := halike
      have hothers : ∀ g ∈ rest, ¬g.Alike f := fun g hg hgf => hh g hg (halike.trans hgf.symm)
      rcases List.mem_cons.1 hx with rfl | hx
      · split
        · rename_i hlt
          exact .inl ⟨List.mem_cons_self, fun _ => hlt⟩
        · rename_i hle
          refine .inr ⟨rfl, fun g hg hgf => ?_⟩
          rcases List.mem_cons.1 hg with rfl | hg
          · exact UInt64.not_lt.1 hle
          · exact absurd hgf (hothers g hg)
      · exact .inl ⟨List.mem_cons_of_mem _ hx, fun hxf => absurd hxf (hothers x hx)⟩
    · rename_i hne
      rcases List.mem_cons.1 hx with rfl | hx
      · exact .inl ⟨List.mem_cons_self, fun hxf => absurd hxf hne⟩
      · rcases mem_supersede hrest hx with ⟨hx, hlt⟩ | ⟨rfl, hle⟩
        · exact .inl ⟨List.mem_cons_of_mem _ hx, hlt⟩
        · refine .inr ⟨rfl, fun g hg hgf => ?_⟩
          rcases List.mem_cons.1 hg with rfl | hg
          · exact absurd hgf hne
          · exact hle g hg hgf

theorem apart_supersede (f : StoredFact) : ∀ {newest : List StoredFact}, Apart newest → Apart (supersede f newest)
  | [], _ => List.pairwise_singleton ..
  | h :: rest, hapart => by
    obtain ⟨hh, hrest⟩ := List.pairwise_cons.1 hapart
    unfold supersede
    split
    · rename_i halike
      have halike : h.Alike f := halike
      refine List.pairwise_cons.2 ⟨fun g hg => ?_, hrest⟩
      split
      · exact hh g hg
      · exact fun hfg => hh g hg (halike.trans hfg)
    · rename_i hne
      refine List.pairwise_cons.2 ⟨fun g hg => ?_, apart_supersede f hrest⟩
      rcases mem_supersede hrest hg with ⟨hg, -⟩ | ⟨rfl, -⟩
      · exact hh g hg
      · exact hne

/-- What is kept of the facts that were seen: the newest of each entity and attribute. -/
structure Newest (seen newest : List StoredFact) : Prop where
  apart : Apart newest
  tops : ∀ s ∈ newest, Tops seen s
  all : ∀ s ∈ seen, ∃ h ∈ newest, s.Alike h

/-- **One more fact**, whose key comes after those that were seen. -/
theorem Newest.supersede {seen newest : List StoredFact} (h : Newest seen newest) {f : StoredFact}
    (hlast : ∀ s ∈ seen, s.key < f.key) : Newest (seen ++ [f]) (Projection.supersede f newest) where
  apart := apart_supersede f h.apart
  tops := fun x hx => by
    -- keys ascend, so of two facts of one transaction the one seen later is the newer
    rcases mem_supersede h.apart hx with ⟨hx, hlt⟩ | ⟨rfl, hle⟩
    · obtain ⟨hmem, htop⟩ := h.tops x hx
      refine ⟨List.mem_append_left _ hmem, fun s hs hsx => ?_⟩
      rcases List.mem_append.1 hs with hs | hs
      · exact htop s hs hsx
      · obtain rfl := List.mem_singleton.1 hs
        exact .inl (hlt hsx.symm)
    · refine ⟨List.mem_append_right _ (List.mem_singleton_self x), fun s hs hsx => ?_⟩
      rcases List.mem_append.1 hs with hs | hs
      · obtain ⟨g, hg, hsg⟩ := h.all s hs
        have hsg' := (h.tops g hg).2 s hs hsg
        have hgx := hle g hg (hsg.symm.trans hsx)
        exact StoredFact.noNewer_of_le (UInt64.le_trans hsg'.txn_le hgx) (Std.le_of_lt (hlast s hs))
      · obtain rfl := List.mem_singleton.1 hs
        exact .inr ⟨rfl, String.le_refl _⟩
  all := fun s hs => by
    obtain ⟨hf, hnewest⟩ := alike_supersede f newest
    rcases List.mem_append.1 hs with hs | hs
    · obtain ⟨g, hg, hsg⟩ := h.all s hs
      obtain ⟨g', hg', hgg'⟩ := hnewest g hg
      exact ⟨g', hg', hsg.trans hgg'⟩
    · obtain rfl := List.mem_singleton.1 hs
      exact hf

theorem newest_foldl : ∀ {rest seen newest : List StoredFact}, Newest seen newest →
    (seen ++ rest).Pairwise (·.key < ·.key) →
      Newest (seen ++ rest) (rest.foldl (fun newest f => Projection.supersede f newest) newest)
  | [], seen, newest, h, _ => by
    rw [List.append_nil]
    exact h
  | f :: rest, seen, newest, h, hsorted => by
    have hlast : ∀ s ∈ seen, s.key < f.key := fun s hs => (List.pairwise_append.1 hsorted).2.2 s hs f List.mem_cons_self
    rw [List.append_cons] at hsorted ⊢
    exact newest_foldl (h.supersede hlast) hsorted

theorem newest_standing {facts : List StoredFact} (hsorted : facts.Pairwise (·.key < ·.key)) :
    Newest facts (standing true facts) := by
  have hnil : Newest [] [] := ⟨.nil, fun s hs => (by cases hs), fun s hs => (by cases hs)⟩
  exact newest_foldl hnil hsorted

theorem eq_of_key_eq {facts : List StoredFact} (hsorted : facts.Pairwise (·.key < ·.key)) {s s' : StoredFact}
    (hs : s ∈ facts) (hs' : s' ∈ facts) (hkey : s.key = s'.key) : s = s' := by
  obtain ⟨i, hi, rfl⟩ := List.mem_iff_getElem.1 hs
  obtain ⟨j, hj, rfl⟩ := List.mem_iff_getElem.1 hs'
  rw [List.pairwise_iff_getElem] at hsorted
  rcases Nat.lt_trichotomy i j with hij | rfl | hij
  · exact absurd (hsorted i j hi hj hij) (hkey ▸ String.lt_irrefl _)
  · rfl
  · exact absurd (hsorted j i hj hi hij) (hkey ▸ String.lt_irrefl _)

theorem eq_of_tops {facts : List StoredFact} (hsorted : facts.Pairwise (·.key < ·.key)) {s s' : StoredFact}
    (hs : Tops facts s) (hs' : Tops facts s') (halike : s.Alike s') : s = s' :=
  eq_of_key_eq hsorted hs.1 hs'.1 ((hs'.2 s hs.1 halike).key_eq (hs.2 s' hs'.1 halike.symm))

/-- **The standing facts, where only the newest are asked for**, are those that no fact of their entity and attribute
comes after. -/
theorem mem_standing {facts : List StoredFact} (hsorted : facts.Pairwise (·.key < ·.key)) {s : StoredFact} :
    s ∈ standing true facts ↔ Tops facts s := by
  have hnewest := newest_standing hsorted
  constructor
  · exact fun hs => hnewest.tops s hs
  · intro htops
    obtain ⟨h, hh, halike⟩ := hnewest.all s htops.1
    rw [eq_of_tops hsorted htops (hnewest.tops h hh) halike]
    exact hh

theorem mem_of_mem_standing {newestOnly : Bool} {facts : List StoredFact} (hsorted : facts.Pairwise (·.key < ·.key))
    {s : StoredFact} (h : s ∈ standing newestOnly facts) : s ∈ facts := by
  cases newestOnly with
  | false => exact h
  | true => exact ((mem_standing hsorted).1 h).1

theorem exists_tops {facts : List StoredFact} (hsorted : facts.Pairwise (·.key < ·.key)) {s : StoredFact}
    (hs : s ∈ facts) : ∃ h, Tops facts h ∧ s.Alike h := by
  have hnewest := newest_standing hsorted
  obtain ⟨h, hh, halike⟩ := hnewest.all s hs
  exact ⟨h, hnewest.tops h hh, halike⟩

end Projection
end FactBase
