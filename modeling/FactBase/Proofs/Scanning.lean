import FactBase.Proofs.Resolving
import FactBase.Query.ScanPlan
/-!
# Scanning — the keys that a plan finds

A key that agrees with a plan begins with its lead, so the scan reaches it (`contains_range`).  Over a ledger the keys
found are those of the facts that agree with the pattern (`mem_found`).
-/
namespace FactBase

open Dictionary (Settled)

namespace ScanPlan

/-- The concrete segments before the first open one begin whatever agrees with all concrete ones. -/
theorem leading_isPrefix {segments : Tuple (Option String)} {texts : Tuple String}
    (h : ∀ p x, segments.get p = some x → texts.get p = x) : ∀ order : List Position,
    ((order.map segments.get).takeWhile Option.isSome).filterMap id <+: order.map texts.get
  | [] => List.prefix_rfl
  | p :: order => by
    rw [List.map_cons, List.map_cons]
    cases hp : segments.get p with
    | none =>
      rw [List.takeWhile_cons_of_neg (by simp)]
      exact List.nil_prefix
    | some x =>
      rw [List.takeWhile_cons_of_pos rfl, h p x hp]
      exact List.cons_prefix_cons.2 ⟨rfl, leading_isPrefix h order⟩

/-- What a plan checks of a key's segments. -/
def Fits (plan : ScanPlan) (texts : Tuple String) : Prop := ∀ p x, plan.segments.get p = some x → texts.get p = x

theorem accepts_iff {plan : ScanPlan} {key : String} {texts : Tuple String}
    (hsplit : Key.split key = .ok (plan.index, texts)) : plan.accepts key = true ↔ plan.Fits texts := by
  rw [accepts, hsplit]
  simp only [decide_true, Bool.true_and, List.all_eq_true]
  constructor
  · intro hall p x hx
    have hp := hall p (Position.mem_all p)
    rw [hx] at hp
    exact beq_iff_eq.1 hp
  · intro hfits p _
    cases hx : plan.segments.get p with
    | none => rfl
    | some x => exact beq_iff_eq.2 (hfits p x hx)

theorem split_of_accepts {plan : ScanPlan} {key : String} (h : plan.accepts key = true) :
    ∃ texts, Key.split key = .ok (plan.index, texts) := by
  unfold accepts at h
  split at h
  · cases h
  · rename_i index found hsplit
    obtain ⟨hindex, -⟩ := Bool.and_eq_true_iff.1 h
    obtain rfl := of_decide_eq_true hindex
    exact ⟨found, hsplit⟩

/-- **A key that agrees lies in the range of the scan**, as long as its characters stay below the upper mark. -/
theorem contains_range {plan : ScanPlan} {texts : Tuple String} (hfits : plan.Fits texts)
    (hplain : ∀ p, ∀ c ∈ (texts.get p).toList, c < KeyInterval.highMark) :
    plan.range.contains (Key.encodeAll plan.index texts) = true := by
  obtain ⟨rest, hrest⟩ := intercalate_isPrefix (List.IsPrefix.map String.toList
    (leading_isPrefix hfits plan.index.order))
  rw [List.map_map] at hrest
  have hkey : (Key.encodeAll plan.index texts).toList = plan.lead.toList ++ rest := by
    rw [Key.toList_encodeAll, lead, String.toList_append, Key.toList_join, List.append_assoc]
    exact congrArg _ hrest.symm
  refine KeyInterval.contains_startingWith hkey fun c hc => Key.lt_highMark plan.index hplain ?_
  change c ∈ [Key.separator].intercalate (plan.index.order.map (String.toList ∘ texts.get))
  rw [← hrest]
  exact List.mem_append_right _ hc

end ScanPlan

/-! ## Over a ledger -/

namespace Goal

variable {m : KeyMap String}

theorem fits_iff {p : Pattern} {g : Goal} (hg : ∀ pos, Resolves m pos (p.element pos) (g.get pos)) {s : StoredFact}
    {f : Fact} (hs : s.Holds m f) (hle : f.txn ≤ maxTxn) : (ScanPlan.ofGoal .eavto g).Fits s.texts ↔ f.Agrees p := by
  constructor
  · intro hfits pos v helement
    have hterm := hg pos
    rw [helement] at hterm
    generalize hget : g.get pos = t at hterm
    cases hterm with
    | literal hdenotes =>
      refine (hdenotes s f hs hle).1 (hfits pos _ ?_)
      rw [ScanPlan.ofGoal, Tuple.get_map, hget]
      rfl
  · intro hagrees pos x hx
    have hterm := hg pos
    rw [ScanPlan.ofGoal, Tuple.get_map] at hx
    generalize hget : g.get pos = t at hterm hx
    generalize helement : p.element pos = e at hterm
    cases hterm with
    | blank => cases hx
    | var name => cases hx
    | literal hdenotes =>
      obtain rfl := Option.some.inj hx
      exact (hdenotes s f hs hle).2 (hagrees pos _ helement)

end Goal

namespace ScanPlan

variable {m : KeyMap String}

theorem reads_keys (m : KeyMap String) (plan : ScanPlan) :
    plan.keys.Reads m (.ok ((m.keysIn plan.range).filter plan.accepts)) :=
  .bind (.scan plan.range) (.pure _)

/-- **Over a ledger a scan finds keys of facts only**, whichever index it is for. -/
theorem keyed_of_mem_found {facts : List Fact} (h : Ledger m facts) {plan : ScanPlan} {key : String}
    (hkey : key ∈ (m.keysIn plan.range).filter plan.accepts) : ∃ f ∈ facts, f.Keyed m key := by
  obtain ⟨hkey, haccepts⟩ := List.mem_filter.1 hkey
  obtain ⟨⟨v, hv⟩, -⟩ := KeyMap.mem_keysIn.1 hkey
  obtain ⟨texts, hsplit⟩ := split_of_accepts haccepts
  rcases h.keys key v hv with ⟨id, rfl⟩ | hkeyed
  · refine absurd ?_ (plan.index.not_stem_prefix_slot id)
    rw [Key.encodeAll_of_split hsplit, Key.toList_encodeAll]
    exact List.prefix_append ..
  · exact hkeyed

/-- **The keys found are those of the facts that agree.** -/
theorem mem_found {facts : List Fact} (h : Ledger m facts) {p : Pattern} {g : Goal}
    (hg : ∀ pos, Goal.Resolves m pos (p.element pos) (g.get pos)) {key : String} :
    key ∈ (m.keysIn (ofGoal .eavto g).range).filter (ofGoal .eavto g).accepts ↔
      ∃ f ∈ facts, f.Keyed m key ∧ f.Agrees p := by
  constructor
  · intro hkey
    obtain ⟨f, hf, hkeyed⟩ := keyed_of_mem_found h hkey
    refine ⟨f, hf, hkeyed, ?_⟩
    obtain ⟨s, hs, hle, rfl⟩ := hkeyed
    have hsplit := (hs.isStorable h.settled hle).split_key
    exact (Goal.fits_iff hg hs hle).1 ((accepts_iff hsplit).1 (List.mem_filter.1 hkey).2)
  · rintro ⟨f, hf, hkeyed, hagrees⟩
    rw [List.mem_filter, KeyMap.mem_keysIn]
    obtain ⟨key', hkeyed', hget⟩ := h.stored f hf
    obtain rfl := hkeyed.unique hkeyed' h.settled
    obtain ⟨s, hs, hle, rfl⟩ := hkeyed
    have hstorable := hs.isStorable h.settled hle
    have hfits := (Goal.fits_iff hg hs hle).2 hagrees
    refine ⟨⟨⟨"", hget⟩, ?_⟩, (accepts_iff hstorable.split_key).2 hfits⟩
    exact @contains_range (ofGoal .eavto g) _ hfits fun p c hc => (hstorable.isPlain hc).2

end ScanPlan
end FactBase
