import FactBase.Proofs.ByteOrder
import FactBase.Proofs.FullScan
/-!
# Walking — what an interval holds, and what a scan of it yields

Keys are compared as their bytes are (`contains_iff_bytes`), and the plain keys under a stem are those that start with
it and go on.  A scan is a walk along the ordered keys, from the first that is not below the lower bound to the last
that is not above the upper one.  Bounds the wrong way round have no walk, so the scan looks for them first; what it
passes is then all that the interval holds (`keysAlong?_eq`).  Main statement: `scans_yield_what_intervals_hold`.
-/
namespace FactBase

theorem Bytes.ofText_le_iff {s t : String} : ofText s ≤ ofText t ↔ s ≤ t := not_congr ofText_lt_iff

namespace KeyInterval

variable {stem key : String}

/-- An interval compares keys as their bytes do. -/
theorem contains_iff_bytes {i : KeyInterval} : i.contains key = true ↔
    Bytes.ofText i.lower ≤ Bytes.ofText key ∧ Bytes.ofText key ≤ Bytes.ofText i.upper := by
  rw [contains_iff, Bytes.ofText_le_iff, Bytes.ofText_le_iff]

/-- **The plain keys under a stem are those that start with it and go on.** -/
theorem contains_under_iff_of_isAscii (h : Text.IsAscii key) :
    (under stem).contains key = true ↔ stem.toList <+: key.toList ∧ key ≠ stem := by
  constructor
  · intro hcontains
    refine ⟨stem_of_contains hcontains, ?_⟩
    rintro rfl
    obtain ⟨first, rest, hkey, -⟩ := contains_under_iff.1 hcontains
    simp at hkey
  · rintro ⟨⟨rest, hrest⟩, hne⟩
    cases rest with
    | nil => exact absurd (String.toList_injective (by simpa using hrest.symm)) hne
    | cons first rest =>
      have hfirst : first ∈ key.toList := hrest ▸ List.mem_append_right _ List.mem_cons_self
      exact contains_under_iff.2 ⟨first, rest, hrest.symm, .inl (h.lt_highMark hfirst)⟩

end KeyInterval

/-! ## Walking along ordered keys -/

section

variable {α : Type} {P : α → Bool}

/-- Where an element is chosen only if all before it are, the chosen ones come first. -/
theorem filter_eq_takeWhile : ∀ {l : List α}, l.Pairwise (fun x y => P y = true → P x = true) →
    l.filter P = l.takeWhile P
  | [], _ => rfl
  | x :: l, h => by
    obtain ⟨hx, hl⟩ := List.pairwise_cons.1 h
    by_cases hP : P x = true
    · rw [List.filter_cons_of_pos hP, List.takeWhile_cons_of_pos hP, filter_eq_takeWhile hl]
    · rw [List.takeWhile_cons_of_neg hP, List.filter_eq_nil_iff]
      intro y hy hPy
      rcases List.mem_cons.1 hy with rfl | hy
      · exact hP hPy
      · exact hP (hx y hy hPy)

/-- Where with an element all behind it are chosen, the chosen ones come last. -/
theorem filter_eq_dropWhile : ∀ {l : List α}, l.Pairwise (fun x y => P x = true → P y = true) →
    l.filter P = l.dropWhile fun x => !P x
  | [], _ => rfl
  | x :: l, h => by
    obtain ⟨hx, hl⟩ := List.pairwise_cons.1 h
    by_cases hP : P x = true
    · rw [List.dropWhile_cons_of_neg (by simp [hP]), List.filter_eq_self]
      intro y hy
      rcases List.mem_cons.1 hy with rfl | hy
      · exact hP
      · exact hx y hy hP
    · rw [List.filter_cons_of_neg hP, List.dropWhile_cons_of_pos (by simp [hP]), filter_eq_dropWhile hl]

end

namespace KeyMap

variable {α : Type}

/-- The keys that a walk from one bound to another passes, both included.  Bounds the wrong way round have no walk. -/
def walk? (m : KeyMap α) (lower upper : String) : Option (List String) :=
  if upper < lower then none
  else some ((m.keys.dropWhile fun key => !decide (lower ≤ key)).takeWhile fun key => decide (key ≤ upper))

/-- A walk along an interval, and none along an empty one. -/
def keysAlong? (m : KeyMap α) (i : KeyInterval) : Option (List String) :=
  if i.isEmpty then some [] else m.walk? i.lower i.upper

theorem keysIn_of_isEmpty (m : KeyMap α) {i : KeyInterval} (h : i.isEmpty = true) : m.keysIn i = [] :=
  List.filter_eq_nil_iff.2 fun key _ => by simp [KeyInterval.contains_of_isEmpty h key]

/-- **A walk can always be made, and passes what the interval holds.** -/
theorem keysAlong?_eq (m : KeyMap α) (i : KeyInterval) : m.keysAlong? i = some (m.keysIn i) := by
  have hascending : m.keys.Pairwise (· ≤ ·) := m.pairwise_keys.imp fun hlt => String.not_lt.1 (String.lt_asymm hlt)
  unfold keysAlong? walk?
  by_cases hempty : i.isEmpty = true
  · rw [if_pos hempty, m.keysIn_of_isEmpty hempty]
  · have hbounds : ¬i.upper < i.lower := by simpa [KeyInterval.isEmpty] using hempty
    have hlower := filter_eq_dropWhile (P := fun key => decide (i.lower ≤ key)) (hascending.imp fun hle h => by
      simp only [decide_eq_true_eq] at h ⊢
      exact String.le_trans h hle)
    have hupper := filter_eq_takeWhile (P := fun key => decide (key ≤ i.upper))
      ((hascending.sublist (List.dropWhile_sublist fun key => !decide (i.lower ≤ key))).imp fun hle h => by
        simp only [decide_eq_true_eq] at h ⊢
        exact String.le_trans hle h)
    rw [if_neg hempty, if_neg hbounds, ← hupper, ← hlower, List.filter_filter, keysIn]
    congr 2
    funext key
    exact Bool.and_comm ..

end KeyMap

/-- **Scans yield what intervals hold.**  An interval holds the keys whose bytes lie between those of its bounds.  Under
a stem lie the keys that go on after it with a character below U+00FF, or with just that one; so all plain keys that
start with the stem and go on, and no key that does not start with it.  In every store and for every interval, also one
whose bounds stand the wrong way round, a scan that does not fail yields the stored keys in the interval, each once and
in the order of their bytes.  The walk that finds them can always be made, and there is none to make where the interval
is empty. -/
theorem scans_yield_what_intervals_hold :
    (∀ (i : KeyInterval) key, i.contains key = true ↔
      Bytes.ofText i.lower ≤ Bytes.ofText key ∧ Bytes.ofText key ≤ Bytes.ofText i.upper) ∧
    (∀ stem key, (KeyInterval.under stem).contains key = true ↔ ∃ first rest,
      key.toList = stem.toList ++ first :: rest ∧ (first < '\u00ff' ∨ first = '\u00ff' ∧ rest = [])) ∧
    (∀ stem key, Text.IsAscii key →
      ((KeyInterval.under stem).contains key = true ↔ stem.toList <+: key.toList ∧ key ≠ stem)) ∧
    (∀ stem key, (KeyInterval.under stem).contains key = true → stem.toList <+: key.toList) ∧
    ∀ (store : Store) (i : KeyInterval), store.faults.scan store.calls.scan = none →
      ∃ keys, (store.scan i).1 = (keys, none) ∧
        (∀ key, key ∈ keys ↔ (∃ value, store.entries.get? key = some value) ∧ i.contains key = true) ∧
        keys.Nodup ∧ (keys.map Bytes.ofText).Pairwise (· < ·) ∧
        store.entries.keysAlong? i = some keys ∧ (i.isEmpty = true → keys = []) := by
  refine ⟨fun i key => KeyInterval.contains_iff_bytes, fun stem key => KeyInterval.contains_under_iff,
    fun stem key h => KeyInterval.contains_under_iff_of_isAscii h, fun stem key h => KeyInterval.stem_of_contains h,
    fun store i hworks => ?_⟩
  have hascending := store.entries.pairwise_keysIn i
  refine ⟨store.entries.keysIn i, ?_, fun key => KeyMap.mem_keysIn, hascending.imp fun hlt => String.ne_of_lt hlt, ?_,
    store.entries.keysAlong?_eq i, store.entries.keysIn_of_isEmpty⟩
  · unfold Store.scan
    dsimp only
    rw [hworks]
  · exact List.pairwise_map.2 (hascending.imp fun hlt => Bytes.ofText_lt_iff.2 hlt)

/-- Of these keys, the first is the stem itself, the last three go on after it with the mark and more, with a character
above the mark, or do not start with it. -/
def keysAroundStem : Store := .ofEntries (KeyMap.empty.insertAll [("n\u00e9", ""), ("n\u00e9\x00", ""),
  ("n\u00e9!z", ""), ("n\u00e9\u00ff", ""), ("n\u00e9\u00ffa", ""), ("n\u00e9\u20ac", ""), ("nf", "")])

theorem scans_yield_what_intervals_hold_keysAroundStem :
    (keysAroundStem.scan (.under "n\u00e9")).1 = (["n\u00e9\x00", "n\u00e9!z", "n\u00e9\u00ff"], none) ∧
      (["n\u00e9\x00", "n\u00e9!z", "n\u00e9\u00ff"].map Bytes.ofText).Pairwise (· < ·) ∧
      (KeyInterval.under "n\u00e9").contains "n\u00e9\u20ac" = false ∧
      (KeyInterval.under "n").contains "nf" = true ∧
      keysAroundStem.entries.keysAlong? ⟨"z", "a"⟩ = some [] ∧ keysAroundStem.entries.walk? "z" "a" = none := by
  obtain ⟨-, -, hplain, -, hscan⟩ := scans_yield_what_intervals_hold
  have hyields : (keysAroundStem.scan (.under "n\u00e9")).1 =
      (["n\u00e9\x00", "n\u00e9!z", "n\u00e9\u00ff"], none) := by decide +kernel
  have hstored : keysAroundStem.entries.get? "n\u00e9\u20ac" = some "" := by decide +kernel
  obtain ⟨keys, hkeys, hmem, -, hordered, -⟩ := hscan keysAroundStem (.under "n\u00e9") rfl
  obtain rfl := (Prod.mk.inj (hkeys.symm.trans hyields)).1
  obtain ⟨passed, -, -, -, -, hwalk, hempty⟩ := hscan keysAroundStem ⟨"z", "a"⟩ rfl
  obtain rfl := hempty (by decide)
  refine ⟨hyields, hordered, Bool.eq_false_iff.2 fun hcontains => ?_, ?_, hwalk, if_pos (by decide)⟩
  · exact absurd ((hmem _).2 ⟨⟨"", hstored⟩, hcontains⟩) (by decide)
  · exact (hplain "n" "nf" (by decide)).2 ⟨⟨['f'], by decide⟩, by decide⟩

end FactBase
