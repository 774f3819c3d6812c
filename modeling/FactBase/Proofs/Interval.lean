import FactBase.KeyInterval
/-!
# Interval — the keys between a stem and its upper mark

Texts compare by code point, so whatever lies between two texts with one stem begins with that stem
(`stem_of_contains`).  A text that does lies under the stem exactly if it goes on with a character below U+00FF, or with
that one as its last (`contains_under_iff`).
-/
namespace FactBase
namespace KeyInterval

/-- The first list comes after the second, character by character. -/
def Above (a b : List Char) : Prop := List.Lex (fun c d => c < d) b a

theorem le_iff_not_above {a b : String} : a ≤ b ↔ ¬Above a.toList b.toList := .rfl

theorem not_above_nil (b : List Char) : ¬Above [] b := fun h => nomatch h

theorem above_cons_iff {c d : Char} {a b : List Char} : Above (c :: a) (d :: b) ↔ d < c ∨ d = c ∧ Above a b :=
  List.cons_lex_cons_iff

theorem above_append_iff {a b : List Char} : ∀ stem : List Char, Above (stem ++ a) (stem ++ b) ↔ Above a b
  | [] => .rfl
  | c :: stem => by
    rw [List.cons_append, List.cons_append, above_cons_iff, above_append_iff stem]
    exact ⟨fun h => h.elim (fun hlt => absurd hlt (Char.lt_irrefl c)) (·.2), fun h => .inr ⟨rfl, h⟩⟩

/-- **Between two lists with one beginning every list begins so.** -/
theorem isPrefix_of_between : ∀ {stem lower upper key : List Char},
    ¬Above (stem ++ lower) key → ¬Above key (stem ++ upper) → stem <+: key
  | [], _, _, key, _, _ => List.nil_prefix
  | c :: stem, lower, upper, [], h, _ => absurd List.Lex.nil h
  | c :: stem, lower, upper, d :: key, h, h' => by
    rw [List.cons_append, above_cons_iff, not_or, not_and] at h h'
    -- the bounds agree in their first character, so the key between them has it too
    have hcd : c = d := Char.le_antisymm (Char.not_lt.1 h.1) (Char.not_lt.1 h'.1)
    exact List.cons_prefix_cons.2 ⟨hcd, isPrefix_of_between (h.2 hcd.symm) (h'.2 hcd)⟩

theorem contains_iff {i : KeyInterval} {key : String} : i.contains key = true ↔ i.lower ≤ key ∧ key ≤ i.upper := by
  rw [contains, Bool.and_eq_true, decide_eq_true_eq, decide_eq_true_eq]

theorem stem_of_contains {stem key : String} (h : (under stem).contains key = true) :
    stem.toList <+: key.toList := by
  obtain ⟨hlower, hupper⟩ := contains_iff.1 h
  rw [le_iff_not_above, under, String.toList_push] at hlower hupper
  exact isPrefix_of_between hlower hupper

theorem above_nil_iff {a : List Char} : Above a [] ↔ a ≠ [] := by
  cases a with
  | nil => simp [not_above_nil]
  | cons c a => exact ⟨fun _ => List.cons_ne_nil c a, fun _ => .nil⟩

theorem not_above_lowMark_iff {rest : List Char} : ¬Above [lowMark] rest ↔ rest ≠ [] := by
  cases rest with
  | nil => simp [above_nil_iff]
  | cons c rest =>
    have hlow : ¬c < lowMark := Nat.not_lt_zero c.val.toNat
    simp [above_cons_iff, hlow, not_above_nil]

theorem not_highMark_above_iff {first : Char} {rest : List Char} :
    ¬Above (first :: rest) [highMark] ↔ first < highMark ∨ first = highMark ∧ rest = [] := by
  rw [above_cons_iff, above_nil_iff]
  by_cases heq : first = highMark
  · simp only [heq, Char.lt_irrefl, false_or, true_and, ne_eq, Classical.not_not]
  · have hlt : ¬highMark < first ↔ first < highMark :=
      ⟨fun h => Std.lt_of_le_of_ne (Char.not_lt.1 h) heq, Char.lt_asymm⟩
    simp [heq, Ne.symm heq, hlt]

/-- **What lies under a stem** goes on after it with a character below the upper mark, or ends with the mark. -/
theorem contains_under_iff {stem key : String} : (under stem).contains key = true ↔ ∃ first rest,
    key.toList = stem.toList ++ first :: rest ∧ (first < highMark ∨ first = highMark ∧ rest = []) := by
  have hbounds : ∀ {rest : List Char}, key.toList = stem.toList ++ rest →
      ((under stem).contains key = true ↔ rest ≠ [] ∧ ¬Above rest [highMark]) := by
    intro rest hkey
    rw [contains_iff, le_iff_not_above, le_iff_not_above, under, String.toList_push, String.toList_push, hkey,
      above_append_iff, above_append_iff, not_above_lowMark_iff]
  constructor
  · intro h
    obtain ⟨rest, hrest⟩ := stem_of_contains h
    obtain ⟨hne, habove⟩ := (hbounds hrest.symm).1 h
    obtain ⟨first, rest, rfl⟩ := List.exists_cons_of_ne_nil hne
    exact ⟨first, rest, hrest.symm, not_highMark_above_iff.1 habove⟩
  · rintro ⟨first, rest, hkey, hmark⟩
    exact (hbounds hkey).2 ⟨List.cons_ne_nil first rest, not_highMark_above_iff.2 hmark⟩

theorem not_above_highMark {stem rest : List Char} (h : ∀ c ∈ rest, c < highMark) :
    ¬Above (stem ++ rest) (stem ++ [highMark]) := by
  rw [above_append_iff]
  cases rest with
  | nil => exact not_above_nil _
  | cons c rest =>
    have hlt := h c List.mem_cons_self
    rw [above_cons_iff, not_or]
    exact ⟨Char.lt_asymm hlt, fun heq => Char.ne_of_lt hlt heq.1.symm⟩

/-- **A key that begins with a stem starts within the stem's interval.** -/
theorem contains_startingWith {stem key : String} {rest : List Char} (hkey : key.toList = stem.toList ++ rest)
    (h : ∀ c ∈ rest, c < highMark) : (startingWith stem).contains key = true := by
  rw [contains_iff, le_iff_not_above, le_iff_not_above, startingWith, String.toList_push, hkey]
  refine ⟨?_, not_above_highMark h⟩
  have hle : ¬Above (stem.toList ++ []) (stem.toList ++ rest) := by
    rw [above_append_iff]
    exact not_above_nil rest
  rwa [List.append_nil] at hle

/-- **A key that goes on after a stem lies under it.** -/
theorem contains_under {stem key : String} {rest : List Char} (hkey : key.toList = stem.toList ++ rest)
    (hne : rest ≠ []) (h : ∀ c ∈ rest, c < highMark) : (under stem).contains key = true := by
  obtain ⟨first, rest, rfl⟩ := List.exists_cons_of_ne_nil hne
  exact contains_under_iff.2 ⟨first, rest, hkey, .inl (h first List.mem_cons_self)⟩

end KeyInterval
end FactBase
