import FactBase.Proofs.Accumulating
import FactBase.Proofs.Spelling
/-!
# Surface — what is written is read as what it was

Blanks, variables and literals share one space of texts.  An escaped text is read as a literal (`ofText_escapeText`), a
variable has a sigil and is no blank (`Formed.name`), so every element that reading can produce is read back from its
written value.  With the JSON of values, arrays and objects this gives patterns and bindings back.  Main statement:
`surfaces_lose_nothing`.
-/
namespace FactBase

/-- **An escaped text is read as the literal of that text.** -/
theorem Element.ofText_escapeText (s : String) : ofText (escapeText s) = .literal (.text s) := by
  unfold escapeText
  split
  · rename_i c cs hs
    split
    · -- the mark in front is no sigil, and is what unescaping drops
      have hblank : String.ofList (escapeMark :: s.toList) ≠ blankText := fun heq => by
        have hlist := congrArg String.toList heq
        rw [String.toList_ofList] at hlist
        exact absurd (List.cons.inj hlist).1 (by decide)
      have hhead : (escapeMark :: s.toList).head? ≠ some sigil := fun heq => absurd (Option.some.inj heq) (by decide)
      rw [ofText, if_neg hblank, String.toList_ofList, if_neg hhead, unescapeText, String.toList_ofList]
      dsimp only
      rw [if_pos rfl, String.ofList_toList]
    · rename_i hplain
      rw [not_or] at hplain
      have hhead : s.toList.head? ≠ some sigil := by
        rw [hs]
        exact fun heq => hplain.1 (Option.some.inj heq)
      have hblank : s ≠ blankText := fun heq => hhead (by rw [heq]; rfl)
      rw [ofText, if_neg hblank, if_neg hhead, unescapeText, hs]
      dsimp only
      rw [if_neg hplain.2]
  · rename_i hs
    have hempty : s = "" := String.toList_injective hs
    rw [hempty]
    rfl

namespace Element

/-- The elements that reading a text or a value, naming a variable and giving a literal can produce. -/
inductive Formed : Element → Prop where
  | ofText (s : String) : Formed (.ofText s)
  | ofName (name : String) : Formed (.ofName name)
  | ofValue (v : Value) : Formed (.ofValue v)
  | literal (v : Value) : Formed (.literal v)

theorem name_ofText {s name : String} (h : Element.ofText s = .var name) :
    name ≠ blankText ∧ name.toList.head? = some sigil := by
  unfold Element.ofText at h
  split at h
  · cases h
  · rename_i hblank
    split at h
    · rename_i hsigil
      obtain rfl := Element.var.inj h
      exact ⟨hblank, hsigil⟩
    · cases h

/-- **The name of a variable has its sigil, and is not that of the blank.** -/
theorem Formed.name {e : Element} (h : e.Formed) {name : String} (hvar : e = .var name) :
    name ≠ blankText ∧ name.toList.head? = some sigil := by
  cases h with
  | ofText s => exact name_ofText hvar
  | ofName n =>
    unfold Element.ofName at hvar
    split at hvar
    · exact name_ofText hvar
    · exact name_ofText hvar
  | ofValue v =>
    cases v with
    | text s => exact name_ofText hvar
    | boolean b => cases hvar
    | integer n => cases hvar
  | literal v => cases hvar

/-- **An element is read back from its written value.** -/
theorem Formed.ofValue_toValue {e : Element} (h : e.Formed) : Element.ofValue e.toValue = e := by
  cases e with
  | blank => rfl
  | var name =>
    obtain ⟨hblank, hsigil⟩ := h.name rfl
    change Element.ofText name = _
    rw [Element.ofText, if_neg hblank, if_pos hsigil]
  | literal v =>
    cases v with
    | text s => exact ofText_escapeText s
    | boolean b => rfl
    | integer n => rfl

end Element

/-- **A pattern is read back from its JSON.** -/
theorem Pattern.ofJson?_toJson {p : Pattern} (h : ∀ e ∈ p.elements, e.Formed) : ofJson? p.toJson = some p := by
  have htext : p.elements.map (fun e => Json.ofValue e.toValue) = (p.elements.map Element.toValue).map Json.ofValue := by
    rw [List.map_map]
    rfl
  have hback : (p.elements.map Element.toValue).map Element.ofValue = p.elements := by
    rw [List.map_map]
    exact (List.map_congr_left fun e he => (h e he).ofValue_toValue).trans (List.map_id _)
  rw [ofJson?, toJson, htext, Json.tokens_enclose rfl rfl Json.spells_value, Option.bind_some, Json.toItems?_spelt,
    Option.map_some, hback]

/-- **A binding is read back from its JSON**, its pairs in their order. -/
theorem Binding.ofJson?_toJson (b : Binding) : ofJson? b.toJson = some b := by
  rw [ofJson?, toJson, Json.tokens_enclose rfl rfl Json.spells_member, Option.bind_some,
    Json.toMembers?_spelt, Option.map_some, ofList_pairs]

/-- **Written elements, patterns and bindings lose nothing.**  An escaped text is read as the literal of that text.
Every element that reading, naming or giving a literal can produce is read back from its written value, so two of them
never have the same one.  A pattern of such elements, however long, is read back from its JSON, and so is every binding,
with its pairs in the same order. -/
theorem surfaces_lose_nothing :
    (∀ s, Element.ofText (escapeText s) = .literal (.text s)) ∧
    (∀ e : Element, e.Formed → Element.ofValue e.toValue = e) ∧
    (∀ e e' : Element, e.Formed → e'.Formed → e.toValue = e'.toValue → e = e') ∧
    (∀ p : Pattern, (∀ e ∈ p.elements, e.Formed) → Pattern.ofJson? p.toJson = some p) ∧
    ∀ b : Binding, Binding.ofJson? b.toJson = some b := by
  refine ⟨Element.ofText_escapeText, fun e h => h.ofValue_toValue, fun e e' h h' heq => ?_,
    fun p h => Pattern.ofJson?_toJson h, Binding.ofJson?_toJson⟩
  rw [← h.ofValue_toValue, heq, h'.ofValue_toValue]

/-- The blank, a variable, and literals whose texts look like the two, like an escaped one and like JSON. -/
theorem surfaces_lose_nothing_lookalikes :
    let p : Pattern := ⟨[.ofText "?_", .literal (.text "?_"), .ofName "x", .literal (.text "?x"),
      .literal (.text "\\?x"), .literal (.text "\",\x01\n]😀"), .ofValue (.integer 18446744073709551615),
      .ofValue (.boolean true)]⟩
    (∀ e ∈ p.elements, e.Formed) ∧ Pattern.ofJson? p.toJson = some p ∧
      Element.toValue (.ofName "x") ≠ Element.toValue (.literal (.text "?x")) := by
  intro p
  have hformed : ∀ e ∈ p.elements, e.Formed := by
    simp only [p, List.forall_mem_cons]
    exact ⟨.ofText _, .literal _, .ofName _, .literal _, .literal _, .literal _, .ofValue _, .ofValue _,
      fun e he => by cases he⟩
  obtain ⟨-, -, hdistinct, hpattern, -⟩ := surfaces_lose_nothing
  refine ⟨hformed, hpattern p hformed, fun heq => ?_⟩
  exact absurd (hdistinct _ _ (.ofName _) (.literal _) heq) (by decide)

end FactBase
