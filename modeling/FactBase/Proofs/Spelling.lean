import Mathlib.Data.List.Basic
import FactBase.Json.Form
import FactBase.Proofs.Joining
import FactBase.Proofs.Quoting
/-!
# Spelling — written values, arrays and objects as tokens

A written value is read as one token, if a mark or nothing follows it (`spells_value`): a numeral has no leading zero
and ends where its digits end.  So arrays and objects, whose items stand between marks, are read as the tokens of their
items (`tokens_enclose`), and these as the items (`toItems?_spelt`, `toMembers?_spelt`).
-/
namespace FactBase
namespace Json

/-! ## Numbers -/

theorem digitChar_ne_zero : ∀ d : Fin 10, 0 < d.val → Nat.digitChar d.val ≠ '0' := by decide

/-- The numeral of a positive number has no leading zero. -/
theorem head?_toDigits : ∀ {n : Nat}, 0 < n → (Nat.toDigits 10 n).head? ≠ some '0'
  | n, h => by
    rcases Nat.lt_or_ge n 10 with hn | hn
    · rw [Nat.toDigits_of_lt_base hn]
      exact fun heq => digitChar_ne_zero ⟨n, hn⟩ h (Option.some.inj heq)
    · rw [Nat.toDigits_of_base_le (by decide) hn, List.head?_append_of_ne_nil _ Nat.toDigits_ne_nil]
      exact head?_toDigits (Nat.div_pos hn (by decide))
termination_by n => n
decreasing_by exact Nat.div_lt_self h (by decide)

theorem number?_toDigits (n : TxnNumber) : number? (Nat.toDigits 10 n.toNat) = some n := by
  have hzero : (Nat.toDigits 10 n.toNat).head? = some '0' → ¬1 < (Nat.toDigits 10 n.toNat).length := by
    intro hhead hlong
    rcases Nat.eq_zero_or_pos n.toNat with hn | hn
    · rw [hn] at hlong
      exact absurd hlong (by decide)
    · exact head?_toDigits hn hhead
  have hbound : ¬18446744073709551616 ≤ n.toNat := Nat.not_le.2 n.toNat_lt
  rw [number?, Nat.ofDigitChars_ten_toDigits, if_neg, UInt64.ofNat_toNat]
  rintro (hnil | ⟨hhead, hlong⟩ | hlarge)
  · exact Nat.toDigits_ne_nil hnil
  · exact hzero hhead hlong
  · exact hbound hlarge

/-- The token that a value is written as. -/
def Token.ofValue : Value → Token
  | .boolean b => .truth b
  | .integer n => .number n
  | .text s => .text s.toList

theorem toValue?_ofValue (v : Value) : toValue? (Token.ofValue v) = some v := by
  cases v with
  | boolean b => rfl
  | integer n => rfl
  | text s => exact congrArg (fun s => some (Value.text s)) s.ofList_toList

/-- What may follow a written value: a mark, or nothing more. -/
def Clear (rest : List Char) : Prop := ∀ c ∈ rest.head?, isMark c = true

theorem clear_cons {c : Char} (h : isMark c = true) (rest : List Char) : Clear (c :: rest) := fun c' hc' => by
  obtain rfl := Option.some.inj hc'
  exact h

theorem isMark_cases {c : Char} (h : isMark c = true) :
    c = '[' ∨ c = ']' ∨ c = '\x7b' ∨ c = '\x7d' ∨ c = ',' ∨ c = ':' := by
  simpa [isMark, or_assoc] using h

theorem readToken_mark {c : Char} (h : isMark c = true) (rest : List Char) :
    readToken (c :: rest) = some (.mark c, rest) := by
  rcases isMark_cases h with rfl | rfl | rfl | rfl | rfl | rfl <;> rfl

theorem readToken_quote (s rest : List Char) : readToken (quote s ++ rest) = some (.text s, rest) := by
  have h := readString_quoted s rest
  rw [quote, List.cons_append, List.cons_append, List.append_assoc, List.singleton_append, readToken, h]
  rfl

/-- A numeral is a digit and more digits. -/
theorem exists_toDigits_eq_cons (n : Nat) : ∃ c ds, Nat.toDigits 10 n = c :: ds ∧ ∀ d ∈ c :: ds, d.isDigit = true := by
  obtain ⟨c, ds, hds⟩ := List.exists_cons_of_ne_nil (Nat.toDigits_ne_nil (b := 10) (n := n))
  exact ⟨c, ds, hds, fun d hd => Nat.isDigit_of_mem_toDigits (by decide) (by decide) (hds ▸ hd)⟩

theorem isDigit_of_isMark {c : Char} (h : isMark c = true) : c.isDigit = false := by
  rcases isMark_cases h with rfl | rfl | rfl | rfl | rfl | rfl <;> rfl

/-- What follows a number is no digit. -/
theorem span_clear {rest : List Char} (h : Clear rest) :
    rest.takeWhile Char.isDigit = [] ∧ rest.dropWhile Char.isDigit = rest := by
  cases rest with
  | nil => exact ⟨rfl, rfl⟩
  | cons c rest =>
    have hc : ¬c.isDigit = true := by
      rw [isDigit_of_isMark (h c rfl)]
      exact Bool.false_ne_true
    exact ⟨List.takeWhile_cons_of_neg hc, List.dropWhile_cons_of_neg hc⟩

theorem readToken_number (n : TxnNumber) {rest : List Char} (hclear : Clear rest) :
    readToken (Nat.toDigits 10 n.toNat ++ rest) = some (.number n, rest) := by
  have hnumber := number?_toDigits n
  obtain ⟨c, ds, hds, hdigits⟩ := exists_toDigits_eq_cons n.toNat
  rw [hds] at hnumber ⊢
  have hc := hdigits c List.mem_cons_self
  have hds' : ∀ c ∈ ds, c.isDigit = true := fun c' hc' => hdigits c' (List.mem_cons_of_mem _ hc')
  have htake : (ds ++ rest).takeWhile Char.isDigit = ds := by
    rw [List.takeWhile_append_of_pos hds', (span_clear hclear).1, List.append_nil]
  have hdrop : (ds ++ rest).dropWhile Char.isDigit = rest := by
    rw [List.dropWhile_append_of_pos hds', (span_clear hclear).2]
  have hmark : isMark c = false := Bool.eq_false_iff.2 fun hmark => by
    rw [isDigit_of_isMark hmark] at hc
    cases hc
  rw [List.cons_append, readToken]
  · rw [hmark, if_neg Bool.false_ne_true, if_pos hc, htake, hdrop, hnumber]
    rfl
  · rintro rfl
    cases hc
  · rintro rest' rfl
    cases hc
  · rintro rest' rfl
    cases hc

theorem tokens_nil : tokens [] = some [] := by
  rw [tokens]
  rfl

theorem tokens_of_readToken {c : Char} {rest after : List Char} {t : Token} (hspace : isSpace c = false)
    (h : readToken (c :: rest) = some (t, after)) : tokens (c :: rest) = (tokens after).map (t :: ·) := by
  have hfront : (c :: rest).dropWhile isSpace = c :: rest := List.dropWhile_cons_of_neg (by rw [hspace]; decide)
  rw [tokens]
  split
  · rename_i hs
    cases hfront.symm.trans hs
  · rename_i c' rest' hs
    obtain ⟨rfl, rfl⟩ := List.cons.inj (hfront.symm.trans hs)
    split
    · rename_i ht
      cases h.symm.trans ht
    · rename_i t' after' ht
      obtain ⟨rfl, rfl⟩ := Prod.mk.inj (Option.some.inj (h.symm.trans ht))
      rfl

/-- Whatever of this kind follows, the text is read as these tokens. -/
def Spells (text : List Char) (ts : List Token) : Prop :=
  ∀ rest, Clear rest → tokens (text ++ rest) = (tokens rest).map (ts ++ ·)

theorem isSpace_of_isMark {c : Char} (h : isMark c = true) : isSpace c = false := by
  rcases isMark_cases h with rfl | rfl | rfl | rfl | rfl | rfl <;> rfl

theorem tokens_mark {c : Char} (h : isMark c = true) (rest : List Char) :
    tokens (c :: rest) = (tokens rest).map (.mark c :: ·) :=
  tokens_of_readToken (isSpace_of_isMark h) (readToken_mark h rest)

theorem isSpace_of_isDigit {c : Char} (h : c.isDigit = true) : isSpace c = false := by
  refine Bool.eq_false_iff.2 fun hspace => ?_
  simp only [isSpace, Bool.or_eq_true, beq_iff_eq] at hspace
  rcases hspace with ((rfl | rfl) | rfl) | rfl <;> cases h

theorem spells_quote (s : List Char) : Spells (quote s) [.text s] := fun rest _ =>
  tokens_of_readToken rfl (readToken_quote s rest)

/-- **A written value is read as its token.** -/
theorem spells_value (v : Value) : Spells (ofValue v) [Token.ofValue v] := by
  cases v with
  | text s => exact spells_quote s.toList
  | boolean b =>
    intro rest _
    cases b with
    | false => exact tokens_of_readToken rfl rfl
    | true => exact tokens_of_readToken rfl rfl
  | integer n =>
    intro rest hclear
    have hread := readToken_number n hclear
    have htext : ofValue (.integer n) = Nat.toDigits 10 n.toNat := String.toList_ofList
    obtain ⟨c, ds, hds, hdigits⟩ := exists_toDigits_eq_cons n.toNat
    rw [htext, hds]
    rw [hds] at hread
    exact tokens_of_readToken (isSpace_of_isDigit (hdigits c List.mem_cons_self)) hread

/-- A text, a mark and another text. -/
theorem Spells.mark {text text' : List Char} {ts ts' : List Token} {c : Char} (h : Spells text ts)
    (hc : isMark c = true) (h' : Spells text' ts') : Spells (text ++ c :: text') (ts ++ .mark c :: ts') := by
  intro rest hrest
  rw [List.append_assoc, List.cons_append, h _ (clear_cons hc _), tokens_mark hc, h' rest hrest, Option.map_map,
    Option.map_map]
  congr 1
  funext more
  simp

/-- The tokens that a member of an object is written as. -/
def Token.ofMember (p : String × Value) : List Token := [.text p.1.toList, .mark ':', .ofValue p.2]

theorem spells_member (p : String × Value) : Spells (ofMember p) (Token.ofMember p) :=
  (spells_quote p.1.toList).mark rfl (spells_value p.2)

section

variable {ι : Type} {text : ι → List Char} {spelt : ι → List Token}

theorem spells_intercalate (h : ∀ i, Spells (text i) (spelt i)) : ∀ (i : ι) (is : List ι),
    Spells ([','].intercalate ((i :: is).map text)) ([Token.mark ','].intercalate ((i :: is).map spelt))
  | i, [] => by
    simp only [List.map_cons, List.map_nil, List.intercalate_singleton]
    exact h i
  | i, j :: is => by
    have ih := spells_intercalate h j is
    simp only [List.map_cons, List.intercalate_cons_cons] at ih ⊢
    rw [List.append_assoc, List.append_assoc]
    exact (h i).mark rfl ih

/-- **What stands between two brackets is read item by item.** -/
theorem tokens_enclose {opening closing : Char} (hopening : isMark opening = true) (hclosing : isMark closing = true)
    (h : ∀ i, Spells (text i) (spelt i)) (is : List ι) : tokens (enclose opening closing (is.map text)).toList =
      some (.mark opening :: [Token.mark ','].intercalate (is.map spelt) ++ [.mark closing]) := by
  have hend : tokens [closing] = some [.mark closing] := by
    rw [tokens_mark hclosing, tokens_nil]
    rfl
  rw [enclose, String.toList_ofList, List.cons_append, tokens_mark hopening]
  cases is with
  | nil =>
    simp only [List.map_nil, List.intercalate_nil, List.nil_append]
    rw [hend]
    rfl
  | cons i is =>
    rw [spells_intercalate h i is _ (clear_cons hclosing _), hend]
    rfl

end

/-! ## Shapes -/

theorem moreItems_value (v : Value) (rest : List Token) :
    moreItems (.mark ',' :: Token.ofValue v :: rest) = (moreItems rest).map (v :: ·) := by
  rw [moreItems, toValue?_ofValue]
  cases moreItems rest <;> rfl

theorem toItems?_value (v : Value) (rest : List Token) :
    toItems? (.mark '[' :: Token.ofValue v :: rest) = (moreItems rest).map (v :: ·) := by
  rw [toItems?, toValue?_ofValue]
  · cases moreItems rest <;> rfl
  · intro hmark
    cases v <;> cases hmark

theorem moreItems_spelt : ∀ values : List Value,
    moreItems ((values.map fun v => [Token.ofValue v]).flatMap (Token.mark ',' :: ·) ++ [.mark ']']) = some values
  | [] => rfl
  | v :: values => by
    rw [List.map_cons, List.flatMap_cons, List.append_assoc]
    exact (moreItems_value v _).trans (congrArg (Option.map (v :: ·)) (moreItems_spelt values))

/-- **The tokens of an array are read as its items.** -/
theorem toItems?_spelt (values : List Value) :
    toItems? (.mark '[' :: [Token.mark ','].intercalate (values.map fun v => [Token.ofValue v]) ++ [.mark ']']) =
      some values := by
  cases values with
  | nil => rfl
  | cons v values =>
    rw [List.map_cons, intercalate_cons, List.cons_append, List.append_assoc]
    exact (toItems?_value v _).trans (congrArg (Option.map (v :: ·)) (moreItems_spelt values))

theorem moreMembers_member (p : String × Value) (rest : List Token) :
    moreMembers (.mark ',' :: (Token.ofMember p ++ rest)) = (moreMembers rest).map (p :: ·) := by
  change moreMembers (.mark ',' :: .text p.1.toList :: .mark ':' :: Token.ofValue p.2 :: rest) = _
  rw [moreMembers, toValue?_ofValue, String.ofList_toList]
  cases moreMembers rest <;> rfl

theorem toMembers?_member (p : String × Value) (rest : List Token) :
    toMembers? (.mark '\x7b' :: (Token.ofMember p ++ rest)) = (moreMembers rest).map (p :: ·) := by
  change toMembers? (.mark '\x7b' :: .text p.1.toList :: .mark ':' :: Token.ofValue p.2 :: rest) = _
  rw [toMembers?, toValue?_ofValue, String.ofList_toList]
  cases moreMembers rest <;> rfl

theorem moreMembers_spelt : ∀ members : List (String × Value),
    moreMembers ((members.map Token.ofMember).flatMap (Token.mark ',' :: ·) ++ [.mark '\x7d']) = some members
  | [] => rfl
  | p :: members => by
    rw [List.map_cons, List.flatMap_cons, List.append_assoc]
    exact (moreMembers_member p _).trans (congrArg (Option.map (p :: ·)) (moreMembers_spelt members))

/-- **The tokens of an object are read as its members.** -/
theorem toMembers?_spelt (members : List (String × Value)) :
    toMembers? (.mark '\x7b' :: [Token.mark ','].intercalate (members.map Token.ofMember) ++ [.mark '\x7d']) =
      some members := by
  cases members with
  | nil => rfl
  | cons p members =>
    rw [List.map_cons, intercalate_cons, List.cons_append, List.append_assoc]
    exact (toMembers?_member p _).trans (congrArg (Option.map (p :: ·)) (moreMembers_spelt members))

end Json
end FactBase
