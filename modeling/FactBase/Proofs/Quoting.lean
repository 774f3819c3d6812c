import FactBase.Json.Text
import FactBase.Proofs.Digits
/-!
# Quoting — a JSON string is read as the text that it quotes

A character is written as itself, by a short escape or by the four digits of its code (`escapeChar_cases`), and is read
back from each of them (`readString_escapeChar`).  So a quoted text is read back, and what follows it is left
(`readString_quoted`).
-/
namespace FactBase

theorem Numeral.toLower_digit : ∀ d : Fin 36, (digit d).toLower = digit d := by decide

namespace Json

/-- Four digits are read as the number that they are written for. -/
theorem hex4?_digits (n : Nat) :
    hex4? (Numeral.digit (n / 16 / 16 / 16 % 16)) (Numeral.digit (n / 16 / 16 % 16)) (Numeral.digit (n / 16 % 16))
      (Numeral.digit (n % 16)) = some (n % 65536) := by
  have hlower : ∀ k : Nat, (Numeral.digit (k % 16)).toLower = Numeral.digit (k % 16) := fun k =>
    Numeral.toLower_digit ⟨k % 16, Nat.lt_of_lt_of_le (Nat.mod_lt k (by decide)) (by decide)⟩
  simp only [hex4?, List.map_cons, List.map_nil, hlower]
  exact Numeral.read?_fixed (by decide) (by decide) 4 n

theorem takeUnit_of_lt {unit : Nat} (h : unit < 0xD800) : takeUnit none unit = some (none, [Char.ofNat unit]) := by
  have hhigh : isHighSurrogate unit = false := by
    rw [isHighSurrogate, decide_eq_false (Nat.not_le.2 h), Bool.false_and]
  have hlow : isLowSurrogate unit = false := by
    rw [isLowSurrogate, decide_eq_false (by omega), Bool.false_and]
  rw [takeUnit, hhigh, hlow]
  rfl

theorem escapeChar_cases (c : Char) :
    (∃ e, escapeChar c = ['\\', e] ∧ e ≠ 'u' ∧ shortEscape? e = some c) ∨
    (c < ' ' ∧ escapeChar c = '\\' :: 'u' :: Numeral.fixed 16 4 c.toNat) ∨
    (c ≠ '"' ∧ c ≠ '\\' ∧ ¬c < ' ' ∧ escapeChar c = [c]) := by
  unfold escapeChar
  -- the quote, the backslash and the five control characters that have a short escape
  iterate 7
    split
    · rename_i h
      subst h
      exact .inl ⟨_, rfl, by decide, rfl⟩
  split
  · rename_i h
    exact .inr (.inl ⟨h, rfl⟩)
  · rename_i hquote hmark _ _ _ _ _ hcontrol
    exact .inr (.inr ⟨hquote, hmark, hcontrol, rfl⟩)

/-- **A character is read back from its written form**, and reading goes on behind it. -/
theorem readString_escapeChar (c : Char) (cs : List Char) : readString none (escapeChar c ++ cs) =
    (readString none cs).map fun (text, after) => (c :: text, after) := by
  rcases escapeChar_cases c with ⟨e, hescape, hu, hshort⟩ | ⟨hcontrol, hescape⟩ | ⟨hquote, hmark, hplain, hescape⟩
  · rw [hescape]
    change readString none ('\\' :: e :: cs) = _
    rw [readString]
    · rw [hshort]
    · intro a b c' d rest heq
      exact absurd heq hu
  · have hlt : c.toNat < 32 := hcontrol
    have hunit : takeUnit none (c.toNat % 65536) = some (none, [c]) := by
      rw [Nat.mod_eq_of_lt (by omega), takeUnit_of_lt (by omega), Char.ofNat_toNat]
    rw [hescape]
    change readString none ('\\' :: 'u' :: Numeral.digit (c.toNat / 16 / 16 / 16 % 16) ::
      Numeral.digit (c.toNat / 16 / 16 % 16) :: Numeral.digit (c.toNat / 16 % 16) :: Numeral.digit (c.toNat % 16) ::
      cs) = _
    rw [readString, hex4?_digits, Option.bind_some, hunit]
    rfl
  · rw [hescape, List.singleton_append, readString]
    · rw [if_neg hplain]
    · intro a b c' d rest heq
      exact absurd heq hmark
    · exact hquote
    · intro c' rest heq
      exact absurd heq hmark

/-- **A quoted text is read as itself**, and what follows its closing quote is left. -/
theorem readString_quoted : ∀ s rest : List Char,
    readString none (s.flatMap escapeChar ++ '"' :: rest) = some (s, rest)
  | [], rest => rfl
  | c :: s, rest => by
    rw [List.flatMap_cons, List.append_assoc, readString_escapeChar, readString_quoted s rest]
    rfl

end Json
end FactBase
