import FactBase.Json.Text
import FactBase.Value
/-!
# Json.Token — the tokens of values, arrays and objects

Only what a value, a flat array or a flat object can hold is a token: marks, strings, `true`, `false`, and integers
that are spelled in bare digits and fit a transaction number.  Whatever else stands in a text makes it unreadable:
`null`, a sign, a fraction or an exponent, a leading zero.
-/
namespace FactBase
namespace Json

inductive Token where
  | mark (c : Char)
  | text (s : List Char)
  | truth (b : Bool)
  | number (n : TxnNumber)
  deriving DecidableEq

def isMark (c : Char) : Bool := c == '[' || c == ']' || c == '\x7b' || c == '\x7d' || c == ',' || c == ':'

def isSpace (c : Char) : Bool := c == ' ' || c == '\n' || c == '\r' || c == '\t'

/-- The number that digits spell, if they spell it without a leading zero and it fits. -/
def number? (digits : List Char) : Option TxnNumber :=
  let n := Nat.ofDigitChars 10 digits 0
  if digits = [] ∨ (digits.head? = some '0' ∧ 1 < digits.length) ∨ 18446744073709551616 ≤ n then none
  else some (UInt64.ofNat n)

/-- Reads the token at the front. -/
def readToken : List Char → Option (Token × List Char)
  | [] => none
  | '"' :: rest => (readString none rest).map fun (s, after) => (.text s, after)
  | 't' :: 'r' :: 'u' :: 'e' :: rest => some (.truth true, rest)
  | 'f' :: 'a' :: 'l' :: 's' :: 'e' :: rest => some (.truth false, rest)
  | c :: rest =>
    if isMark c then some (.mark c, rest)
    else if c.isDigit then
      (number? (c :: rest.takeWhile Char.isDigit)).map fun n => (.number n, rest.dropWhile Char.isDigit)
    else none

theorem length_dropWhile_le {α : Type} (p : α → Bool) (xs : List α) : (xs.dropWhile p).length ≤ xs.length :=
  (List.dropWhile_sublist p).length_le

theorem readToken_length {cs after : List Char} {t : Token} (h : readToken cs = some (t, after)) :
    after.length < cs.length := by
  unfold readToken at h
  split at h
  · cases h
  · rename_i rest
    cases hr : readString none rest with
    | none => simp [hr] at h
    | some p =>
      obtain ⟨s, after'⟩ := p
      have hlt := readString_length none rest s after' hr
      simp only [hr, Option.map_some, Option.some.injEq, Prod.mk.injEq] at h
      rw [← h.2, List.length_cons]
      omega
  · cases h; simp only [List.length_cons]; omega
  · cases h; simp only [List.length_cons]; omega
  · rename_i c rest _ _ _
    split at h
    · cases h; simp
    · split at h
      · cases hn : number? (c :: rest.takeWhile Char.isDigit) with
        | none => simp [hn] at h
        | some n =>
          simp only [hn, Option.map_some, Option.some.injEq, Prod.mk.injEq] at h
          have hle := length_dropWhile_le Char.isDigit rest
          rw [← h.2, List.length_cons]
          omega
      · cases h

def tokens (cs : List Char) : Option (List Token) :=
  match hs : cs.dropWhile isSpace with
  | [] => some []
  | c :: rest =>
    match ht : readToken (c :: rest) with
    | none => none
    | some (t, after) =>
      have _shorter : after.length < cs.length := by
        have h₁ := readToken_length ht
        have h₂ := length_dropWhile_le isSpace cs
        rw [hs] at h₂
        omega
      (tokens after).map (t :: ·)
termination_by cs.length

end Json
end FactBase
