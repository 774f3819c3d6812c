import FactBase.Text.Numeral
/-!
# Json.Text — JSON strings

Writing escapes the quote, the backslash and the characters below U+0020, with the short escape where there is one;
all else stands for itself.  Reading takes every escape of the standard.  An escaped surrogate counts only as half of a
pair, and a bare control character is refused.
-/
namespace FactBase
namespace Json

def escapeChar (c : Char) : List Char :=
  if c = '"' then ['\\', '"']
  else if c = '\\' then ['\\', '\\']
  else if c = '\x08' then ['\\', 'b']
  else if c = '\x0c' then ['\\', 'f']
  else if c = '\n' then ['\\', 'n']
  else if c = '\r' then ['\\', 'r']
  else if c = '\t' then ['\\', 't']
  else if c < ' ' then ['\\', 'u'] ++ Numeral.fixed 16 4 c.toNat
  else [c]

def quote (s : List Char) : List Char := '"' :: s.flatMap escapeChar ++ ['"']

/-- The character of an escape other than `u`. -/
def shortEscape? : Char → Option Char
  | '"' => some '"'
  | '\\' => some '\\'
  | '/' => some '/'
  | 'b' => some '\x08'
  | 'f' => some '\x0c'
  | 'n' => some '\n'
  | 'r' => some '\r'
  | 't' => some '\t'
  | _ => none

/-- The number in four hexadecimal digits of either case. -/
def hex4? (a b c d : Char) : Option Nat := Numeral.read? 16 ([a, b, c, d].map Char.toLower)

def isHighSurrogate (unit : Nat) : Bool := decide (0xD800 ≤ unit) && decide (unit < 0xDC00)

def isLowSurrogate (unit : Nat) : Bool := decide (0xDC00 ≤ unit) && decide (unit < 0xE000)

def joinSurrogates (high low : Nat) : Char := Char.ofNat (0x10000 + (high - 0xD800) * 0x400 + (low - 0xDC00))

/-- What an escaped code unit does: the high surrogate that waits for its other half, and the characters that are
complete. -/
def takeUnit : Option Nat → Nat → Option (Option Nat × List Char)
  | none, unit =>
    if isHighSurrogate unit then some (some unit, [])
    else if isLowSurrogate unit then none
    else some (none, [Char.ofNat unit])
  | some high, unit => if isLowSurrogate unit then some (none, [joinSurrogates high unit]) else none

/-- Reads a string after its opening quote; gives its text and what follows its closing quote.  While a high surrogate
waits, only the escape of a low one may follow. -/
def readString : Option Nat → List Char → Option (List Char × List Char)
  | _, [] => none
  | waiting, '\\' :: 'u' :: a :: b :: c :: d :: rest =>
    match (hex4? a b c d).bind (takeUnit waiting) with
    | some (waiting', done) => (readString waiting' rest).map fun (text, after) => (done ++ text, after)
    | none => none
  | some _, _ => none
  | none, '"' :: rest => some ([], rest)
  | none, '\\' :: c :: rest =>
    match shortEscape? c with
    | some ch => (readString none rest).map fun (text, after) => (ch :: text, after)
    | none => none
  | none, c :: rest =>
    if c < ' ' then none else (readString none rest).map fun (text, after) => (c :: text, after)

theorem readString_length : ∀ (waiting : Option Nat) (cs text after : List Char),
    readString waiting cs = some (text, after) → after.length < cs.length := by
  intro waiting cs
  fun_induction readString waiting cs <;> intro text after h <;> simp_all <;> grind

end Json
end FactBase
