/-!
# Numeral — numbers written in digits

Two spellings: plain decimal, and fixed width in a base up to 36, where the digits run `0`–`9`, `a`–`z` and leading
zeros fill the width.  The digits are in code point order, so fixed-width numerals of one base and width sort as text
in the order of their numbers.  Reading takes exactly the digits of the base: no sign, no upper case, no blank.
-/
namespace FactBase
namespace Numeral

/-- The decimal digits of a number, without leading zeros. -/
def decimal (n : Nat) : String := String.ofList (Nat.toDigits 10 n)

def digit (d : Nat) : Char := if d < 10 then Char.ofNat (48 + d) else Char.ofNat (87 + d)

def digitValue? (c : Char) : Option Nat :=
  if '0' ≤ c ∧ c ≤ '9' then some (c.toNat - 48)
  else if 'a' ≤ c ∧ c ≤ 'z' then some (c.toNat - 87)
  else none

/-- The last `width` digits of a number, most significant first. -/
def fixed (base : Nat) : Nat → Nat → List Char
  | 0, _ => []
  | width + 1, n => fixed base width (n / base) ++ [digit (n % base)]

/-- A character as a digit of the base. -/
def digitIn? (base : Nat) (c : Char) : Option Nat :=
  (digitValue? c).bind fun d => if d < base then some d else none

/-- The number that a run of digits stands for; `none` if a character is no digit of the base. -/
def read? (base : Nat) (cs : List Char) : Option Nat :=
  cs.foldlM (fun n c => (digitIn? base c).map (base * n + ·)) 0

theorem length_fixed (base : Nat) : ∀ (width n : Nat), (fixed base width n).length = width
  | 0, _ => rfl
  | width + 1, n => by rw [fixed, List.length_append, length_fixed base width, List.length_singleton]

/-- A number's four bytes as eight hexadecimal digits. -/
def hex32 (n : Nat) : String := String.ofList (fixed 16 8 n)

end Numeral
end FactBase
