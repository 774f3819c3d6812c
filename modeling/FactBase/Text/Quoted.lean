import FactBase.Text.Numeral
import FactBase.Text.Unprinted
/-!
# Quoted — a text between quotes, on one printable line

Quote, backslash and the four common control characters get a short escape.  Every other character that does not
print on its own is written by its code point.
-/
namespace FactBase
namespace Quoted

def escapeChar (c : Char) : List Char :=
  if c = '"' then ['\\', '"']
  else if c = '\\' then ['\\', '\\']
  else if c = '\n' then ['\\', 'n']
  else if c = '\r' then ['\\', 'r']
  else if c = '\t' then ['\\', 't']
  else if c = '\x00' then ['\\', '0']
  else if isUnprinted c then ['\\', 'u', '\x7b'] ++ Nat.toDigits 16 c.toNat ++ ['\x7d']
  else [c]

def render (s : String) : String := String.ofList ('"' :: s.toList.flatMap escapeChar ++ ['"'])

end Quoted
end FactBase
