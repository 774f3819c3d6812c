import FactBase.Binding
import FactBase.Position
/-!
# Pattern — what a query clause asks for

A pattern has an element for each position, in tuple order; positions at the end that it leaves out are blank.  As
text, an element is the blank `?_`, a variable (a `?` and a name), or a literal.  A literal that starts with `?` or `\`
is written with a `\` in front, so every text has a written form that is read back as that text.
-/
namespace FactBase

def sigil : Char := '?'

def escapeMark : Char := '\\'

/-- The written form of the blank element. -/
def blankText : String := "?_"

/-- Writes a literal text so that it is read as a literal. -/
def escapeText (s : String) : String :=
  match s.toList with
  | c :: _ => if c = sigil ∨ c = escapeMark then String.ofList (escapeMark :: s.toList) else s
  | [] => s

/-- Drops one leading escape mark, if there is one. -/
def unescapeText (s : String) : String :=
  match s.toList with
  | c :: rest => if c = escapeMark then String.ofList rest else s
  | [] => s

inductive Element where
  | blank
  /-- The name keeps its sigil. -/
  | var (name : String)
  | literal (value : Value)
  deriving DecidableEq

namespace Element

def ofText (s : String) : Element :=
  if s = blankText then blank
  else if s.toList.head? = some sigil then var s
  else literal (.text (unescapeText s))

/-- The variable of a name; the sigil is added where it is missing. -/
def ofName (name : String) : Element :=
  if name.toList.head? = some sigil then ofText name
  else ofText (String.ofList (sigil :: name.toList))

/-- Reads a written value: texts are classified, numbers and truth values are literals. -/
def ofValue : Value → Element
  | .text s => ofText s
  | v => literal v

def toValue : Element → Value
  | blank => .text blankText
  | var name => .text name
  | literal (.text s) => .text (escapeText s)
  | literal v => v

def variableName? : Element → Option String
  | var name => some name
  | _ => none

def render : Element → String
  | blank => blankText
  | var name => name
  | literal (.text s) => Quoted.render (escapeText s)
  | literal v => v.render

/-- Puts the value of a bound variable in its place. -/
def bind (b : Binding) : Element → Element
  | var name => match b.get? name with
    | some value => literal value
    | none => var name
  | e => e

end Element

structure Pattern where
  elements : List Element
  deriving DecidableEq

namespace Pattern

def capacity : Nat := 5

def element (p : Pattern) (pos : Position) : Element := p.elements.getD pos.index .blank

def isTooLong (p : Pattern) : Bool := decide (capacity < p.elements.length)

/-- Substitutes the values of bound variables.  Values are literals even where their text looks like a variable. -/
def bind (p : Pattern) (b : Binding) : Pattern := ⟨p.elements.map (Element.bind b)⟩

def render (p : Pattern) : String := "[" ++ ", ".intercalate (p.elements.map Element.render) ++ "]"

end Pattern
end FactBase
