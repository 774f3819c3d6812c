import FactBase.Json.Token
import FactBase.Pattern
/-!
# Json.Form — values, patterns and bindings as JSON

A value is a truth value, a number or a string.  A pattern is the array of its elements' written values, a binding the
object of its pairs in order.  Reading takes exactly these shapes, with any spacing; a name that an object repeats
keeps its place and takes the last value.
-/
namespace FactBase
namespace Json

def ofValue : Value → List Char
  | .text s => quote s.toList
  | v => v.render.toList

def ofMember (p : String × Value) : List Char := quote p.1.toList ++ ':' :: ofValue p.2

/-- Items between two brackets, with commas in between. -/
def enclose (opening closing : Char) (items : List (List Char)) : String :=
  String.ofList (opening :: [','].intercalate items ++ [closing])

def toValue? : Token → Option Value
  | .text s => some (.text (String.ofList s))
  | .truth b => some (.boolean b)
  | .number n => some (.integer n)
  | .mark _ => none

/-- The items of an array after the first one. -/
def moreItems : List Token → Option (List Value)
  | [.mark ']'] => some []
  | .mark ',' :: t :: rest => do
    let value ← toValue? t
    let values ← moreItems rest
    return value :: values
  | _ => none

def toItems? : List Token → Option (List Value)
  | [.mark '[', .mark ']'] => some []
  | .mark '[' :: t :: rest => do
    let value ← toValue? t
    let values ← moreItems rest
    return value :: values
  | _ => none

/-- The members of an object after the first one. -/
def moreMembers : List Token → Option (List (String × Value))
  | [.mark '\x7d'] => some []
  | .mark ',' :: .text name :: .mark ':' :: t :: rest => do
    let value ← toValue? t
    let members ← moreMembers rest
    return (String.ofList name, value) :: members
  | _ => none

def toMembers? : List Token → Option (List (String × Value))
  | [.mark '\x7b', .mark '\x7d'] => some []
  | .mark '\x7b' :: .text name :: .mark ':' :: t :: rest => do
    let value ← toValue? t
    let members ← moreMembers rest
    return (String.ofList name, value) :: members
  | _ => none

end Json

def Value.toJson (v : Value) : String := String.ofList (Json.ofValue v)

def Value.ofJson? (text : String) : Option Value :=
  match Json.tokens text.toList with
  | some [t] => Json.toValue? t
  | _ => none

def Element.toJson (e : Element) : String := e.toValue.toJson

def Pattern.toJson (p : Pattern) : String := Json.enclose '[' ']' (p.elements.map fun e => Json.ofValue e.toValue)

def Pattern.ofJson? (text : String) : Option Pattern :=
  ((Json.tokens text.toList).bind Json.toItems?).map fun values => ⟨values.map Element.ofValue⟩

def Binding.toJson (b : Binding) : String := Json.enclose '\x7b' '\x7d' (b.pairs.map Json.ofMember)

def Binding.ofJson? (text : String) : Option Binding :=
  ((Json.tokens text.toList).bind Json.toMembers?).map Binding.ofList

end FactBase
