import FactBase.Position
/-!
# Key.IndexOrder — the order in which an index writes the segments

A name spells an ordering of the five positions by their letters.  The type holds orderings only.
-/
namespace FactBase

structure IndexOrder where
  order : List Position
  isOrdering : order.Perm Position.all
  deriving DecidableEq

namespace IndexOrder

/-- Entity, attribute, value, transaction, operation: the index that commits maintain. -/
def eavto : IndexOrder := ⟨Position.all, .refl _⟩

def ofOrder? (order : List Position) : Option IndexOrder :=
  if h : order.isPerm Position.all then some ⟨order, List.isPerm_iff.1 h⟩ else none

def ofName? (name : String) : Option IndexOrder := (name.toList.mapM Position.ofLetter?).bind ofOrder?

def name (index : IndexOrder) : String := String.ofList (index.order.map Position.letter)

/-- How many segments stand before the position's own. -/
def slot (index : IndexOrder) (p : Position) : Nat := index.order.idxOf p

end IndexOrder
end FactBase
