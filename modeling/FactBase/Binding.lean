import FactBase.Text.Quoted
import FactBase.Value
/-!
# Binding — values for variables, in the order they were bound

A binding has at most one value for a name.  Binding a name again replaces its value and leaves it in its place, so
answers list their variables in the order in which the clauses bound them.
-/
namespace FactBase

namespace Binding

/-- Replaces the value of a name in place, or puts the name at the end. -/
def bindName (name : String) (value : Value) : List (String × Value) → List (String × Value)
  | [] => [(name, value)]
  | (n, v) :: rest => if n = name then (n, value) :: rest else (n, v) :: bindName name value rest

theorem map_fst_bindName (name : String) (value : Value) :
    ∀ ps : List (String × Value), (bindName name value ps).map (·.1) =
      if name ∈ ps.map (·.1) then ps.map (·.1) else ps.map (·.1) ++ [name]
  | [] => by simp [bindName]
  | (n, v) :: rest => by
    by_cases h : n = name
    · simp [bindName, h]
    · have h' : name ≠ n := Ne.symm h
      simp only [bindName, h, if_false, List.map_cons, map_fst_bindName name value rest, List.mem_cons, h', false_or]
      split <;> simp

theorem find?_bindName (name : String) (value : Value) (x : String) :
    ∀ ps : List (String × Value), (bindName name value ps).find? (·.1 == x) =
      if name = x then some (name, value) else ps.find? (·.1 == x)
  | [] => by by_cases hx : name = x <;> simp [bindName, hx]
  | (n, v) :: rest => by
    have ih := find?_bindName name value x rest
    unfold bindName
    split
    · rename_i heq
      subst heq
      by_cases hx : n = x <;> simp [hx]
    · rename_i hne
      by_cases hx : n = x
      · have hnx : ¬name = x := fun h => hne (hx.trans h.symm)
        simp [hx, hnx]
      · have hb : (n == x) = false := by simpa using hx
        simp [hb, ih]

end Binding

structure Binding where
  pairs : List (String × Value)
  names_nodup : (pairs.map (·.1)).Nodup
  deriving DecidableEq

namespace Binding

def empty : Binding := ⟨[], .nil⟩

def insert (b : Binding) (name : String) (value : Value) : Binding where
  pairs := bindName name value b.pairs
  names_nodup := by
    rw [map_fst_bindName]
    split
    · exact b.names_nodup
    · rename_i h
      refine List.nodup_append.2 ⟨b.names_nodup, List.pairwise_singleton .., fun x hx y hy => ?_⟩
      rw [List.mem_singleton.1 hy]
      exact fun hxy => h (hxy ▸ hx)

def ofList (pairs : List (String × Value)) : Binding := pairs.foldl (fun b p => b.insert p.1 p.2) empty

def get? (b : Binding) (name : String) : Option Value := (b.pairs.find? (·.1 == name)).map (·.2)

def contains (b : Binding) (name : String) : Bool := (b.get? name).isSome

def size (b : Binding) : Nat := b.pairs.length

def isEmpty (b : Binding) : Bool := b.pairs.isEmpty

/-- Inserts all of another binding, whose values win. -/
def merge (b other : Binding) : Binding := other.pairs.foldl (fun b p => b.insert p.1 p.2) b

theorem get?_insert (b : Binding) (name x : String) (value : Value) :
    (b.insert name value).get? x = if name = x then some value else b.get? x := by
  unfold get? insert
  rw [find?_bindName]
  split <;> rfl

def renderValue : Value → String
  | .boolean b => "Boolean(" ++ (Value.boolean b).render ++ ")"
  | .integer n => "Integer(" ++ (Value.integer n).render ++ ")"
  | .text s => "String(" ++ Quoted.render s ++ ")"

def render (b : Binding) : String :=
  "\x7b" ++ ", ".intercalate (b.pairs.map fun p => p.1 ++ ": " ++ renderValue p.2) ++ "\x7d"

end Binding
end FactBase
