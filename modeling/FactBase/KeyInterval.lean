import FactBase.KeyMap
/-!
# KeyInterval — the keys from a lower to an upper bound, both included

An interval for a stem ends at the stem followed by U+00FF.  The UTF-8 bytes of that character lie above every ASCII
byte, so the interval holds every ASCII key that starts with the stem.
-/
namespace FactBase

structure KeyInterval where
  lower : String
  upper : String
  deriving DecidableEq

namespace KeyInterval

/-- Follows a stem in the lower bound. -/
def lowMark : Char := '\x00'

/-- Follows a stem in the upper bound. -/
def highMark : Char := '\u00ff'

/-- The ASCII keys that start with a stem and go on after it. -/
def under (stem : String) : KeyInterval := ⟨stem.push lowMark, stem.push highMark⟩

/-- The stem itself and the ASCII keys that start with it. -/
def startingWith (stem : String) : KeyInterval := ⟨stem, stem.push highMark⟩

def contains (i : KeyInterval) (key : String) : Bool := decide (i.lower ≤ key) && decide (key ≤ i.upper)

def isEmpty (i : KeyInterval) : Bool := decide (i.upper < i.lower)

theorem contains_of_isEmpty {i : KeyInterval} (h : i.isEmpty = true) (key : String) : i.contains key = false := by
  by_cases hc : i.contains key = true
  · simp only [contains, isEmpty, Bool.and_eq_true, decide_eq_true_eq] at hc h
    exact absurd (String.le_trans hc.1 hc.2) (String.not_le.2 h)
  · simpa using hc

end KeyInterval

/-- The keys of a map that lie in an interval, ascending. -/
def KeyMap.keysIn {α : Type} (m : KeyMap α) (i : KeyInterval) : List String := m.keys.filter i.contains

end FactBase
