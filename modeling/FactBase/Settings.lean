import FactBase.Text.Blank
/-!
# Settings — what named variables choose

One variable holds the path of the log file, the other says whether each batch is flushed to disk before it becomes
visible.  An empty path is no path.  The flag is a word for yes or no, in any case, with blanks around it.
-/
namespace FactBase

structure Settings where
  dataFile : String
  syncWrites : Bool
  deriving DecidableEq

inductive Settings.Error where
  | notBoolean (name value : String)
  deriving DecidableEq

def Settings.Error.message : Settings.Error → String
  | .notBoolean name value =>
    "invalid value for " ++ name ++ ": '" ++ value ++ "' is not a boolean (expected true or false)"

namespace Settings

def dataFileName : String := "FACTLOG_DATA_FILE"

def syncWritesName : String := "FACTLOG_SYNC_WRITES"

/-- What stands where nothing is set. -/
def standard : Settings := ⟨"./data/factlog.log", true⟩

def toBoolean? (value : String) : Option Bool :=
  let word := String.ofList ((trimBlanks value.toList).map Char.toLower)
  if word = "true" ∨ word = "1" ∨ word = "yes" then some true
  else if word = "false" ∨ word = "0" ∨ word = "no" then some false
  else none

def ofLookup (lookup : String → Option String) : Except Settings.Error Settings :=
  let dataFile := ((lookup dataFileName).filter (· ≠ "")).getD standard.dataFile
  match lookup syncWritesName with
  | none => .ok ⟨dataFile, standard.syncWrites⟩
  | some value =>
    match toBoolean? value with
    | some syncWrites => .ok ⟨dataFile, syncWrites⟩
    | none => .error (.notBoolean syncWritesName value)

/-- The directory that a path names the file in: what stands before the last slash, if anything does. -/
def directory? (path : String) : Option String :=
  let before := (path.toList.reverse.dropWhile (· != '/')).reverse
  let name := (before.reverse.dropWhile (· == '/')).reverse
  if before.isEmpty then none
  else if name.isEmpty then some "/"
  else some (String.ofList name)

end Settings
end FactBase
