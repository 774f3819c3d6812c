import FactBase.Settings
import FactBase.DataFile
/-!
# Report — the entities that a command line names

Each entity is printed as a line of its own and an indented line for each of its attributes.  The first failure ends
the report with exit code 1; what was printed before it stays.
-/
namespace FactBase

structure Report where
  code : UInt32
  output : String
  /-- The log file afterwards. -/
  file : DataFile

namespace Report

def entityLines (id : String) (attributes : KeyMap Value) : String :=
  attributes.pairs.foldl (fun text p => text ++ "  " ++ p.1 ++ ": " ++ p.2.render ++ "\n") (id ++ "\n")

/-- Reports on entities in turn; the code and the text printed. -/
def entities (db : Database) (output : String) : List String → UInt32 × String
  | [] => (0, output)
  | id :: rest =>
    let o := db.entity id
    match o.result with
    | .ok attributes => entities o.state (output ++ entityLines id attributes) rest
    | .error _ => (1, output)

/-- Opens the log file, whose directory is there by then, and reports on entities. -/
def ofFile (file : DataFile) (ids : List String) : Report :=
  let o := Database.ofFile file
  let file' := match o.state.bind (·.file) with
    | some bytes => .present bytes
    | none => file
  match o.result with
  | .ok db =>
    let (code, output) := entities db "" ids
    ⟨code, output, file'⟩
  | .error _ => ⟨1, "", file'⟩

/-- The whole command: a wrong setting ends it before the log file is touched. -/
def ofCommand (lookup : String → Option String) (file : DataFile) (ids : List String) : Report :=
  match Settings.ofLookup lookup with
  | .error _ => ⟨1, "", file⟩
  | .ok _ => ofFile file.createDirectory ids

end Report
end FactBase
