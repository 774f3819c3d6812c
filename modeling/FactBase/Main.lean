import FactBase.Report
/-!
# Main — the command line

Prints the current state of every entity that is named, from the log file that the environment names.
-/
namespace FactBase

def readFile? (path : String) : IO DataFile :=
  try
    let bytes ← IO.FS.readBinFile path
    return .present bytes.toList
  catch _ => return .missing

/-- Makes the file what the report leaves, where that differs from what was found. -/
def saveFile (path : String) (found left : DataFile) : IO Unit :=
  if found = left then return ()
  else match left with
    | .present bytes => IO.FS.writeBinFile path ⟨bytes.toArray⟩
    | _ => return ()

def report (lookup : String → Option String) (path : String) (ids : List String) : IO UInt32 := do
  match Settings.directory? path with
  | some directory => IO.FS.createDirAll directory
  | none => pure ()
  let found ← readFile? path
  let r := Report.ofCommand lookup found ids
  saveFile path found r.file
  IO.print r.output
  return r.code

end FactBase

open FactBase in
def main (ids : List String) : IO UInt32 := do
  let dataFile ← IO.getEnv Settings.dataFileName
  let syncWrites ← IO.getEnv Settings.syncWritesName
  let lookup := fun name =>
    if name = Settings.dataFileName then dataFile
    else if name = Settings.syncWritesName then syncWrites
    else none
  match Settings.ofLookup lookup with
  | .error _ => return 1
  | .ok config =>
    try report lookup config.dataFile ids
    catch _ => return 1
