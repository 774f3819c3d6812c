import FactBase.Database
/-!
# DataFile — opening a database on a log file

Opening a log drops its torn tail from the file before anything is appended.  The file is created where it is missing,
but its directory is not.
-/
namespace FactBase

/-- The place of a log file. -/
inductive DataFile where
  | noDirectory
  | missing
  | present (bytes : List UInt8)
  deriving DecidableEq

namespace DataFile

def content : DataFile → List UInt8
  | present bytes => bytes
  | _ => []

def createDirectory : DataFile → DataFile
  | noDirectory => missing
  | f => f

def length (f : DataFile) : Nat := f.content.length

def isPresent : DataFile → Bool
  | present _ => true
  | _ => false

end DataFile

namespace Log

/-- What opening a log tells: the tail that it drops, if there is one, and what it has read. -/
def openEvents (bytes : List UInt8) : List Event :=
  let reading := read bytes
  let dropped := match reading.fault with
    | some fault => [.truncatedTail (intact bytes).length reading.tail.length fault]
    | none => []
  dropped ++ [.replayedLog reading.batches.length reading.entries.size]

/-- A durable store over the intact part of a log. -/
def openStore (bytes : List UInt8) : Outcome Store Empty Unit := ⟨.ok (), .ofLog (intact bytes), openEvents bytes⟩

end Log

/-- Opens a database on a log file.  The state is the store as far as it was opened. -/
def Database.ofFile (file : DataFile) : Outcome (Option Store) Database.OpenError Database :=
  match file with
  | .noDirectory => ⟨.error (.store .noSuchFile), none, []⟩
  | f =>
    let log := Log.openStore f.content
    let db := Database.ofStore log.state
    ⟨db.result, some db.state, log.events ++ db.events⟩

end FactBase
