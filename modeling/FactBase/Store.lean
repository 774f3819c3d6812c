import FactBase.KeyInterval
import FactBase.Log.Reading
/-!
# Store — the entries, the calls on them, and the faults that strike the calls

A store serves every look-up and scan from an ordered map.  A durable one also has a log file, to which each batch is
appended as one record before it becomes visible.  A fault schedule decides for each call whether it fails.  A failing
look-up returns its error and does nothing else.  A failing scan breaks off after some keys.  A failing write leaves
the map as it was, but may leave a part of its record in the file.  Calls are counted, so a schedule is a function of
the number of the call.
-/
namespace FactBase

inductive Store.Error where
  | io (cause : String)
  | lockPoisoned
  | recordTooLarge (size : Nat)
  | injectedFault (cause : String)
  deriving DecidableEq

namespace Store.Error

def message : Store.Error → String
  | io cause => "I/O error: " ++ cause
  | lockPoisoned => "store lock poisoned"
  | recordTooLarge size => "record too large: " ++ Numeral.decimal size ++ " bytes does not fit a log frame"
  | injectedFault cause => "injected fault: " ++ cause

def causes : Store.Error → List String
  | io cause => [cause]
  | _ => []

/-- What opening a file in a directory that does not exist reports. -/
def noSuchFile : Store.Error := io "No such file or directory (os error 2)"

end Store.Error

/-- How often each kind of call has been made. -/
structure Calls where
  get : Nat
  scan : Nat
  write : Nat
  deriving DecidableEq

def Calls.none : Calls := ⟨0, 0, 0⟩

/-- The calls made since an earlier count. -/
def Calls.since (now earlier : Calls) : Calls :=
  ⟨now.get - earlier.get, now.scan - earlier.scan, now.write - earlier.write⟩

/-- Which calls fail, by how many of their kind came before them.  With its error, a scan has the number of keys that
it yields first, a write the number of bytes that it appends first. -/
structure Faults where
  get : Nat → Option Store.Error
  scan : Nat → Option (Nat × Store.Error)
  write : Nat → Option (Nat × Store.Error)

namespace Faults

def never : Faults := ⟨fun _ => none, fun _ => none, fun _ => none⟩

/-- Some calls that work, then some that fail, then only ones that work. -/
structure Burst where
  skip : Nat
  count : Nat
  /-- How far a scan or a write gets before the error. -/
  after : Nat
  error : Store.Error

/-- Whether a burst that is planned after `start` calls strikes call number `n`. -/
def Burst.strikes (b : Burst) (start n : Nat) : Bool :=
  decide (start + b.skip ≤ n) && decide (n < start + b.skip + b.count)

/-- The schedule of at most one burst for each kind of call, counted from the calls already made. -/
def ofBursts (made : Calls) (get scan write : Option Burst) : Faults where
  get n := (get.filter (·.strikes made.get n)).map (·.error)
  scan n := (scan.filter (·.strikes made.scan n)).map fun b => (b.after, b.error)
  write n := (write.filter (·.strikes made.write n)).map fun b => (b.after, b.error)

end Faults

structure Store where
  entries : KeyMap String
  /-- The bytes of the log file, if the store has one. -/
  file : Option (List UInt8)
  faults : Faults
  calls : Calls

namespace Store

def ofEntries (entries : KeyMap String) : Store := ⟨entries, none, .never, .none⟩

/-- A durable store over an intact log. -/
def ofLog (file : List UInt8) : Store := ⟨(Log.read file).entries, some file, .never, .none⟩

def get (s : Store) (key : String) : Except Store.Error (Option String) × Store :=
  let answer := match s.faults.get s.calls.get with
    | some error => .error error
    | none => .ok (s.entries.get? key)
  (answer, { s with calls.get := s.calls.get + 1 })

/-- The keys that a scan yields, and the error that it breaks off with if it does. -/
def scan (s : Store) (range : KeyInterval) : (List String × Option Store.Error) × Store :=
  let keys := s.entries.keysIn range
  let answer := match s.faults.scan s.calls.scan with
    | some (after, error) => (keys.take after, some error)
    | none => (keys, none)
  (answer, { s with calls.scan := s.calls.scan + 1 })

/-- Refuses a batch whose record is too long for the log, before anything is written. -/
def write (s : Store) (batch : Batch) : Except Store.Error Unit × Store :=
  let s' := { s with calls.write := s.calls.write + 1 }
  if s.file.isSome && !Record.fits batch then (.error (.recordTooLarge (Record.size batch)), s')
  else
    match s.faults.write s.calls.write with
    | some (torn, error) => (.error error, { s' with file := s.file.map (· ++ (Record.encode batch).take torn) })
    | none =>
      (.ok (), { s' with entries := s.entries.insertAll batch, file := s.file.map (· ++ Record.encode batch) })

end Store
end FactBase
