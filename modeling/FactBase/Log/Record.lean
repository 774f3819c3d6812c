import FactBase.Crc32
import FactBase.Text.Bytes
import FactBase.Text.Numeral
/-!
# Log.Record — one batch of writes as one self-checking record

A record is its own length, the number of its entries, the entries, and the CRC-32 of everything before it.  An entry
is the length of its key, the length of its value, the key and the value.  All numbers are four bytes, least
significant first.  A batch is one record, so a torn write loses it as a whole.
-/
namespace FactBase

/-- Entries written together, in order. -/
abbrev Batch := List (String × String)

/-- Why the bytes at some place of a log are no record. -/
inductive Record.Error where
  | truncated (available : Nat)
  | invalidLength (length : Nat)
  | checksumMismatch (expected actual : Nat)
  | invalidText
  deriving DecidableEq

def Record.Error.message : Record.Error → String
  | .truncated available => "truncated record: only " ++ Numeral.decimal available ++ " bytes remain"
  | .invalidLength length => "invalid record length: " ++ Numeral.decimal length
  | .checksumMismatch expected actual =>
    "record checksum mismatch: expected 0x" ++ Numeral.hex32 expected ++ ", got 0x" ++ Numeral.hex32 actual
  | .invalidText => "record is not valid UTF-8"

namespace Record

def entryBytes (entry : String × String) : List UInt8 :=
  let key := Bytes.ofText entry.1
  let value := Bytes.ofText entry.2
  Bytes.ofWord key.length ++ Bytes.ofWord value.length ++ key ++ value

def payload (batch : Batch) : List UInt8 := batch.flatMap entryBytes

/-- The length of a batch's record: twelve bytes of frame and the payload. -/
def size (batch : Batch) : Nat := 12 + (payload batch).length

/-- Whether the length of the record fits its four bytes. -/
def fits (batch : Batch) : Bool := decide (size batch < 4294967296)

/-- Everything that the checksum covers. -/
def body (batch : Batch) : List UInt8 :=
  Bytes.ofWord (size batch) ++ Bytes.ofWord batch.length ++ payload batch

def encode (batch : Batch) : List UInt8 :=
  body batch ++ Bytes.ofWord (Crc32.checksum (body batch)).toNat

/-- Reads as many entries as announced from the rest of a payload.  `total` is the length of the whole payload and
`start` the place in it where the rest begins; lengths in errors count from its beginning. -/
def entries (total : Nat) : Nat → Nat → List UInt8 → Except Record.Error Batch
  | 0, start, _ => if start = total then .ok [] else .error (.invalidLength total)
  | count + 1, start, rest =>
    match Bytes.toWord? rest, Bytes.toWord? (rest.drop 4) with
    | some keyLength, some valueLength =>
      let stop := start + 8 + keyLength + valueLength
      if total < stop then .error (.invalidLength stop)
      else
        let content := rest.drop 8
        match Bytes.toText? (content.take keyLength), Bytes.toText? ((content.drop keyLength).take valueLength) with
        | some key, some value =>
          (entries total count stop (content.drop (keyLength + valueLength))).map ((key, value) :: ·)
        | _, _ => .error .invalidText
    | _, _ => .error (.invalidLength total)

/-- The batch in the record at the front, and how many bytes the record takes. -/
def decode (bytes : List UInt8) : Except Record.Error (Batch × Nat) :=
  let available := bytes.length
  if available < 12 then .error (.truncated available)
  else
    let length := (Bytes.toWord? bytes).getD 0
    if length < 12 then .error (.invalidLength length)
    else if available < length then .error (.truncated available)
    else
      let covered := bytes.take (length - 4)
      let expected := (Bytes.toWord? (bytes.drop (length - 4))).getD 0
      let actual := (Crc32.checksum covered).toNat
      if expected ≠ actual then .error (.checksumMismatch expected actual)
      else
        let content := covered.drop 8
        (entries content.length ((Bytes.toWord? (bytes.drop 4)).getD 0) 0 content).map (·, length)

/-- A record that can be read takes at least its frame, and no more than there is. -/
theorem decode_size {bytes : List UInt8} {batch : Batch} {n : Nat} (h : decode bytes = .ok (batch, n)) :
    12 ≤ n ∧ n ≤ bytes.length := by
  unfold decode at h
  simp only at h
  split at h
  · simp at h
  split at h
  · simp at h
  split at h
  · simp at h
  split at h
  · simp at h
  rename_i hlow hhigh _
  generalize entries _ _ _ _ = r at h
  cases r with
  | error e => simp [Except.map] at h
  | ok b =>
    simp only [Except.map, Except.ok.injEq, Prod.mk.injEq] at h
    omega

end Record
end FactBase
