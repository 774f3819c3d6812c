import FactBase.Proofs.Framing
/-!
# Slicing — reading a record by places in its bytes

`Record.decode` goes on with what is left of the bytes.  Here a record is read by places instead, and every access is
checked: one that does not lie within the bytes ends the reading without an answer.  Whatever the bytes are, this does
not happen, and the answer is the same (`decodeWithin_eq`): no length that they announce leads out of them.  Main
statement: batches and the bytes of their records determine each other (`record_codec_is_exact`).
-/
namespace FactBase

namespace Bytes

variable {bytes : List UInt8} {start stop place : Nat}

/-- The bytes from one place up to another, if both are places within the bytes. -/
def slice? (bytes : List UInt8) (start stop : Nat) : Option (List UInt8) :=
  if start ≤ stop ∧ stop ≤ bytes.length then some ((bytes.take stop).drop start) else none

def wordAt? (bytes : List UInt8) (place : Nat) : Option Nat := (slice? bytes place (place + 4)).bind toWord?

theorem slice?_eq (hstart : start ≤ stop) (hstop : stop ≤ bytes.length) :
    slice? bytes start stop = some ((bytes.drop start).take (stop - start)) := by
  rw [slice?, if_pos ⟨hstart, hstop⟩, List.drop_take]

theorem toWord?_eq_none (h : bytes.length < 4) : toWord? bytes = none := by
  rcases bytes with _ | ⟨_, _ | ⟨_, _ | ⟨_, _ | ⟨_, _⟩⟩⟩⟩
  case cons.cons.cons.cons => simp at h; omega
  all_goals rfl

/-- A number is read at a place exactly if its four bytes are there. -/
theorem wordAt?_eq (bytes : List UInt8) (place : Nat) : wordAt? bytes place = toWord? (bytes.drop place) := by
  by_cases h : place + 4 ≤ bytes.length
  · rw [wordAt?, slice?_eq (Nat.le_add_right place 4) h, Option.bind_some, toWord?_take (by omega)]
  · have hshort : (bytes.drop place).length < 4 := by
      rw [List.length_drop]
      omega
    rw [wordAt?, slice?, if_neg (fun hplaces => h hplaces.2), toWord?_eq_none hshort]
    rfl

theorem wordAt?_isSome (h : place + 4 ≤ bytes.length) :
    ∃ n, wordAt? bytes place = some n ∧ toWord? (bytes.drop place) = some n := by
  have hfour : 4 ≤ (bytes.drop place).length := by
    rw [List.length_drop]
    omega
  obtain ⟨n, hn⟩ := toWord?_isSome hfour
  exact ⟨n, (wordAt?_eq bytes place).trans hn, hn⟩

end Bytes

namespace Record

/-- Reads as many entries as announced, from a place in the payload on. -/
def entriesWithin (payload : List UInt8) : Nat → Nat → Option (Except Record.Error Batch)
  | 0, place => some (if place = payload.length then .ok [] else .error (.invalidLength payload.length))
  | count + 1, place =>
    match Bytes.wordAt? payload place, Bytes.wordAt? payload (place + 4) with
    | some keyLength, some valueLength =>
      let split := place + 8 + keyLength
      let stop := split + valueLength
      if payload.length < stop then some (.error (.invalidLength stop))
      else do
        let keyBytes ← Bytes.slice? payload (place + 8) split
        let valueBytes ← Bytes.slice? payload split stop
        match Bytes.toText? keyBytes, Bytes.toText? valueBytes with
        | some key, some value =>
          let rest ← entriesWithin payload count stop
          return rest.map ((key, value) :: ·)
        | _, _ => return .error .invalidText
    | _, _ => some (.error (.invalidLength payload.length))

/-- Reads the record at the front; there is no answer if something outside of the bytes is asked for. -/
def decodeWithin (bytes : List UInt8) : Option (Except Record.Error (Batch × Nat)) :=
  if bytes.length < 12 then some (.error (.truncated bytes.length))
  else do
    let length ← Bytes.wordAt? bytes 0
    if length < 12 then return .error (.invalidLength length)
    else if bytes.length < length then return .error (.truncated bytes.length)
    else
      let covered ← Bytes.slice? bytes 0 (length - 4)
      let expected ← Bytes.wordAt? bytes (length - 4)
      let actual := (Crc32.checksum covered).toNat
      if expected ≠ actual then return .error (.checksumMismatch expected actual)
      else
        let count ← Bytes.wordAt? bytes 4
        let content ← Bytes.slice? bytes 8 (length - 4)
        let batch ← entriesWithin content count 0
        return batch.map (·, length)

/-- **Entries are read within the payload**, whatever lengths they announce. -/
theorem entriesWithin_eq (payload : List UInt8) : ∀ (count place : Nat), place ≤ payload.length →
    entriesWithin payload count place = some (entries payload.length count place (payload.drop place))
  | 0, place, _ => rfl
  | count + 1, place, hplace => by
    rw [entriesWithin, entries, Bytes.wordAt?_eq, Bytes.wordAt?_eq, List.drop_drop]
    cases Bytes.toWord? (payload.drop place) with
    | none => rfl
    | some keyLength =>
      cases Bytes.toWord? (payload.drop (place + 4)) with
      | none => rfl
      | some valueLength =>
        dsimp only
        split
        · rfl
        rename_i hstop
        have hsplit : place + 8 + keyLength - (place + 8) = keyLength := by omega
        have hvalue : place + 8 + keyLength + valueLength - (place + 8 + keyLength) = valueLength := by omega
        have hrest : place + 8 + (keyLength + valueLength) = place + 8 + keyLength + valueLength := by omega
        rw [Bytes.slice?_eq (Nat.le_add_right _ _) (by omega), Bytes.slice?_eq (Nat.le_add_right _ _) (by omega),
          hsplit, hvalue, List.drop_drop, List.drop_drop, List.drop_drop, hrest]
        simp only [Option.bind_eq_bind, Option.bind_some, entriesWithin_eq payload count _ (Nat.not_lt.1 hstop)]
        cases Bytes.toText? ((payload.drop (place + 8)).take keyLength) with
        | none => rfl
        | some key =>
          cases Bytes.toText? ((payload.drop (place + 8 + keyLength)).take valueLength) with
          | none => rfl
          | some value => rfl

/-- **A record is read within its bytes**, whatever they are. -/
theorem decodeWithin_eq (bytes : List UInt8) : decodeWithin bytes = some (decode bytes) := by
  unfold decodeWithin decode
  dsimp only
  split
  · rfl
  rename_i hframe
  obtain ⟨length, hlengthAt, hlength⟩ := Bytes.wordAt?_isSome (show 0 + 4 ≤ bytes.length by omega)
  rw [List.drop_zero] at hlength
  rw [hlengthAt, hlength, Option.getD_some]
  simp only [Option.bind_eq_bind, Option.bind_some]
  split
  · rfl
  split
  · rfl
  rename_i hlow hhigh
  obtain ⟨expected, hexpectedAt, hexpected⟩ :=
    Bytes.wordAt?_isSome (show length - 4 + 4 ≤ bytes.length by omega)
  obtain ⟨count, hcountAt, hcount⟩ := Bytes.wordAt?_isSome (show 4 + 4 ≤ bytes.length by omega)
  rw [Bytes.slice?_eq (Nat.zero_le _) (by omega), Bytes.slice?_eq (by omega) (by omega), hexpectedAt, hcountAt,
    hexpected, hcount, Option.getD_some, Option.getD_some, List.drop_zero, Nat.sub_zero, List.drop_take]
  simp only [Option.bind_some]
  split
  · rfl
  · rw [entriesWithin_eq _ _ 0 (Nat.zero_le _)]
    rfl

/-- **Batches and the bytes of their records determine each other.**  A batch whose record fits is read back from the
record, whatever bytes follow, and what breaks off before the end of the record is truncated.  Reading never asks for
anything outside of the bytes.  And where a batch is read, its record is what the bytes begin with, as far as they were
read; so a batch is read from one sequence of bytes only. -/
theorem record_codec_is_exact :
    (∀ batch, fits batch = true → ∀ rest, decode (encode batch ++ rest) = .ok (batch, (encode batch).length)) ∧
    (∀ batch, fits batch = true → ∀ front, front <+: encode batch → front ≠ encode batch →
      decode front = .error (.truncated front.length)) ∧
    (∀ bytes, decodeWithin bytes = some (decode bytes)) ∧
    (∀ bytes batch n, decode bytes = .ok (batch, n) →
      12 ≤ n ∧ n ≤ bytes.length ∧ fits batch = true ∧ encode batch = bytes.take n) ∧
    ∀ bytes bytes' batch n n', decode bytes = .ok (batch, n) → decode bytes' = .ok (batch, n') →
      bytes.take n = bytes'.take n' := by
  have hconverse : ∀ bytes batch n, decode bytes = .ok (batch, n) →
      12 ≤ n ∧ n ≤ bytes.length ∧ fits batch = true ∧ encode batch = bytes.take n := by
    intro bytes batch n h
    obtain ⟨hlow, hhigh⟩ := decode_size h
    obtain ⟨hfits, hn, hbytes⟩ := encode_of_decode h
    refine ⟨hlow, hhigh, hfits, ?_⟩
    rw [hbytes, hn, ← length_encode, List.take_left]
  refine ⟨fun batch hfits rest => ?_, fun batch hfits front hfront hne => ?_, decodeWithin_eq, hconverse,
    fun bytes bytes' batch n n' h h' => ?_⟩
  · rw [decode_encode_append hfits, length_encode]
  · have hlt : front.length < size batch := by
      rw [← length_encode]
      exact Nat.lt_of_le_of_ne hfront.length_le fun heq => hne (hfront.eq_of_length heq)
    obtain ⟨rest, hrest⟩ := hfront
    have htake := decode_take_encode hfits hlt
    rwa [← hrest, List.take_left] at htake
  · rw [← (hconverse bytes batch n h).2.2.2, ← (hconverse bytes' batch n' h').2.2.2]

end Record
end FactBase
