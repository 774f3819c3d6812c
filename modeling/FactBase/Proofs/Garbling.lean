import FactBase.Proofs.Checksum
import FactBase.Proofs.Replay
/-!
# Garbling — a log in which one byte has changed

Every byte of a record is covered by its checksum or is part of it, and where the length in front has not changed, both
are found where they were.  So the record is refused with what the two are now (`decode_encode_set`), and nothing else
is taken for a record at its place.  Reading gives the records before it and looks for none behind it.  Main statement:
a changed byte is caught, and costs no more than the records from its own on (`changed_byte_is_caught`).
-/
namespace FactBase

namespace Bytes

theorem toWord?_set {bytes : List UInt8} {place : Nat} (h : 4 ≤ place) (byte : UInt8) :
    toWord? (bytes.set place byte) = toWord? bytes := by
  rw [← toWord?_take (Nat.le_refl 4), List.take_set_of_le h, toWord?_take (Nat.le_refl 4)]

/-- Four bytes that have changed hold another number. -/
theorem exists_toWord?_set {n place : Nat} {byte : UInt8} (hchange : (ofWord n).set place byte ≠ ofWord n) :
    ∃ k, k ≠ n ∧ ∀ rest, toWord? ((ofWord n).set place byte ++ rest) = some k := by
  have hfour : ((ofWord n).set place byte).length = 4 := by rw [List.length_set, length_ofWord]
  obtain ⟨k, hk⟩ := toWord?_isSome (Nat.le_of_eq hfour.symm)
  refine ⟨k, ?_, fun rest => by rw [toWord?_append (Nat.le_of_eq hfour.symm), hk]⟩
  rintro rfl
  have hsame := (eq_of_toWord? hk).2
  rw [List.drop_eq_nil_of_le (Nat.le_of_eq hfour), List.append_nil] at hsame
  exact hchange hsame

end Bytes

namespace Record

/-- **A record whose checksum is wrong is refused with both checksums**, whatever follows. -/
theorem decode_of_checksum_ne {covered sum : List UInt8} {expected : Nat} (hframe : 8 ≤ covered.length)
    (hlength : Bytes.toWord? covered = some (covered.length + 4)) (hsum : Bytes.toWord? sum = some expected)
    (hne : expected ≠ (Crc32.checksum covered).toNat) :
    decode (covered ++ sum) = .error (.checksumMismatch expected (Crc32.checksum covered).toNat) := by
  have hfour : 4 ≤ sum.length := by
    rw [(Bytes.eq_of_toWord? hsum).2, List.length_append, Bytes.length_ofWord]
    omega
  have hfirst : Bytes.toWord? (covered ++ sum) = some (covered.length + 4) := by
    rw [Bytes.toWord?_append (by omega), hlength]
  unfold decode
  simp only [hfirst, Option.getD_some, List.length_append, Nat.add_sub_cancel, List.take_left, List.drop_left, hsum]
  rw [if_neg (by omega), if_neg (by omega), if_neg (by omega), if_pos hne]

/-- **A record in which a byte behind the length has changed is refused**: either what the checksum covers is not what
it was, or the checksum itself. -/
theorem decode_encode_set {batch : Batch} (h : fits batch = true) {place : Nat} (hbehind : 4 ≤ place) {byte : UInt8}
    (hchange : (encode batch).set place byte ≠ encode batch) :
    ∃ expected actual, expected ≠ actual ∧
      ∀ rest, decode ((encode batch).set place byte ++ rest) = .error (.checksumMismatch expected actual) := by
  have hsize : (body batch).length + 4 = size batch := length_body batch
  have hframe : 12 ≤ size batch := Nat.le_add_right 12 _
  have hsum := Bytes.toWord?_ofWord (Crc32.checksum (body batch)).toNat_lt
  unfold encode at hchange ⊢
  by_cases hcovered : place < (body batch).length
  · rw [List.set_append_left _ _ hcovered] at hchange ⊢
    have hne : (Crc32.checksum (body batch)).toNat ≠ (Crc32.checksum ((body batch).set place byte)).toNat := by
      intro heq
      exact hchange (by rw [Crc32.set_eq_of_checksum (UInt32.toNat_inj.1 heq.symm)])
    refine ⟨_, _, hne, fun rest => ?_⟩
    rw [List.append_assoc]
    refine decode_of_checksum_ne ?_ ?_ (hsum rest) hne
    · rw [List.length_set]; omega
    · rw [Bytes.toWord?_set hbehind, toWord?_body h, List.length_set, hsize]
  · rw [List.set_append_right _ _ (Nat.not_lt.1 hcovered)] at hchange ⊢
    obtain ⟨expected, hne, hexpected⟩ := Bytes.exists_toWord?_set fun heq => hchange (by rw [heq])
    refine ⟨expected, _, hne, fun rest => ?_⟩
    rw [List.append_assoc]
    exact decode_of_checksum_ne (by omega) (by rw [toWord?_body h, hsize]) (hexpected rest) hne

end Record

namespace Log

/-- Every byte of a log is in one of its records. -/
theorem exists_record : ∀ {batches : List Batch} {place : Nat}, place < (ofBatches batches).length →
    ∃ before batch after, batches = before ++ batch :: after ∧
      (ofBatches before).length ≤ place ∧ place < (ofBatches before).length + Record.size batch
  | batch :: batches, place, h => by
    rw [ofBatches_cons, List.length_append, Record.length_encode] at h
    by_cases hfirst : place < Record.size batch
    · refine ⟨[], batch, batches, rfl, Nat.zero_le place, ?_⟩
      rwa [ofBatches, List.flatMap_nil, List.length_nil, Nat.zero_add]
    · obtain ⟨before, batch', after, rfl, hstart, hend⟩ :=
        exists_record (show place - Record.size batch < (ofBatches batches).length by omega)
      refine ⟨batch :: before, batch', after, rfl, ?_, ?_⟩ <;>
        rw [ofBatches_cons, List.length_append, Record.length_encode] <;> omega

theorem set_ofBatches {before after : List Batch} {batch : Batch} {place : Nat} {byte : UInt8}
    (hstart : (ofBatches before).length ≤ place) (hstop : place < (ofBatches before).length + Record.size batch) :
    (ofBatches (before ++ batch :: after)).set place byte = ofBatches before ++
      ((Record.encode batch).set (place - (ofBatches before).length) byte ++ ofBatches after) := by
  rw [ofBatches_append, ofBatches_cons, List.set_append_right _ _ hstart,
    List.set_append_left _ _ (by rw [Record.length_encode]; omega)]

/-- **Reading a log stops at the record that has changed.** -/
theorem read_set_ofBatches {before after : List Batch} {batch : Batch}
    (hfits : ∀ b ∈ before ++ batch :: after, Record.fits b = true) {place : Nat} {byte : UInt8}
    (hstart : (ofBatches before).length + 4 ≤ place) (hstop : place < (ofBatches before).length + Record.size batch)
    (hchange : (ofBatches (before ++ batch :: after)).set place byte ≠ ofBatches (before ++ batch :: after)) :
    let changed := (ofBatches (before ++ batch :: after)).set place byte
    let start := (ofBatches before).length
    ∃ expected actual, expected ≠ actual ∧
      Record.decode ((changed.drop start).take (Record.size batch)) = .error (.checksumMismatch expected actual) ∧
      Record.decode (changed.drop start) = .error (.checksumMismatch expected actual) ∧
      read changed = ⟨before, changed.drop start, some (.checksumMismatch expected actual)⟩ := by
  intro changed start
  have hset : changed =
      ofBatches before ++ ((Record.encode batch).set (place - start) byte ++ ofBatches after) :=
    set_ofBatches (by omega) hstop
  have hfront : ∀ b ∈ before, Record.fits b = true := fun b hb => hfits b (List.mem_append_left _ hb)
  have hbatch : Record.fits batch = true := hfits batch (List.mem_append_right _ List.mem_cons_self)
  have hrecord : (Record.encode batch).set (place - start) byte ≠ Record.encode batch := by
    intro heq
    rw [set_ofBatches (by omega) hstop, heq, ← ofBatches_cons, ← ofBatches_append] at hchange
    exact hchange rfl
  obtain ⟨expected, actual, hne, hdecode⟩ := Record.decode_encode_set hbatch (by omega) hrecord
  generalize hgarbled : (Record.encode batch).set (place - start) byte = garbled at hset hdecode
  have hlen : garbled.length = Record.size batch := by
    rw [← hgarbled, List.length_set, Record.length_encode]
  have hdrop : changed.drop start = garbled ++ ofBatches after := by rw [hset, List.drop_left]
  have hne' : garbled ++ ofBatches after ≠ [] := by
    intro hnil
    have hzero := congrArg List.length hnil
    rw [List.length_append, hlen, Record.size, List.length_nil] at hzero
    omega
  refine ⟨expected, actual, hne, ?_, hdrop ▸ hdecode (ofBatches after), ?_⟩
  · rw [hdrop, ← hlen, List.take_left, ← List.append_nil garbled, hdecode []]
  · rw [hdrop, hset, read_ofBatches_append hfront, read_of_error hne' (hdecode (ofBatches after)), List.append_nil]

/-- **A changed byte is caught, and the records before it are kept.**  After any writes and reopenings that began with
an empty log, let one byte of the file change.  It is in the record of one of the written batches.  Unless it is one of
the four that give its length, this record is refused for its checksum, by itself and with all that follows it.
Reading the file gives the batches before it, and the map that they build, and stops at the record with that fault.
Opening the file cuts it off there. -/
theorem changed_byte_is_caught (steps : List Step) {file : List UInt8}
    (hfile : (steps.foldl Step.apply (openStore []).state).file = some file) {place : Nat} {byte : UInt8}
    (hchange : file.set place byte ≠ file) :
    let changed := file.set place byte
    ∃ before batch after, Step.written steps = before ++ batch :: after ∧
      let start := (ofBatches before).length
      start ≤ place ∧ place < start + Record.size batch ∧
      (start + 4 ≤ place → ∃ expected actual, expected ≠ actual ∧
        let fault : Record.Error := .checksumMismatch expected actual
        Record.decode ((changed.drop start).take (Record.size batch)) = .error fault ∧
        Record.decode (changed.drop start) = .error fault ∧
        read changed = ⟨before, changed.drop start, some fault⟩ ∧
        (intact changed).length = start ∧
        (read changed).entries = before.foldl KeyMap.insertAll .empty ∧
        (openStore changed).state.file = some (ofBatches before) ∧
        (openStore changed).events = [.truncatedTail start (changed.length - start) fault,
          .replayedLog before.length (before.foldl KeyMap.insertAll .empty).size]) := by
  obtain ⟨hserves, -⟩ := serves_steps steps (serves_openStore []) rfl
  rw [read_nil, List.nil_append] at hserves
  obtain rfl : file = ofBatches (Step.written steps) := Option.some.inj (hfile.symm.trans hserves.file)
  have hfits := hserves.fits
  generalize Step.written steps = batches at hfits hchange ⊢
  intro changed
  have hplace : place < (ofBatches batches).length :=
    Nat.lt_of_not_le fun hout => hchange (List.set_eq_of_length_le hout)
  obtain ⟨before, batch, after, rfl, hstart, hstop⟩ := exists_record hplace
  refine ⟨before, batch, after, rfl, hstart, hstop, fun hbehind => ?_⟩
  obtain ⟨expected, actual, hne, halone, hdecode, hread⟩ := read_set_ofBatches hfits hbehind hstop hchange
  have hintact : intact changed = ofBatches before := by rw [intact_eq, hread]
  refine ⟨expected, actual, hne, halone, hdecode, hread, congrArg List.length hintact, ?_, congrArg some hintact, ?_⟩
  · rw [Reading.entries, hread]
  · change openEvents changed = _
    unfold openEvents
    dsimp only
    rw [hintact, Reading.entries, hread, List.length_drop]
    rfl

/-- Of two records the second has its value changed, from `2` to `3`. -/
theorem changed_byte_is_caught_value :
    let steps := [.write [("a", "1")] (by decide), .reopen, .write [("b", "2")] (by decide)]
    let file := ofBatches [[("a", "1")], [("b", "2")]]
    let changed := file.set 39 51
    (steps.foldl Step.apply (openStore []).state).file = some file ∧ changed ≠ file ∧
      ∃ expected actual, expected ≠ actual ∧
        read changed = ⟨[[("a", "1")]], changed.drop 22, some (.checksumMismatch expected actual)⟩ := by
  intro steps file changed
  have hfile : (steps.foldl Step.apply (openStore []).state).file = some file := by decide +kernel
  have hchange : changed ≠ file := by decide +kernel
  obtain ⟨before, batch, after, hwritten, hstart, hstop, hcaught⟩ := changed_byte_is_caught steps hfile hchange
  -- the place is behind the first record, so the second is the one
  rcases before with _ | ⟨first, _ | ⟨second, rest⟩⟩
  · obtain ⟨rfl, -⟩ : [("a", "1")] = batch ∧ _ := List.cons.inj hwritten
    exact absurd hstop (by decide +kernel)
  · obtain ⟨rfl, -⟩ : [("a", "1")] = first ∧ _ := List.cons.inj hwritten
    obtain ⟨expected, actual, hne, -, -, hread, -⟩ := hcaught (by decide +kernel)
    exact ⟨hfile, hchange, expected, actual, hne, hread⟩
  · simp [steps, Step.written] at hwritten

end Log
end FactBase
