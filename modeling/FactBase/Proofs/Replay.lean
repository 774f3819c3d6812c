import FactBase.DataFile
import FactBase.Proofs.Entries
import FactBase.Proofs.Framing
/-!
# Replay — what a log says after writes, cuts and reopenings

Reading a log gives back the batches whose records it begins with (`read_ofBatches_append`), so its intact part is the
records of those batches (`intact_eq`) and reads without fault.  Between two records nothing else fits: a log that is
cut anywhere keeps the records that lie wholly before the cut (`read_take_ofBatches`).  Main statement: a log store
serves the map that its batches build, before and after any reopening.
-/
namespace FactBase
namespace Log

/-- The records of batches, one after the other. -/
def ofBatches (batches : List Batch) : List UInt8 := batches.flatMap Record.encode

theorem ofBatches_cons (batch : Batch) (batches : List Batch) :
    ofBatches (batch :: batches) = Record.encode batch ++ ofBatches batches := List.flatMap_cons

theorem ofBatches_append (xs ys : List Batch) : ofBatches (xs ++ ys) = ofBatches xs ++ ofBatches ys :=
  List.flatMap_append

theorem read_nil : read [] = ⟨[], [], none⟩ := by
  rw [read]
  rfl

theorem read_of_error {bytes : List UInt8} {fault : Record.Error} (hne : bytes ≠ [])
    (h : Record.decode bytes = .error fault) : read bytes = ⟨[], bytes, some fault⟩ := by
  rw [read, if_neg (by simpa using hne)]
  split
  · rename_i fault' h'
    obtain rfl : fault' = fault := Except.error.inj (h'.symm.trans h)
    rfl
  · rename_i h'
    cases h'.symm.trans h

theorem read_of_decode {bytes : List UInt8} {batch : Batch} {n : Nat} (h : Record.decode bytes = .ok (batch, n)) :
    read bytes = ⟨batch :: (read (bytes.drop n)).batches, (read (bytes.drop n)).tail,
      (read (bytes.drop n)).fault⟩ := by
  have hsize := Record.decode_size h
  have hne : ¬bytes.isEmpty = true := by
    rw [List.isEmpty_iff]
    rintro rfl
    simp at hsize
    omega
  rw [read, if_neg hne]
  split
  · rename_i h'
    cases h'.symm.trans h
  · rename_i batch' n' h'
    obtain ⟨rfl, rfl⟩ : batch' = batch ∧ n' = n := by simpa using h'.symm.trans h
    rfl

/-- **A record in front is read as its batch**, and reading goes on behind it. -/
theorem read_encode_append {batch : Batch} (h : Record.fits batch = true) (rest : List UInt8) :
    read (Record.encode batch ++ rest) =
      ⟨batch :: (read rest).batches, (read rest).tail, (read rest).fault⟩ := by
  rw [read_of_decode (Record.decode_encode_append h rest), ← Record.length_encode, List.drop_left]

theorem read_ofBatches_append : ∀ {batches : List Batch}, (∀ b ∈ batches, Record.fits b = true) →
    ∀ rest : List UInt8, read (ofBatches batches ++ rest) =
      ⟨batches ++ (read rest).batches, (read rest).tail, (read rest).fault⟩
  | [], _, rest => rfl
  | batch :: batches, h, rest => by
    rw [ofBatches_cons, List.append_assoc, read_encode_append (h batch List.mem_cons_self),
      read_ofBatches_append (fun b hb => h b (List.mem_cons_of_mem _ hb)), List.cons_append]

theorem read_ofBatches {batches : List Batch} (h : ∀ b ∈ batches, Record.fits b = true) :
    read (ofBatches batches) = ⟨batches, [], none⟩ := by
  have := read_ofBatches_append h []
  rwa [List.append_nil, read_nil, List.append_nil] at this

/-- **A log is the records of its batches and its torn tail**, and all those records fit. -/
theorem read_spec (bytes : List UInt8) :
    bytes = ofBatches (read bytes).batches ++ (read bytes).tail ∧
      ∀ b ∈ (read bytes).batches, Record.fits b = true := by
  fun_induction read bytes with
  | case1 bytes hempty => exact ⟨List.isEmpty_iff.1 hempty, fun b hb => by cases hb⟩
  | case2 bytes _ fault _ => exact ⟨rfl, fun b hb => by cases hb⟩
  | case3 bytes _ batch n hdecode _ after ih =>
    obtain ⟨hfits, -, hbytes⟩ := Record.encode_of_decode hdecode
    refine ⟨?_, fun b hb => ?_⟩
    · rw [ofBatches_cons, List.append_assoc, ← ih.1]
      exact hbytes
    · rcases List.mem_cons.1 hb with rfl | hb
      · exact hfits
      · exact ih.2 b hb

theorem intact_eq (bytes : List UInt8) : intact bytes = ofBatches (read bytes).batches := by
  have h := (read_spec bytes).1
  have h' := intact_append_tail bytes
  exact List.append_cancel_right (h'.trans h)

/-- **The intact part of a log reads as the log does**, to its end. -/
theorem read_intact (bytes : List UInt8) : read (intact bytes) = ⟨(read bytes).batches, [], none⟩ := by
  rw [intact_eq, read_ofBatches (read_spec bytes).2]

theorem intact_ofBatches {batches : List Batch} (h : ∀ b ∈ batches, Record.fits b = true) :
    intact (ofBatches batches) = ofBatches batches := by
  rw [intact_eq, read_ofBatches h]

/-- Nothing is read of a record that breaks off. -/
theorem read_take_encode {batch : Batch} (h : Record.fits batch = true) {n : Nat} (hn : n < Record.size batch) :
    (read ((Record.encode batch).take n)).batches = [] := by
  by_cases hnil : (Record.encode batch).take n = []
  · rw [hnil, read_nil]
  · rw [read_of_error hnil (Record.decode_take_encode h hn)]

/-- **A cut log keeps the records before the cut**, as many as there are.  What is left of a record that the cut falls
into is its tail. -/
theorem read_take_ofBatches : ∀ {batches : List Batch}, (∀ b ∈ batches, Record.fits b = true) → ∀ n : Nat,
    let kept := (read ((ofBatches batches).take n)).batches
    kept <+: batches ∧ (ofBatches kept).length ≤ n ∧
      ∀ records, records <+: batches → (ofBatches records).length ≤ n → records <+: kept
  | [], _, n => by
    have hread : (read ((ofBatches []).take n)).batches = [] := by
      rw [ofBatches, List.flatMap_nil, List.take_nil, read_nil]
    dsimp only
    rw [hread]
    exact ⟨List.prefix_rfl, Nat.zero_le n, fun records hrecords _ => hrecords⟩
  | batch :: batches, h, n => by
    have hfits := h batch List.mem_cons_self
    have hlen := Record.length_encode batch
    dsimp only
    -- either the first record survives and the cut falls behind it, or reading stops at once
    by_cases hn : Record.size batch ≤ n
    · obtain ⟨hkept, hbefore, hlast⟩ :=
        read_take_ofBatches (fun b hb => h b (List.mem_cons_of_mem _ hb)) (n - Record.size batch)
      rw [ofBatches_cons, List.take_append, List.take_of_length_le (by omega), hlen, read_encode_append hfits]
      refine ⟨List.cons_prefix_cons.2 ⟨rfl, hkept⟩, ?_, fun records hrecords hle => ?_⟩
      · rw [ofBatches_cons, List.length_append]
        omega
      · cases records with
        | nil => exact List.nil_prefix
        | cons b records =>
          obtain ⟨rfl, hrest⟩ := List.cons_prefix_cons.1 hrecords
          rw [ofBatches_cons, List.length_append] at hle
          exact List.cons_prefix_cons.2 ⟨rfl, hlast records hrest (by omega)⟩
    · have hread : (read ((ofBatches (batch :: batches)).take n)).batches = [] := by
        rw [ofBatches_cons, List.take_append_of_le_length (by omega)]
        exact read_take_encode hfits (by omega)
      rw [hread]
      refine ⟨List.nil_prefix, Nat.zero_le n, fun records hrecords hle => ?_⟩
      cases records with
      | nil => exact List.prefix_rfl
      | cons b records =>
        obtain ⟨rfl, -⟩ := List.cons_prefix_cons.1 hrecords
        rw [ofBatches_cons, List.length_append] at hle
        omega

/-! ## Writes and reopenings -/

/-- What is done to an open log store. -/
inductive Step where
  | write (batch : Batch) (fits : Record.fits batch = true)
  | reopen

namespace Step

/-- The store after a step; reopening reads the file that the store has left. -/
def apply (s : Store) : Step → Store
  | write batch _ => (s.write batch).2
  | reopen => (openStore (s.file.getD [])).state

def written : List Step → List Batch
  | [] => []
  | write batch _ :: steps => batch :: written steps
  | reopen :: steps => written steps

end Step

/-- A durable store in order: its file holds the records of batches, and its map is what they build. -/
structure Serves (s : Store) (batches : List Batch) : Prop where
  fits : ∀ b ∈ batches, Record.fits b = true
  file : s.file = some (ofBatches batches)
  entries : s.entries = batches.foldl KeyMap.insertAll .empty

theorem serves_openStore (bytes : List UInt8) : Serves (openStore bytes).state (read bytes).batches where
  fits := (read_spec bytes).2
  file := congrArg some (intact_eq bytes)
  entries := by
    change (read (intact bytes)).entries = _
    rw [Reading.entries, read_intact]

theorem serves_write {s : Store} {batches : List Batch} (h : Serves s batches) (hworks : s.faults = .never)
    {batch : Batch} (hfits : Record.fits batch = true) :
    (s.write batch).1 = .ok () ∧ (s.write batch).2.faults = .never ∧
      Serves (s.write batch).2 (batches ++ [batch]) := by
  have hwrite : s.write batch = (.ok (), { s with
      calls.write := s.calls.write + 1, entries := s.entries.insertAll batch,
      file := s.file.map (· ++ Record.encode batch) }) := by
    unfold Store.write
    rw [if_neg (by simp [hfits]), hworks]
    rfl
  rw [hwrite]
  refine ⟨rfl, hworks, fun b hb => ?_, ?_, ?_⟩
  · rcases List.mem_append.1 hb with hb | hb
    · exact h.fits b hb
    · rw [List.mem_singleton.1 hb]
      exact hfits
  · rw [h.file, ofBatches_append, ofBatches_cons]
    simp [ofBatches]
  · rw [h.entries, List.foldl_append]
    rfl

theorem serves_reopen {s : Store} {batches : List Batch} (h : Serves s batches) :
    Serves (openStore (s.file.getD [])).state batches := by
  have hopen := serves_openStore (ofBatches batches)
  rw [read_ofBatches h.fits] at hopen
  rw [h.file]
  exact hopen

theorem serves_steps : ∀ (steps : List Step) {s : Store} {batches : List Batch}, Serves s batches →
    s.faults = .never →
    Serves (steps.foldl Step.apply s) (batches ++ Step.written steps) ∧ (steps.foldl Step.apply s).faults = .never
  | [], s, batches, h, hworks => by
    rw [Step.written, List.append_nil]
    exact ⟨h, hworks⟩
  | .write batch hfits :: steps, s, batches, h, hworks => by
    obtain ⟨-, hworks', hserves⟩ := serves_write h hworks hfits
    have ih := serves_steps steps hserves hworks'
    rwa [List.append_assoc] at ih
  | .reopen :: steps, s, batches, h, _ => serves_steps steps (serves_reopen h) rfl

/-- **A log store serves the map that its batches build**, whatever bytes it was opened on.  After any writes and
reopenings its map is that of the first reading with the written batches put in, of the entries for one key the last
one standing.  Its file is the intact part of the first file and a record for each batch.  That file reads to its end
without fault, so opening it again cuts nothing off, tells of no torn tail and leaves file and map as they are. -/
theorem serves_written_batches (bytes : List UInt8) (steps : List Step) :
    let s := steps.foldl Step.apply (openStore bytes).state
    let file := intact bytes ++ ofBatches (Step.written steps)
    s.file = some file ∧
    s.entries = (Step.written steps).foldl KeyMap.insertAll (read bytes).entries ∧
    (∀ key, s.entries.get? key =
      (((Step.written steps).flatten.reverse.find? (·.1 == key)).map (·.2)).or ((read bytes).entries.get? key)) ∧
    (∀ batch, Record.fits batch = true → (s.write batch).1 = .ok ()) ∧
    read file = ⟨(read bytes).batches ++ Step.written steps, [], none⟩ ∧
    (openStore file).state.file = some file ∧
    (openStore file).state.entries = s.entries ∧
    (openStore file).events =
      [.replayedLog ((read bytes).batches.length + (Step.written steps).length) s.entries.size] ∧
    read (intact bytes) = ⟨(read bytes).batches, [], none⟩ ∧
    (read (intact bytes)).entries = (read bytes).entries := by
  intro s file
  obtain ⟨hserves, hworks⟩ := serves_steps steps (serves_openStore bytes) rfl
  have hfile : file = ofBatches ((read bytes).batches ++ Step.written steps) := by
    rw [ofBatches_append, ← intact_eq]
  have hread : read file = ⟨(read bytes).batches ++ Step.written steps, [], none⟩ := by
    rw [hfile, read_ofBatches hserves.fits]
  have hintact : intact file = file := by
    rw [hfile, intact_ofBatches hserves.fits]
  have hentries : s.entries = (Step.written steps).foldl KeyMap.insertAll (read bytes).entries := by
    rw [hserves.entries, List.foldl_append]
    rfl
  have hagain : (read file).entries = s.entries := by
    rw [Reading.entries, hread, hserves.entries]
  refine ⟨hserves.file.trans (congrArg some hfile.symm), hentries, fun key => ?_, fun batch hfits => ?_, hread,
    congrArg some hintact, ?_, ?_, read_intact bytes, ?_⟩
  · rw [hentries, KeyMap.insertAll_flatten, KeyMap.get?_insertAll]
  · exact (serves_write hserves hworks hfits).1
  · change (read (intact file)).entries = _
    rw [hintact, hagain]
  · change openEvents file = _
    unfold openEvents
    dsimp only
    rw [hagain, hread, List.length_append]
    rfl
  · rw [Reading.entries, read_intact]
    rfl

end Log
end FactBase
