import FactBase.Proofs.Replay
import Mathlib.Data.List.Chain
/-!
# Tearing — log writes that break off

A write that fails may leave the first bytes of its record at the end of the log file, and the file is cut only when it
is opened.  A store that is opened again before it is written again keeps every batch that it has acknowledged and none
that has failed (`acknowledged_writes_are_kept`).  But nothing keeps a store from being written at once: the next record
then comes behind the torn one, and reading stops before it, so that a batch is lost although it was acknowledged
(`acknowledged_write_is_lost`).
-/
namespace FactBase

/-- The store whose next write is struck by a fault, if one is given. -/
def Store.struckBy (s : Store) (fault : Option (Nat × Store.Error)) : Store :=
  { s with faults := { Faults.never with write := fun _ => fault } }

namespace Log

/-- What is done to an open log store.  A write that is struck breaks off before the end of its record. -/
inductive Call where
  | write (batch : Batch) (fault : Option (Nat × Store.Error))
      (breaksOff : ∀ torn error, fault = some (torn, error) → torn < Record.size batch)
  | reopen

def Call.whole (batch : Batch) : Call := .write batch none fun _ _ heq => by cases heq

/-- A write that breaks off after some bytes of the record. -/
def Call.torn (batch : Batch) (torn : Nat) (h : torn < Record.size batch) : Call :=
  .write batch (some (torn, .io "disk full")) fun _ _ heq => (Prod.mk.inj (Option.some.inj heq)).1 ▸ h

/-- A log store, and the batches that it has acknowledged. -/
structure Journal where
  store : Store
  acknowledged : List Batch

namespace Journal

def opened (bytes : List UInt8) : Journal := ⟨(openStore bytes).state, []⟩

def bytes (j : Journal) : List UInt8 := j.store.file.getD []

/-- A write is acknowledged if it is answered without an error. -/
def call (j : Journal) : Call → Journal
  | .write batch fault _ =>
    match (j.store.struckBy fault).write batch with
    | (.ok _, store) => ⟨store, j.acknowledged ++ [batch]⟩
    | (.error _, store) => ⟨store, j.acknowledged⟩
  | .reopen => { j with store := (openStore j.bytes).state }

/-- A write that is not struck is acknowledged if its record fits. -/
theorem call_whole (j : Journal) {batch : Batch} (hfits : Record.fits batch = true) :
    j.call (.whole batch) = ⟨((j.store.struckBy none).write batch).2, j.acknowledged ++ [batch]⟩ := by
  rw [Call.whole, call, Store.write, if_neg (by simp [hfits])]
  rfl

end Journal

/-- The call leaves a part of a record at the end of the file. -/
def Call.Tears : Call → Prop
  | .write batch (some (torn, _)) _ => Record.fits batch = true ∧ 0 < torn
  | _ => False

/-- A log that a write has torn is opened again before anything else is done. -/
def Mended (calls : List Call) : Prop := calls.IsChain fun call next => call.Tears → next = .reopen

/-! ## What a call leaves -/

/-- A store whose file holds the records of the first batches and of the acknowledged ones, and behind them a torn
record or nothing; its map is what these batches build. -/
structure Recovers (j : Journal) (first : List Batch) (tail : List UInt8) : Prop where
  fits : ∀ b ∈ first ++ j.acknowledged, Record.fits b = true
  file : j.store.file = some (ofBatches (first ++ j.acknowledged) ++ tail)
  entries : j.store.entries = (first ++ j.acknowledged).foldl KeyMap.insertAll .empty
  torn : (read tail).batches = []

namespace Recovers

variable {j : Journal} {first : List Batch} {tail : List UInt8}

theorem serves (h : Recovers j first []) : Serves j.store (first ++ j.acknowledged) :=
  ⟨h.fits, h.file.trans (by rw [List.append_nil]), h.entries⟩

theorem of_serves (h : Serves j.store (first ++ j.acknowledged)) : Recovers j first [] where
  fits := h.fits
  file := h.file.trans (by rw [List.append_nil])
  entries := h.entries
  torn := by rw [read_nil]

/-- **Opening drops the torn record.** -/
theorem reopen (h : Recovers j first tail) : Recovers (j.call .reopen) first [] := by
  have hbytes : j.bytes = ofBatches (first ++ j.acknowledged) ++ tail := by
    rw [Journal.bytes, h.file]
    rfl
  have hserves := serves_openStore j.bytes
  rw [hbytes, read_ofBatches_append h.fits, h.torn, List.append_nil, ← hbytes] at hserves
  exact of_serves hserves

/-- A batch whose record is too long is refused before anything is written. -/
theorem write_refused (h : Recovers j first []) {batch : Batch} (hfits : Record.fits batch = false)
    {fault : Option (Nat × Store.Error)}
    (breaksOff : ∀ torn error, fault = some (torn, error) → torn < Record.size batch) :
    Recovers (j.call (.write batch fault breaksOff)) first [] := by
  have hwrite : (j.store.struckBy fault).write batch = (.error (.recordTooLarge (Record.size batch)),
      { j.store.struckBy fault with calls.write := j.store.calls.write + 1 }) := by
    have hsome : (j.store.struckBy fault).file.isSome = true := by
      rw [Store.struckBy, h.file]
      rfl
    rw [Store.write, if_pos (by rw [hsome, hfits]; rfl)]
    rfl
  rw [Journal.call, hwrite]
  exact ⟨h.fits, h.file, h.entries, h.torn⟩

theorem write_whole (h : Recovers j first []) {batch : Batch} (hfits : Record.fits batch = true) :
    Recovers (j.call (.whole batch)) first [] := by
  have hstruck : Serves (j.store.struckBy none) (first ++ j.acknowledged) :=
    ⟨h.fits, h.serves.file, h.entries⟩
  obtain ⟨-, -, hserves⟩ := serves_write hstruck rfl hfits
  rw [List.append_assoc] at hserves
  rw [j.call_whole hfits]
  exact of_serves hserves

/-- A write that is struck leaves the beginning of its record, of which nothing is read. -/
theorem write_torn (h : Recovers j first []) {batch : Batch} (hfits : Record.fits batch = true) {torn : Nat}
    {error : Store.Error}
    (breaksOff : ∀ torn' error', some (torn, error) = some (torn', error') → torn' < Record.size batch) :
    Recovers (j.call (.write batch (some (torn, error)) breaksOff)) first ((Record.encode batch).take torn) := by
  have hwrite : (j.store.struckBy (some (torn, error))).write batch = (.error error,
      { j.store.struckBy (some (torn, error)) with
        calls.write := j.store.calls.write + 1
        file := j.store.file.map (· ++ (Record.encode batch).take torn) }) := by
    rw [Store.write, if_neg (by simp [hfits])]
    rfl
  rw [Journal.call, hwrite]
  refine ⟨h.fits, ?_, h.entries, read_take_encode hfits (breaksOff torn error rfl)⟩
  change j.store.file.map _ = _
  rw [h.file, List.append_nil]
  rfl

/-- **A write on an intact file** leaves it intact, or tears it. -/
theorem write (h : Recovers j first []) (batch : Batch) (fault : Option (Nat × Store.Error))
    (breaksOff : ∀ torn error, fault = some (torn, error) → torn < Record.size batch) :
    ∃ tail, Recovers (j.call (.write batch fault breaksOff)) first tail ∧
      (tail = [] ∨ (Call.write batch fault breaksOff).Tears) := by
  cases hfits : Record.fits batch with
  | false => exact ⟨[], h.write_refused hfits breaksOff, .inl rfl⟩
  | true =>
    cases fault with
    | none => exact ⟨[], h.write_whole hfits, .inl rfl⟩
    | some fault =>
      obtain ⟨torn, error⟩ := fault
      refine ⟨_, h.write_torn hfits breaksOff, ?_⟩
      rcases Nat.eq_zero_or_pos torn with rfl | hpos
      · exact .inl rfl
      · exact .inr ⟨hfits, hpos⟩

theorem call (h : Recovers j first tail) {c : Call} (hmends : tail = [] ∨ c = .reopen) :
    ∃ tail', Recovers (j.call c) first tail' ∧ (tail' = [] ∨ c.Tears) := by
  cases c with
  | reopen => exact ⟨[], h.reopen, .inl rfl⟩
  | write batch fault breaksOff =>
    obtain rfl : tail = [] := hmends.resolve_right fun heq => by cases heq
    exact h.write batch fault breaksOff

theorem calls : ∀ {calls : List Call} {j : Journal} {tail : List UInt8}, Recovers j first tail →
    (tail = [] ∨ ∀ c ∈ calls.head?, c = .reopen) → Mended calls →
      ∃ tail', Recovers (calls.foldl Journal.call j) first tail'
  | [], _, tail, h, _, _ => ⟨tail, h⟩
  | c :: calls, _, _, h, hmends, hmended => by
    -- what a call leaves behind the records, if anything, the next call cuts off
    obtain ⟨hnext, hrest⟩ := List.isChain_cons.1 hmended
    obtain ⟨tail', hcall, htail'⟩ := h.call (hmends.imp_right fun hreopen => hreopen c rfl)
    exact hcall.calls (htail'.imp_right fun htears next hmem => hnext next hmem htears) hrest

end Recovers

/-! ## Batches that stay -/

/-- **No call touches the records at the front of the file.** -/
theorem file_call {j : Journal} {batches : List Batch} (hfits : ∀ b ∈ batches, Record.fits b = true)
    (h : ∃ rest, j.store.file = some (ofBatches batches ++ rest)) (c : Call) :
    ∃ rest, (j.call c).store.file = some (ofBatches batches ++ rest) := by
  obtain ⟨rest, hfile⟩ := h
  cases c with
  | reopen =>
    refine ⟨ofBatches (read rest).batches, ?_⟩
    have hbytes : j.bytes = ofBatches batches ++ rest := by
      rw [Journal.bytes, hfile]
      rfl
    change some (intact j.bytes) = _
    rw [intact_eq, hbytes, read_ofBatches_append hfits, ofBatches_append]
  | write batch fault breaksOff =>
    have happends : ∃ more, ((j.store.struckBy fault).write batch).2.file = j.store.file.map (· ++ more) := by
      unfold Store.write
      dsimp only
      split
      · exact ⟨[], by rw [hfile]; simp [Store.struckBy, hfile]⟩
      · split <;> exact ⟨_, rfl⟩
    obtain ⟨more, hmore⟩ := happends
    refine ⟨rest ++ more, ?_⟩
    have hcall : (j.call (.write batch fault breaksOff)).store = ((j.store.struckBy fault).write batch).2 := by
      rw [Journal.call]
      split <;> rename_i heq <;> rw [heq]
    rw [hcall, hmore, hfile, ← List.append_assoc]
    rfl

theorem file_calls {batches : List Batch} (hfits : ∀ b ∈ batches, Record.fits b = true) :
    ∀ (calls : List Call) {j : Journal}, (∃ rest, j.store.file = some (ofBatches batches ++ rest)) →
      ∃ rest, (calls.foldl Journal.call j).store.file = some (ofBatches batches ++ rest)
  | [], _, h => h
  | c :: calls, _, h => file_calls hfits calls (file_call hfits h c)

/-- **What a log store acknowledges is kept** if a file that a write has torn is opened again before anything else is
written.  Whatever bytes the store was opened on, whichever writes fail and wherever they break off: opening it again
gives the map that was served, and this is the one first read with the acknowledged batches put in, of the entries for
one key the last one standing, and nothing of the batches that failed.  From then on the acknowledged batches are read
back from the file, in their order and before all others, whatever calls follow.  And a batch whose record fits is
acknowledged if nothing strikes its write. -/
theorem acknowledged_writes_are_kept (bytes : List UInt8) {calls : List Call} (hmended : Mended calls) :
    let j := calls.foldl Journal.call (.opened bytes)
    let reopened := (j.call .reopen).store
    reopened.entries = j.acknowledged.foldl KeyMap.insertAll (read bytes).entries ∧
    (∀ key, reopened.entries.get? key =
      ((j.acknowledged.flatten.reverse.find? (·.1 == key)).map (·.2)).or ((read bytes).entries.get? key)) ∧
    reopened.entries = j.store.entries ∧
    (∀ later : List Call,
      (read bytes).batches ++ j.acknowledged <+: (read (later.foldl Journal.call j).bytes).batches) ∧
    ∀ batch, Record.fits batch = true → (j.call (.whole batch)).acknowledged = j.acknowledged ++ [batch] := by
  intro j reopened
  have hopened : Recovers (.opened bytes) (read bytes).batches [] :=
    .of_serves ((List.append_nil _).symm ▸ serves_openStore bytes)
  obtain ⟨tail, hrecovers⟩ := hopened.calls (.inl rfl) hmended
  have hentries : reopened.entries = j.acknowledged.foldl KeyMap.insertAll (read bytes).entries := by
    rw [hrecovers.reopen.entries, List.foldl_append]
    rfl
  refine ⟨hentries, fun key => ?_, hrecovers.reopen.entries.trans hrecovers.entries.symm, fun later => ?_,
    fun batch hfits => congrArg (·.acknowledged) (j.call_whole hfits)⟩
  · rw [hentries, KeyMap.insertAll_flatten, KeyMap.get?_insertAll]
  · obtain ⟨rest, hfile⟩ := file_calls hrecovers.fits later ⟨tail, hrecovers.file⟩
    rw [Journal.bytes, hfile, Option.getD_some, read_ofBatches_append hrecovers.fits]
    exact List.prefix_append ..

/-- The second write breaks off, and the file is opened again before the third. -/
theorem acknowledged_writes_are_kept_reopened :
    let calls := [.whole [("a", "1")], .torn [("b", "2")] 5 (by decide), .reopen, .whole [("c", "3")]]
    let j := calls.foldl Journal.call (.opened [])
    Mended calls ∧ j.acknowledged = [[("a", "1")], [("c", "3")]] ∧
      (j.call .reopen).store.entries.get? "a" = some "1" ∧ (j.call .reopen).store.entries.get? "b" = none ∧
      (j.call .reopen).store.entries.get? "c" = some "3" := by
  intro calls j
  have hmended : Mended calls := by simp [calls, Mended, Call.Tears, Call.torn, Call.whole]
  have hacknowledged : j.acknowledged = [[("a", "1")], [("c", "3")]] := by decide +kernel
  obtain ⟨-, hget, -⟩ := acknowledged_writes_are_kept [] hmended
  rw [hacknowledged, read_nil] at hget
  exact ⟨hmended, hacknowledged, hget "a", hget "b", hget "c"⟩

/-- **An acknowledged write is lost**: the second write breaks off, and the record of the third is behind it. -/
theorem acknowledged_write_is_lost :
    let calls := [.whole [("a", "1")], .torn [("b", "2")] 5 (by decide), .whole [("c", "3")]]
    let j := calls.foldl Journal.call (.opened [])
    j.acknowledged = [[("a", "1")], [("c", "3")]] ∧ j.store.entries.get? "c" = some "3" ∧
      (j.call .reopen).store.entries.get? "a" = some "1" ∧ (j.call .reopen).store.entries.get? "c" = none := by
  decide +kernel

end Log
end FactBase
