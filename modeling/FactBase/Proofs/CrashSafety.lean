import FactBase.Proofs.Numbering
/-!
# CrashSafety — what opening finds on a log that is cut off

A history on a log file leaves the trail of its transactions there (`logged_run`).  Whatever part of the file is left
then, opening it finds the transactions whose last record is whole, all their facts with the literals that were
written, and nothing else; and the database goes on from there (`cut_log_keeps_whole_transactions`).
-/
namespace FactBase

open Log (ofBatches build)

/-! ## The trail of a history -/

namespace History

/-- The log file holds the trail of the transactions. -/
def Logged (h : History) : Prop := ∃ batches, Log.Serves h.db.store batches ∧ Trail batches h.committed

theorem logged_start : Logged (start true) := ⟨[], Database.serves_created, .nil⟩

theorem Sound.logged_transact {h : History} (hs : Sound h) (hlogged : Logged h) (clean : h.db.store.faults.LeaveNothing)
    (t : Transaction) :
    match h.db.transact t with
    | ⟨.ok txn, db, _⟩ => Logged ⟨db, h.committed ++ [⟨txn, t, db.store.fileLength⟩]⟩
    | ⟨.error _, db, _⟩ => Logged ⟨db, h.committed⟩ := by
  obtain ⟨batches, hserves, htrail⟩ := hlogged
  have hbuild : build batches = h.db.store.entries := hserves.entries.symm
  have hdone := h.db.transacted t
  generalize h.db.transact t = o at hdone ⊢
  cases hdone with
  | @fails e db events more took lastTxn index registers =>
    exact ⟨batches ++ more, hserves.wrote (took.wrote clean), htrail.registers registers hbuild⟩
  | @commits db events registrations keys took lastTxn index bound nonempty registers keysOf =>
    have hserves' := hserves.wrote (took.wrote clean)
    rw [← List.append_assoc] at hserves'
    refine ⟨batches ++ registrations ++ [keyBatch keys], hserves', ?_⟩
    refine (htrail.registers registers hbuild).commit hs.lastTxn hs.bound nonempty ?_ ?_
    · rw [Log.build_append, hbuild]
      exact keysOf
    · change (db.store.file.getD []).length = _
      rw [hserves'.file]
      rfl

theorem Logged.of_keeps {h : History} (hlogged : Logged h) {db : Database} (hkeeps : db.store.Keeps h.db.store) :
    Logged ⟨db, h.committed⟩ := by
  obtain ⟨batches, hserves, htrail⟩ := hlogged
  exact ⟨batches, ⟨hserves.fits, hkeeps.file.trans hserves.file, hkeeps.entries.trans hserves.entries⟩, htrail⟩

theorem Sound.logged_step {h : History} (hs : Sound h) (hlogged : Logged h) (s : Step) : Logged (h.step s) := by
  cases s with
  | transact faults clean t =>
    exact attempt_of_transact ((hs.withFaults faults).logged_transact (hlogged.of_keeps ⟨rfl, rfl⟩) clean t)
  | reopen faults =>
    obtain ⟨-, hkeeps, -⟩ := hs.reopened faults
    have hkept := hlogged.of_keeps hkeeps
    rwa [← h.committed_reopened faults] at hkept

theorem logged_steps : ∀ (steps : List Step) {h : History}, Sound h → Logged h →
    Logged (steps.foldl History.step h)
  | [], _, _, hlogged => hlogged
  | s :: steps, _, hs, hlogged => logged_steps steps (hs.step s) (hs.logged_step hlogged s)

/-- **A history on a log file leaves the trail of its transactions.** -/
theorem logged_run (steps : List Step) : Logged (run true steps) :=
  logged_steps steps (sound_start true) logged_start

end History

/-! ## What a database holds -/

namespace Database

/-- A stored key names a fact: it is read, and its identifiers are looked up as the fact's literals. -/
def ReadsBack (db : Database) (key : String) (f : Fact) : Prop :=
  ∃ s, StoredFact.decode key = .ok s ∧ s.txn = f.txn ∧ s.operation = f.operation ∧
    ∀ faults : Faults, faults.ReadsWork →
      ((db.withFaults faults).run (Dictionary.literalOf s.entity)).result = .ok f.entity ∧
      ((db.withFaults faults).run (Dictionary.literalOf s.attr)).result = .ok f.attr ∧
      ((db.withFaults faults).run (Dictionary.literalOf s.value)).result = .ok f.value

/-- The stored keys name these facts, all of them and no others. -/
structure Stores (db : Database) (facts : List Fact) : Prop where
  sound : ∀ key ∈ db.indexKeys, ∃ f ∈ facts, db.ReadsBack key f
  complete : ∀ f ∈ facts, ∃ key ∈ db.indexKeys, db.ReadsBack key f

theorem readsBack_of_keyed {db : Database} {key : String} {f : Fact} (h : f.Keyed db.store.entries key)
    (hm : Dictionary.Settled db.store.entries) : db.ReadsBack key f := by
  obtain ⟨s, hdecode, hholds⟩ := h.decode hm
  refine ⟨s, hdecode, hholds.txn, hholds.operation, fun faults hworks => ⟨?_, ?_, ?_⟩⟩
  · exact result_run (Dictionary.reads_literalOf hholds.entity) hworks
  · exact result_run (Dictionary.reads_literalOf hholds.attr) hworks
  · exact result_run (Dictionary.reads_literalOf hholds.value) hworks

theorem stores_of_ledger {db : Database} {facts : List Fact} (h : Ledger db.store.entries facts) :
    db.Stores facts where
  sound := fun key hkey => by
    obtain ⟨f, hf, hkeyed⟩ := h.keysOf_indexKeys.sound key hkey
    exact ⟨f, hf, readsBack_of_keyed hkeyed h.settled⟩
  complete := fun f hf => by
    obtain ⟨key, hkey, hkeyed⟩ := h.keysOf_indexKeys.complete f hf
    exact ⟨key, hkey, readsBack_of_keyed hkeyed h.settled⟩

end Database

/-! ## Cutting -/

namespace Log

/-- A place between two records of a log, or at one of its ends. -/
def Boundary (bytes : List UInt8) (place : Nat) : Prop :=
  ∃ records, records <+: (read bytes).batches ∧ place = (ofBatches records).length

theorem take_ofBatches {kept batches : List Batch} (h : kept <+: batches) :
    (ofBatches batches).take (ofBatches kept).length = ofBatches kept := by
  obtain ⟨rest, rfl⟩ := h
  rw [ofBatches_append, List.take_left]

end Log

namespace Trail

variable {batches : List Batch} {committed : List Committed}

/-- A transaction stops before a cut when it stops before the last boundary there. -/
theorem countP_cut (h : Trail batches committed) {kept : List Batch} {n : Nat} (hbefore : (ofBatches kept).length ≤ n)
    (hlast : ∀ records, records <+: batches → (ofBatches records).length ≤ n → records <+: kept) :
    committed.countP (fun c => decide (c.stop ≤ (ofBatches kept).length)) =
      committed.countP fun c => decide (c.stop ≤ n) := by
  refine List.countP_congr fun c hc => ?_
  rw [decide_eq_true_eq, decide_eq_true_eq]
  constructor
  · exact fun hle => Nat.le_trans hle hbefore
  · intro hle
    obtain ⟨before, keys, hrecords, hstop, -⟩ := h.stops c hc
    rw [hstop] at hle ⊢
    exact Log.length_ofBatches_le (hlast _ hrecords hle)

end Trail

namespace History

theorem Sound.toNat_getElem {h : History} (hs : Sound h) {i : Nat} (hi : i < h.committed.length) :
    h.committed[i].txn.toNat = i + 1 := by
  have hmap : (h.committed.map (·.txn.toNat))[i]? = (List.range' 1 h.committed.length)[i]? := by rw [hs.numbers]
  rw [List.getElem?_map, List.getElem?_eq_getElem hi, List.getElem?_range' hi] at hmap
  have hi' : h.committed[i].txn.toNat = 1 + 1 * i := Option.some.inj hmap
  omega

/-- The transactions are numbered from 1 on, so those with numbers up to `k` are the first `k`. -/
theorem Sound.mem_take_iff {h : History} (hs : Sound h) {c : Committed} {k : Nat} :
    c ∈ h.committed.take k ↔ c ∈ h.committed ∧ c.txn.toNat ≤ k := by
  rw [List.mem_take_iff_getElem]
  constructor
  · rintro ⟨i, hi, rfl⟩
    rw [hs.toNat_getElem]
    exact ⟨List.getElem_mem _, by omega⟩
  · rintro ⟨hc, hle⟩
    obtain ⟨i, hi, rfl⟩ := List.mem_iff_getElem.1 hc
    rw [hs.toNat_getElem] at hle
    exact ⟨i, by omega, rfl⟩

theorem Sound.mem_facts_take {h : History} (hs : Sound h) {f : Fact} {n : TxnNumber} :
    f ∈ (h.committed.take n.toNat).flatMap Committed.facts ↔ f ∈ h.facts ∧ f.txn ≤ n := by
  rw [facts, List.mem_flatMap, List.mem_flatMap]
  constructor
  · rintro ⟨c, hc, hf⟩
    obtain ⟨hmem, hle⟩ := hs.mem_take_iff.1 hc
    refine ⟨⟨c, hmem, hf⟩, ?_⟩
    rw [Transaction.txn_of_mem hf]
    exact UInt64.le_iff_toNat_le.2 hle
  · rintro ⟨⟨c, hmem, hf⟩, hle⟩
    rw [Transaction.txn_of_mem hf] at hle
    exact ⟨c, hs.mem_take_iff.2 ⟨hmem, UInt64.le_iff_toNat_le.1 hle⟩, hf⟩

end History

/-- **Where a database has the facts of another up to some number, it has the keys up to that number.** -/
theorem Ledger.mem_indexKeys_iff {db db' : Database} {facts facts' : List Fact} {n : TxnNumber}
    (h : Ledger db.store.entries facts) (h' : Ledger db'.store.entries facts')
    (hgrows : db.store.entries.Grows db'.store.entries) (hfacts : ∀ f, f ∈ facts ↔ f ∈ facts' ∧ f.txn ≤ n)
    {key : String} :
    key ∈ db.indexKeys ↔ key ∈ db'.indexKeys ∧ ∃ s, StoredFact.decode key = .ok s ∧ s.txn ≤ n := by
  have hkeys := h.keysOf_indexKeys
  have hkeys' := h'.keysOf_indexKeys
  constructor
  · intro hkey
    obtain ⟨f, hf, hkeyed⟩ := hkeys.sound key hkey
    obtain ⟨hf', hle⟩ := (hfacts f).1 hf
    obtain ⟨key', hkey', hkeyed'⟩ := hkeys'.complete f hf'
    obtain rfl := (hkeyed.mono hgrows).unique hkeyed' h'.settled
    obtain ⟨s, hdecode, hholds⟩ := hkeyed.decode h.settled
    refine ⟨hkey', s, hdecode, ?_⟩
    rw [hholds.txn]
    exact hle
  · rintro ⟨hkey, s, hdecode, hle⟩
    obtain ⟨f, hf, hkeyed⟩ := hkeys'.sound key hkey
    obtain ⟨s', hdecode', hholds⟩ := hkeyed.decode h'.settled
    obtain rfl := Except.ok.inj (hdecode.symm.trans hdecode')
    rw [hholds.txn] at hle
    obtain ⟨key', hkey', hkeyed'⟩ := hkeys.complete f ((hfacts f).2 ⟨hf, hle⟩)
    obtain rfl := (hkeyed'.mono hgrows).unique hkeyed h'.settled
    exact hkey'

namespace History

theorem Sound.take {h : History} (hs : Sound h) {db : Database} {k : Nat} (hk : k ≤ h.committed.length)
    (hlast : db.lastTxn.toNat = k)
    (hledger : Ledger db.store.entries ((h.committed.take k).flatMap Committed.facts))
    (hnumbered : Numbered ((h.committed.take k).flatMap Committed.facts) db.lastTxn) (hindex : db.index = .eavto)
    (hdurable : db.store.file.isSome = true → ∃ batches, Log.Serves db.store batches) :
    Sound ⟨db, h.committed.take k⟩ where
  ledger := hledger
  numbered := hnumbered
  lastTxn := by rw [hlast, List.length_take_of_le hk]
  numbers := by
    obtain ⟨d, hd⟩ := Nat.exists_eq_add_of_le hk
    rw [List.map_take, hs.numbers, List.length_take_of_le hk, hd, ← List.range'_append_1]
    exact List.take_left' List.length_range'
  bound := by
    have hle := UInt64.le_iff_toNat_le.1 hs.bound
    rw [hs.lastTxn] at hle
    change db.lastTxn ≤ maxTxn
    rw [UInt64.le_iff_toNat_le, hlast]
    exact Nat.le_trans hk hle
  index := hindex
  durable := hdurable

/-- **A database goes on**: the next transaction that succeeds takes the next number, and opening the log again finds
that number, the keys from before, and those of the transaction. -/
theorem Sound.goes_on {h : History} (hs : Sound h) (hfile : h.db.store.file.isSome = true)
    (clean : h.db.store.faults.LeaveNothing) (t : Transaction) :
    match h.db.transact t with
    | ⟨.ok txn, db, _⟩ => txn = h.db.lastTxn + 1 ∧ ∃ db', db.reopen.result = .ok db' ∧ db'.lastTxn = txn ∧
      db'.Stores (h.facts ++ t.asFacts txn) ∧ ∀ key, key ∈ h.db.indexKeys ↔ key ∈ db'.indexKeys ∧
        ∃ s, StoredFact.decode key = .ok s ∧ s.txn ≤ h.db.lastTxn
    | ⟨.error _, _, _⟩ => True := by
  have hserved := hs.toServed.transact t
  have hsound := hs.transact clean t
  have hdone := h.db.transacted t
  generalize h.db.transact t = o at hserved hsound hdone ⊢
  cases hdone with
  | fails => trivial
  | @commits db events registrations keys took =>
    have hfile' : db.store.file.isSome = true := by
      rw [(took.wrote clean).file, Option.isSome_map]
      exact hfile
    obtain ⟨-, hlast, hgrows, -⟩ := hserved
    refine ⟨rfl, ?_⟩
    have hreopen := hsound.reopen
    generalize db.reopen = o at *
    obtain ⟨r, s, events⟩ := o
    cases r with
    | error e =>
      have hnone : db.store.file = none := hreopen.1.1
      rw [hnone] at hfile'
      cases hfile'
    | ok db' =>
      obtain ⟨hlast', hkeeps, hs''⟩ := hreopen
      have hledger := hs''.ledger
      rw [facts_commit] at hledger
      refine ⟨db', rfl, hlast'.trans hlast, Database.stores_of_ledger hledger, fun key => ?_⟩
      refine hs.ledger.mem_indexKeys_iff hledger (hkeeps.entries ▸ hgrows) fun f => ?_
      rw [List.mem_append]
      constructor
      · exact fun hf => ⟨.inl hf, hs.numbered.le f hf⟩
      · rintro ⟨hf | hf, hle⟩
        · exact hf
        · rw [Transaction.txn_of_mem hf, UInt64.le_iff_toNat_le, toNat_succ hs.bound] at hle
          omega

/-- **A log that is cut anywhere keeps whole transactions.**  After any transactions on a log file that was empty, be
there reopenings and failures between them or not, each transaction has left its stop in the file: up to there the
file holds whole records, of which the last writes the keys of the transaction.  Whatever part of the file is left,
opening it succeeds.  The file is cut to its last boundary in that part.  The last number `k` is the number of
transactions whose stop lies there.  The stored keys are those of the transactions 1 to `k`, and their identifiers are
looked up as the literals that were written.  The next transaction that succeeds takes the number `k + 1`, and opening
the file once more finds that number, the keys from before, and those of the transaction. -/
theorem cut_log_keeps_whole_transactions (steps : List Step) :
    let h := run true steps
    ∃ file, h.db.store.file = some file ∧
      h.committed.map (·.txn.toNat) = List.range' 1 h.committed.length ∧
      (∀ c ∈ h.committed, ∃ before keys, file.take c.stop = ofBatches before ++ Record.encode (keyBatch keys) ∧
        KeysOf (build before) c.facts keys) ∧
      ∀ n : Nat,
        let k := h.committed.countP fun c => decide (c.stop ≤ n)
        let facts := (h.committed.take k).flatMap Committed.facts
        ∃ db, (Database.ofFile (.present (file.take n))).result = .ok db ∧
          (∃ place, db.store.file = some (file.take place) ∧ Log.Boundary file place ∧ place ≤ n ∧
            ∀ other, Log.Boundary file other → other ≤ n → other ≤ place) ∧
          db.lastTxn.toNat = k ∧
          db.Stores facts ∧
          (∀ key, key ∈ db.indexKeys ↔ key ∈ h.db.indexKeys ∧
            ∃ s, StoredFact.decode key = .ok s ∧ s.txn.toNat ≤ k) ∧
          ∀ faults : Faults, faults.LeaveNothing → ∀ t,
            match (db.withFaults faults).transact t with
            | ⟨.ok txn, after, _⟩ => txn.toNat = k + 1 ∧ ∃ db', after.reopen.result = .ok db' ∧ db'.lastTxn = txn ∧
              db'.Stores (facts ++ t.asFacts txn) ∧ ∀ key, key ∈ db.indexKeys ↔ key ∈ db'.indexKeys ∧
                ∃ s, StoredFact.decode key = .ok s ∧ s.txn.toNat ≤ k
            | ⟨.error _, _, _⟩ => True := by
  intro h
  have hs : Sound h := sound_run true steps
  obtain ⟨batches, hserves, htrail⟩ : Logged h := logged_run steps
  refine ⟨ofBatches batches, hserves.file, hs.numbers, fun c hc => ?_, fun n => ?_⟩
  · obtain ⟨before, keys, hfront, hstop, hkeys⟩ := htrail.stops c hc
    refine ⟨before, keys, ?_, hkeys⟩
    rw [hstop, Log.take_ofBatches hfront, Log.ofBatches_append, Log.ofBatches_cons]
    exact congrArg _ (List.append_nil _)
  · intro k facts
    obtain ⟨hfront, hbefore, hlast⟩ := Log.read_take_ofBatches hserves.fits n
    obtain ⟨m, hkept⟩ := htrail.cut _ hfront
    have hm : m.toNat = k := hkept.count.trans (htrail.countP_cut hbefore hlast)
    have hle : ∀ txn : TxnNumber, txn ≤ m ↔ txn.toNat ≤ k := fun txn => by
      rw [UInt64.le_iff_toNat_le, hm]
    have hmem : ∀ f, f ∈ facts ↔ f ∈ h.facts ∧ f.txn ≤ m := fun f => by
      rw [← hs.mem_facts_take, hm]
    have hledger := hkept.ledger
    have hnumbered := hkept.numbered
    rw [hm] at hledger hnumbered
    obtain ⟨db, hok, -, hlastTxn, hindex, hserves'⟩ := Database.ofFile_of_numbered hledger hnumbered
    have hledger' : Ledger db.store.entries facts := hserves'.entries ▸ hledger
    have hgrows : db.store.entries.Grows h.db.store.entries := by
      rw [hserves'.entries, hserves.entries]
      exact hkept.grows
    refine ⟨db, hok, ⟨_, ?_, ⟨_, ?_, rfl⟩, hbefore, ?_⟩, hlastTxn ▸ hm, Database.stores_of_ledger hledger',
      fun key => ?_, fun faults clean t => ?_⟩
    · rw [hserves'.file, Log.take_ofBatches hfront]
    · rw [Log.read_ofBatches hserves.fits]
      exact hfront
    · rintro _ ⟨records, hrecords, rfl⟩ hother
      rw [Log.read_ofBatches hserves.fits] at hrecords
      exact Log.length_ofBatches_le (hlast records hrecords hother)
    · rw [hledger'.mem_indexKeys_iff hs.ledger hgrows hmem]
      simp only [hle]
    · have hcut : Sound ⟨db, h.committed.take k⟩ :=
        hs.take List.countP_le_length (hlastTxn ▸ hm) hledger' (hlastTxn ▸ hnumbered) hindex fun _ => ⟨_, hserves'⟩
      have hfile : (db.withFaults faults).store.file.isSome = true := by
        change db.store.file.isSome = true
        rw [hserves'.file]
        rfl
      have hgoes := (hcut.withFaults faults).goes_on hfile clean t
      generalize (db.withFaults faults).transact t = o at *
      obtain ⟨r, after, events⟩ := o
      cases r with
      | error e => trivial
      | ok txn =>
        obtain ⟨rfl, db', hreopen, hlast', hstores, hkeys⟩ := hgoes
        refine ⟨?_, db', hreopen, hlast', hstores, fun key => ?_⟩
        · rw [← hm, ← hlastTxn]
          exact toNat_succ hcut.bound
        · have hkeys := hkeys key
          subst hlastTxn
          simp only [← hle]
          exact hkeys

end History
end FactBase
