import FactBase.Proofs.History
/-!
# Numbering — the last number, in memory and in the keys

The number in memory counts the commits, opening computes it again from the stored keys, and the two agree after every
run (`lastTxn_counts_commits`).
-/
namespace FactBase

theorem Database.mem_indexKeys {db : Database} {key : String} :
    key ∈ db.indexKeys ↔
      (∃ v, db.store.entries.get? key = some v) ∧ (Key.stem Commit.index).toList <+: key.toList := by
  rw [indexKeys, List.mem_filter, KeyMap.mem_keys, List.isPrefixOf_iff_prefix]

/-- **The stored keys that begin with the stem of the index are those of the facts.** -/
theorem Ledger.keysOf_indexKeys {db : Database} {facts : List Fact} (h : Ledger db.store.entries facts) :
    KeysOf db.store.entries facts db.indexKeys where
  sound := fun key hkey => by
    obtain ⟨⟨v, hv⟩, hstem⟩ := Database.mem_indexKeys.1 hkey
    rcases h.keys key v hv with ⟨id, rfl⟩ | hfact
    · exact absurd hstem (not_stem_prefix_slot id)
    · exact hfact
  complete := fun f hf => by
    obtain ⟨key, hkeyed, hget⟩ := h.stored f hf
    refine ⟨key, Database.mem_indexKeys.2 ⟨⟨_, hget⟩, ?_⟩, hkeyed⟩
    exact KeyInterval.stem_of_contains (hkeyed.under h.settled)

theorem Database.transact_of_last {db : Database} (h : db.lastTxn = maxTxn) {t : Transaction}
    (ht : t.isEmpty = false) :
    db.transact t = ⟨.error (.key (.transactionOutOfRange (maxTxn + 1))), db, []⟩ := by
  obtain ⟨store, lastTxn, index⟩ := db
  obtain rfl : lastTxn = maxTxn := h
  have hlast : maxTxn < maxTxn + 1 := by decide
  unfold transact Run.on
  rw [Commit.run_of_outOfRange ht hlast]
  rfl

namespace History

/-- **The last number counts the commits, and the stored keys show it.**  After every run the number in memory is the
number of transactions that succeeded and the highest number among the stored keys.  Each number from 1 to it occurs
there, and no other.  A transaction that succeeds takes the next number, which does not wrap around, and one that
fails takes none.  A reopening that succeeds finds the same number, and one whose calls work succeeds.  After the
largest number every transaction that is not empty fails with nothing called and nothing changed. -/
theorem lastTxn_counts_commits (durable : Bool) (steps : List Step) :
    let h := run durable steps
    h.db.lastTxn.toNat = h.committed.length ∧
    Commit.highestTxn h.db.indexKeys = .ok h.db.lastTxn ∧
    (∀ key ∈ h.db.indexKeys, ∃ s, StoredFact.decode key = .ok s ∧ 0 < s.txn ∧ s.txn ≤ h.db.lastTxn) ∧
    (∀ n, 0 < n → n ≤ h.db.lastTxn → ∃ key ∈ h.db.indexKeys, ∃ s, StoredFact.decode key = .ok s ∧ s.txn = n) ∧
    (h.db.lastTxn + 1).toNat = h.db.lastTxn.toNat + 1 ∧
    (∀ faults : Faults, faults.LeaveNothing → ∀ t,
      match (h.db.withFaults faults).transact t with
      | ⟨.ok txn, db, _⟩ => txn = h.db.lastTxn + 1 ∧ db.lastTxn = h.db.lastTxn + 1
      | ⟨.error _, db, _⟩ => db.lastTxn = h.db.lastTxn) ∧
    (∀ faults db, (h.db.withFaults faults).reopen.result = .ok db → db.lastTxn = h.db.lastTxn) ∧
    (∀ faults : Faults, faults.ReadsWork →
      ∃ db, (h.db.withFaults faults).reopen.result = .ok db ∧ db.lastTxn = h.db.lastTxn) ∧
    (h.db.lastTxn = maxTxn → ∀ faults t, t.isEmpty = false → (h.db.withFaults faults).transact t =
      ⟨.error (.key (.transactionOutOfRange (maxTxn + 1))), h.db.withFaults faults, []⟩) := by
  intro h
  have hs : Sound h := sound_run durable steps
  have hkeys := hs.ledger.keysOf_indexKeys
  refine ⟨hs.lastTxn, hkeys.highestTxn hs.ledger.settled hs.numbered, fun key hkey => ?_, fun n hpos hle => ?_,
    toNat_succ hs.bound, fun faults _ t => ?_, fun faults db hok => ?_, fun faults hworks => ?_,
    fun hlast faults t ht => ?_⟩
  · obtain ⟨f, hf, hkeyed⟩ := hkeys.sound key hkey
    obtain ⟨s, hdecode, hholds⟩ := hkeyed.decode hs.ledger.settled
    refine ⟨s, hdecode, ?_, ?_⟩
    · rw [hholds.txn]
      exact hs.numbered.pos f hf
    · rw [hholds.txn]
      exact hs.numbered.le f hf
  · obtain ⟨f, hf, rfl⟩ := hs.numbered.all n hpos hle
    obtain ⟨key, hkey, hkeyed⟩ := hkeys.complete f hf
    obtain ⟨s, hdecode, hholds⟩ := hkeyed.decode hs.ledger.settled
    exact ⟨key, hkey, s, hdecode, hholds.txn⟩
  · have htransact := (hs.toServed.withFaults faults).transact t
    generalize (h.db.withFaults faults).transact t = o at *
    obtain ⟨r, db, events⟩ := o
    cases r with
    | ok txn =>
      obtain ⟨rfl, hlast, -⟩ := htransact
      exact ⟨rfl, hlast⟩
    | error e => exact htransact.1
  · have hreopen := (hs.withFaults faults).reopen
    generalize (h.db.withFaults faults).reopen = o at *
    obtain ⟨r, s, events⟩ := o
    obtain rfl : r = .ok db := hok
    exact hreopen.1
  · have hreopen := (hs.withFaults faults).reopen
    generalize (h.db.withFaults faults).reopen = o at *
    obtain ⟨r, s, events⟩ := o
    cases r with
    | ok db => exact ⟨db, rfl, hreopen.1⟩
    | error e =>
      have hscan : (faults.scan h.db.store.calls.scan).isSome = true := hreopen.1.2
      rw [hworks.2] at hscan
      cases hscan
  · have hlast : (h.db.withFaults faults).lastTxn = maxTxn := hlast
    exact Database.transact_of_last hlast ht

end History
end FactBase
