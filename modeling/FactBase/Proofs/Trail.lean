import FactBase.Proofs.Recovery
/-!
# Trail — the transactions in a log

A log file gets a record for each literal that is registered and one for the keys of each transaction that succeeds.
Wherever its records are cut off, those before the cut build a ledger of exactly the transactions whose last record
they include, and the numbers from 1 on go to these (`Trail`).
-/
namespace FactBase

/-- A transaction that succeeded. -/
structure Committed where
  txn : TxnNumber
  transaction : Transaction
  /-- How long the log file was after it. -/
  stop : Nat

def Committed.facts (c : Committed) : List Fact := c.transaction.asFacts c.txn

def Store.fileLength (s : Store) : Nat := (s.file.getD []).length

namespace Log

def build (batches : List Batch) : KeyMap String := batches.foldl KeyMap.insertAll .empty

theorem build_append (xs ys : List Batch) : build (xs ++ ys) = ys.foldl KeyMap.insertAll (build xs) :=
  List.foldl_append

theorem length_ofBatches_le {xs ys : List Batch} (h : xs <+: ys) : (ofBatches xs).length ≤ (ofBatches ys).length := by
  obtain ⟨rest, rfl⟩ := h
  rw [ofBatches_append, List.length_append]
  exact Nat.le_add_right ..

theorem length_ofBatches_snoc (batches : List Batch) (batch : Batch) :
    (ofBatches (batches ++ [batch])).length = (ofBatches batches).length + Record.size batch := by
  rw [ofBatches_append, List.length_append, ofBatches_cons, List.length_append, Record.length_encode]
  rfl

end Log

open Log (ofBatches build)

/-- **The records before a cut and the transactions that they hold.** -/
structure Kept (kept batches : List Batch) (committed : List Committed) (n : TxnNumber) : Prop where
  count : n.toNat = committed.countP fun c => decide (c.stop ≤ (ofBatches kept).length)
  ledger : Ledger (build kept) ((committed.take n.toNat).flatMap Committed.facts)
  numbered : Numbered ((committed.take n.toNat).flatMap Committed.facts) n
  grows : (build kept).Grows (build batches)

/-- The transactions in the records of a log. -/
structure Trail (batches : List Batch) (committed : List Committed) : Prop where
  /-- Each transaction stops with the record of its keys. -/
  stops : ∀ c ∈ committed, ∃ before keys, before ++ [keyBatch keys] <+: batches ∧
    c.stop = (ofBatches (before ++ [keyBatch keys])).length ∧ KeysOf (build before) c.facts keys
  /-- What the records before any cut keep. -/
  cut : ∀ kept, kept <+: batches → ∃ n, Kept kept batches committed n

namespace Trail

variable {batches : List Batch} {committed : List Committed}

theorem stop_le (h : Trail batches committed) {c : Committed} (hc : c ∈ committed) :
    c.stop ≤ (ofBatches batches).length := by
  obtain ⟨before, keys, hbefore, hstop, -⟩ := h.stops c hc
  rw [hstop]
  exact Log.length_ofBatches_le hbefore

theorem countP_of_le (h : Trail batches committed) {n : Nat} (hn : (ofBatches batches).length ≤ n) :
    committed.countP (fun c => decide (c.stop ≤ n)) = committed.length := by
  rw [List.countP_eq_length]
  intro c hc
  exact decide_eq_true (Nat.le_trans (h.stop_le hc) hn)

theorem kept_all (h : Trail batches committed) : ∃ n : TxnNumber, n.toNat = committed.length ∧
    Ledger (build batches) (committed.flatMap Committed.facts) ∧ Numbered (committed.flatMap Committed.facts) n := by
  obtain ⟨n, hkept⟩ := h.cut batches List.prefix_rfl
  have hcount : n.toNat = committed.length := hkept.count.trans (h.countP_of_le (Nat.le_refl _))
  have htake : committed.take n.toNat = committed := by rw [hcount, List.take_length]
  refine ⟨n, hcount, ?_, ?_⟩
  · have := hkept.ledger
    rwa [htake] at this
  · have := hkept.numbered
    rwa [htake] at this

theorem nil : Trail [] [] where
  stops := fun c hc => by cases hc
  cut := fun kept hkept => by
    obtain rfl := List.prefix_nil.1 hkept
    exact ⟨0, rfl, .empty, .empty, .refl _⟩

/-- **The record of a literal** adds no transaction. -/
theorem entry (h : Trail batches committed) {literal : String} {id : Identifier}
    (hvacant : Dictionary.vacancy (build batches) literal (Dictionary.chain literal) = some id) :
    Trail (batches ++ [Dictionary.entry id literal]) committed where
  stops := fun c hc => by
    obtain ⟨before, keys, hbefore, hstop⟩ := h.stops c hc
    exact ⟨before, keys, hbefore.trans (List.prefix_append ..), hstop⟩
  cut := fun kept hkept => by
    have hgrows : (build batches).Grows (build (batches ++ [Dictionary.entry id literal])) := by
      rw [Log.build_append]
      exact grows_entry hvacant
    -- a cut behind the record keeps everything; one before it is a cut of the old log
    rcases List.prefix_concat_iff.1 hkept with rfl | hkept
    · obtain ⟨n, hn, hledger, hnumbered⟩ := h.kept_all
      have hlen := Log.length_ofBatches_le (List.prefix_append batches [Dictionary.entry id literal])
      refine ⟨n, hn.trans (h.countP_of_le hlen).symm, ?_, ?_, .refl _⟩
      · rw [hn, List.take_length, Log.build_append]
        exact hledger.register hvacant
      · rw [hn, List.take_length]
        exact hnumbered
    · obtain ⟨n, hcount, hledger, hnumbered, hle⟩ := h.cut kept hkept
      exact ⟨n, hcount, hledger, hnumbered, hle.trans hgrows⟩

theorem registers {m : KeyMap String} {more : List Batch} (hreg : Registers m more) :
    ∀ {batches : List Batch}, build batches = m → Trail batches committed → Trail (batches ++ more) committed := by
  induction hreg with
  | nil m =>
    intro batches _ h
    rwa [List.append_nil]
  | cons vacant rest ih =>
    intro batches hm h
    subst hm
    rw [List.append_cons]
    exact ih (Log.build_append ..) (h.entry vacant)

/-- **The record of the keys** adds the transaction. -/
theorem commit (h : Trail batches committed) {txn : TxnNumber} (htxn : txn.toNat = committed.length)
    (hle : txn ≤ maxTxn) {t : Transaction} (ht : t.isEmpty = false) {keys : List String}
    (hkeys : KeysOf (build batches) (t.asFacts (txn + 1)) keys) {stop : Nat}
    (hstop : stop = (ofBatches (batches ++ [keyBatch keys])).length) :
    Trail (batches ++ [keyBatch keys]) (committed ++ [⟨txn + 1, t, stop⟩]) where
  stops := fun c hc => by
    rcases List.mem_append.1 hc with hc | hc
    · obtain ⟨before, keys', hbefore, hstop⟩ := h.stops c hc
      exact ⟨before, keys', hbefore.trans (List.prefix_append ..), hstop⟩
    · obtain rfl := List.mem_singleton.1 hc
      exact ⟨batches, keys, List.prefix_rfl, hstop, hkeys⟩
  cut := fun kept hkept => by
    obtain ⟨n, hn, hledger, hnumbered⟩ := h.kept_all
    obtain rfl : n = txn := UInt64.toNat_inj.1 (hn.trans htxn.symm)
    have hgrows : (build batches).Grows (build (batches ++ [keyBatch keys])) := by
      rw [Log.build_append]
      exact hledger.grows_keyBatch hkeys
    rcases List.prefix_concat_iff.1 hkept with rfl | hkept
    · have hlen := Log.length_ofBatches_le (List.prefix_append batches [keyBatch keys])
      have hcount : (n + 1).toNat = (committed ++ [Committed.mk (n + 1) t stop]).length := by
        rw [toNat_succ hle, List.length_append, hn]
        rfl
      refine ⟨n + 1, ?_, ?_, ?_, .refl _⟩
      · have hlast : decide (stop ≤ (ofBatches (batches ++ [keyBatch keys])).length) = true :=
          decide_eq_true (Nat.le_of_eq hstop)
        rw [List.countP_append, h.countP_of_le hlen, toNat_succ hle, hn, List.countP_singleton, if_pos hlast]
      · rw [hcount, List.take_length, List.flatMap_append, List.flatMap_singleton, Log.build_append]
        exact hledger.commit hkeys
      · rw [hcount, List.take_length, List.flatMap_append, List.flatMap_singleton]
        exact hnumbered.commit hle ht
    · obtain ⟨k, hcount, hledger', hnumbered', hle'⟩ := h.cut kept hkept
      have htake : (committed ++ [Committed.mk (n + 1) t stop]).take k.toNat = committed.take k.toNat := by
        rw [List.take_append_of_le_length]
        rw [hcount]
        exact List.countP_le_length
      -- the new transaction stops behind its record, so no earlier cut counts it
      have hlater : ¬stop ≤ (ofBatches kept).length := by
        have hlen := Log.length_ofBatches_le hkept
        have hsize : 12 ≤ Record.size (keyBatch keys) := Nat.le_add_right ..
        rw [hstop, Log.length_ofBatches_snoc]
        omega
      refine ⟨k, ?_, ?_, ?_, hle'.trans hgrows⟩
      · rw [hcount, List.countP_append]
        simp [hlater]
      · rw [htake]
        exact hledger'
      · rw [htake]
        exact hnumbered'

end Trail
end FactBase
