import FactBase.Database
import FactBase.Proofs.Ledger
/-!
# Transacting — what a transaction does, however its calls fail

A transaction registers literals and then writes its keys in one batch (`does_run`).  One that fails has registered
literals at most; one that succeeds takes the number after the last and leaves the keys of its facts.
-/
namespace FactBase
namespace Commit

open Dictionary (slot entry)

variable {ε α β : Type} {m : KeyMap String}

/-- What a computation may do that only registers literals: `known` holds of its result and the map it leaves. -/
def Learns (m : KeyMap String) (known : α → KeyMap String → Prop) : Except ε α → List Batch → Prop
  | .ok a, batches => Registers m batches ∧ known a (batches.foldl KeyMap.insertAll m)
  | .error _, batches => Registers m batches

theorem learns_pure {known : α → KeyMap String → Prop} {a : α} (h : known a m) :
    (pure a : Run ε α).Does m (Learns m known) := .pure ⟨.nil m, h⟩

/-- **One such computation after another**: what the first has learnt stays known while the map grows. -/
theorem learns_bind {x : Run ε α} {f : α → Run ε β} {known : α → KeyMap String → Prop}
    {known' : β → KeyMap String → Prop} (hx : x.Does m (Learns m known))
    (hf : ∀ a m', m.Grows m' → known a m' → (f a).Does m' (Learns m' known')) :
    (x >>= f).Does m (Learns m known') := by
  refine .bind hx (fun e batches h => h) fun a batches h => ?_
  obtain ⟨hreg, hknown⟩ := h
  refine (hf a _ hreg.grows hknown).mono fun r more h' => ?_
  cases r with
  | error e => exact hreg.append h'
  | ok b =>
    refine ⟨hreg.append h'.1, ?_⟩
    rw [List.foldl_append]
    exact h'.2

theorem does_registerLiteral (m : KeyMap String) (literal : String) :
    (registerLiteral literal).Does m (Learns m fun id m' => m'.get? (slot id) = some literal) := by
  refine .mapError (Dictionary.does_register m literal) fun r batches h => ?_
  cases r with
  | error e =>
    obtain rfl : batches = [] := h
    exact .nil m
  | ok id =>
    rcases h with ⟨rfl, hseek⟩ | ⟨rfl, hvacant⟩
    · exact ⟨.nil m, (Dictionary.held_of_seek hseek).2⟩
    · refine ⟨.cons hvacant (.nil _), ?_⟩
      change (m.insertAll (entry id literal)).get? (slot id) = some literal
      rw [Dictionary.get?_entry, if_pos rfl]

theorem does_encodeRow {txn : TxnNumber} (htxn : txn ≤ maxTxn) (row : Row) (m : KeyMap String) :
    (encodeRow txn (Segment.txnText txn) row).Does m
      (Learns m fun key m' => (Fact.ofRow txn row).Keyed m' key) := by
  refine learns_bind (does_registerLiteral m row.entity) fun entity m₁ _ hentity => ?_
  refine learns_bind (does_registerLiteral m₁ row.attr) fun attr m₂ h₂ hattr => ?_
  refine learns_bind (does_registerLiteral m₂ row.value) fun value m₃ h₃ hvalue => ?_
  refine learns_pure ⟨⟨entity, attr, value, txn, row.operation⟩, ?_, htxn, ?_⟩
  · exact ⟨h₃ _ _ (h₂ _ _ hentity), h₃ _ _ hattr, hvalue, rfl, rfl⟩
  · exact (StoredFact.encode_segments ⟨entity, attr, value, txn, row.operation⟩).symm

theorem does_encodeRows {txn : TxnNumber} (htxn : txn ≤ maxTxn) : ∀ (rows : List Row) (m : KeyMap String),
    (encodeRows txn (Segment.txnText txn) rows).Does m
      (Learns m fun keys m' => KeysOf m' (rows.map (Fact.ofRow txn)) keys)
  | [], m => learns_pure ⟨fun key h => (by cases h), fun f h => (by cases h)⟩
  | row :: rows, m => by
    refine learns_bind (does_encodeRow htxn row m) fun key m₁ _ hkey => ?_
    refine learns_bind (does_encodeRows htxn rows m₁) fun keys m₂ h₂ hkeys => ?_
    refine learns_pure ⟨fun key' h => ?_, fun f h => ?_⟩
    · rcases List.mem_cons.1 h with rfl | h
      · exact ⟨_, List.mem_cons_self, hkey.mono h₂⟩
      · obtain ⟨f, hf, hkey'⟩ := hkeys.sound key' h
        exact ⟨f, List.mem_cons_of_mem _ hf, hkey'⟩
    · rcases List.mem_cons.1 h with rfl | h
      · exact ⟨key, List.mem_cons_self, hkey.mono h₂⟩
      · obtain ⟨key', hmem, hkey'⟩ := hkeys.complete f h
        exact ⟨key', List.mem_cons_of_mem _ hmem, hkey'⟩

/-- What a transaction may do after the last one.  A failure leaves registered literals; success takes the next number
and leaves, behind the registered literals, one batch with the keys of its facts. -/
def Transacts (m : KeyMap String) (lastTxn : TxnNumber) (t : Transaction) :
    Except Commit.Error TxnNumber → List Batch → Prop
  | .ok txn, batches => txn = lastTxn + 1 ∧ txn ≤ maxTxn ∧ t.isEmpty = false ∧
      ∃ registrations keys, batches = registrations ++ [keyBatch keys] ∧ Registers m registrations ∧
        KeysOf (registrations.foldl KeyMap.insertAll m) (t.asFacts txn) keys
  | .error _, batches => Registers m batches

theorem run_of_isEmpty {t : Transaction} (h : t.isEmpty = true) (lastTxn : TxnNumber) :
    run lastTxn t = throw .emptyTransaction := by
  unfold run
  dsimp only
  rw [if_pos h, Run.throw_bind]

/-- **No number is left after the largest one**: such a transaction makes no call at all. -/
theorem run_of_outOfRange {t : Transaction} (h : t.isEmpty = false) {lastTxn : TxnNumber}
    (hlt : maxTxn < lastTxn + 1) : run lastTxn t = throw (.key (.transactionOutOfRange (lastTxn + 1))) := by
  unfold run
  dsimp only
  rw [if_neg (by rw [h]; exact Bool.false_ne_true), Segment.ofTxn_of_lt hlt]
  exact Run.ofExcept_error_bind _ _

theorem run_of_le {t : Transaction} (h : t.isEmpty = false) {lastTxn : TxnNumber} (hle : lastTxn + 1 ≤ maxTxn) :
    run lastTxn t = do
      let keys ← encodeRows (lastTxn + 1) (Segment.txnText (lastTxn + 1)) (t.rows (Segment.txnText (lastTxn + 1)))
      (Run.write (keyBatch keys)).mapError .store
      Run.tell (.committed (lastTxn + 1) t.facts.length t.metadata.length keys.length)
      return lastTxn + 1 := by
  unfold run
  dsimp only
  rw [if_neg (by rw [h]; exact Bool.false_ne_true), Segment.ofTxn_of_le hle]
  exact Run.ofExcept_ok_bind _ _

/-- A transaction is refused before its first call, or takes the next number and runs. -/
theorem run_cases {P : Run Commit.Error TxnNumber → Prop} (lastTxn : TxnNumber) (t : Transaction)
    (refused : ∀ e, P (throw e))
    (goes : t.isEmpty = false → lastTxn + 1 ≤ maxTxn → P (do
      let keys ← encodeRows (lastTxn + 1) (Segment.txnText (lastTxn + 1)) (t.rows (Segment.txnText (lastTxn + 1)))
      (Run.write (keyBatch keys)).mapError .store
      Run.tell (.committed (lastTxn + 1) t.facts.length t.metadata.length keys.length)
      return lastTxn + 1)) : P (run lastTxn t) := by
  cases hempty : t.isEmpty with
  | true =>
    rw [run_of_isEmpty hempty]
    exact refused _
  | false =>
    by_cases htxn : lastTxn + 1 ≤ maxTxn
    · rw [run_of_le hempty htxn]
      exact goes hempty htxn
    · rw [run_of_outOfRange hempty (UInt64.not_le.1 htxn)]
      exact refused _

/-- **What a transaction does**, whichever of its calls fail. -/
theorem does_run (m : KeyMap String) (lastTxn : TxnNumber) (t : Transaction) :
    (run lastTxn t).Does m (Transacts m lastTxn t) := by
  refine run_cases (P := fun x => x.Does m (Transacts m lastTxn t)) lastTxn t (fun e => .throw (.nil m)) fun hempty htxn => ?_
  refine .bind (does_encodeRows htxn (t.rows (Segment.txnText (lastTxn + 1))) m) (fun e batches h => h) ?_
  rintro keys registrations ⟨hreg, hkeys⟩
  refine .bind (.write _ (keyBatch keys) Commit.Error.store) ?_ ?_
  · rintro e _ rfl
    rw [List.append_nil]
    exact hreg
  · rintro _ _ rfl
    refine .tell_bind ?_
    exact .pure ⟨rfl, htxn, hempty, registrations, keys, rfl, hreg, hkeys⟩

end Commit
end FactBase
