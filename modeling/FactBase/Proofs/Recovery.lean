import FactBase.DataFile
import FactBase.Proofs.Transacting
/-!
# Recovery — the last number found among the stored keys

Reading keys that all decode gives the highest of their numbers (`highestTxn_spec`).  Opening a database over a ledger
whose facts have the numbers up to `n`, and all of them, recovers `n` wherever the scan works, and no other number
wherever it does not (`ofStore_of_numbered`).
-/
namespace FactBase

namespace Commit

theorem txn_le_max_left (a b : TxnNumber) : a ≤ max a b := by
  change a ≤ if a ≤ b then b else a
  split
  · assumption
  · exact UInt64.le_refl a

theorem txn_le_max_right (a b : TxnNumber) : b ≤ max a b := by
  change b ≤ if a ≤ b then b else a
  split
  · exact UInt64.le_refl b
  · rename_i h
    exact UInt64.le_of_lt (UInt64.not_le.1 h)

theorem txn_max_eq (a b : TxnNumber) : max a b = a ∨ max a b = b := by
  change (if a ≤ b then b else a) = a ∨ (if a ≤ b then b else a) = b
  split
  · exact .inr rfl
  · exact .inl rfl

def takeHigher (highest : TxnNumber) (key : String) : Except Key.Error TxnNumber :=
  (StoredFact.decode key).map fun f => max highest f.txn

/-- What a search from a number on has found: none of the keys has a higher one, and one of them has it unless it is
the number from the start. -/
structure IsHighest (start : TxnNumber) (keys : List String) (n : TxnNumber) : Prop where
  start_le : start ≤ n
  le : ∀ key ∈ keys, ∀ s, StoredFact.decode key = .ok s → s.txn ≤ n
  attained : n = start ∨ ∃ key ∈ keys, ∃ s, StoredFact.decode key = .ok s ∧ s.txn = n

theorem foldlM_takeHigher : ∀ (keys : List String) (start : TxnNumber),
    (∀ key ∈ keys, ∃ s, StoredFact.decode key = .ok s) →
      ∃ n, keys.foldlM takeHigher start = .ok n ∧ IsHighest start keys n
  | [], start, _ => ⟨start, rfl, UInt64.le_refl start, fun key h => (by cases h), .inl rfl⟩
  | key :: keys, start, h => by
    obtain ⟨s, hs⟩ := h key List.mem_cons_self
    obtain ⟨n, hn, hhighest⟩ := foldlM_takeHigher keys (max start s.txn) fun k hk => h k (List.mem_cons_of_mem _ hk)
    have hstep : takeHigher start key = .ok (max start s.txn) := by rw [takeHigher, hs]; rfl
    refine ⟨n, ?_, UInt64.le_trans (txn_le_max_left ..) hhighest.start_le, fun k hk s' hs' => ?_, ?_⟩
    · rw [List.foldlM_cons, hstep]
      exact hn
    · rcases List.mem_cons.1 hk with rfl | hk
      · obtain rfl := Except.ok.inj (hs.symm.trans hs')
        exact UInt64.le_trans (txn_le_max_right ..) hhighest.start_le
      · exact hhighest.le k hk s' hs'
    · rcases hhighest.attained with rfl | ⟨k, hk, s', hs', rfl⟩
      · rcases txn_max_eq start s.txn with heq | heq
        · exact .inl heq
        · exact .inr ⟨key, List.mem_cons_self, s, hs, heq.symm⟩
      · exact .inr ⟨k, List.mem_cons_of_mem _ hk, s', hs', rfl⟩

/-- **The highest number in keys that can be read.** -/
theorem highestTxn_spec {keys : List String} (h : ∀ key ∈ keys, ∃ s, StoredFact.decode key = .ok s) :
    ∃ n, highestTxn keys = .ok n ∧ IsHighest 0 keys n :=
  foldlM_takeHigher keys 0 h

end Commit

/-- The facts have the numbers from 1 to `n`, and each of them. -/
structure Numbered (facts : List Fact) (n : TxnNumber) : Prop where
  pos : ∀ f ∈ facts, 0 < f.txn
  le : ∀ f ∈ facts, f.txn ≤ n
  all : ∀ k, 0 < k → k ≤ n → ∃ f ∈ facts, f.txn = k

theorem Transaction.txn_of_mem {t : Transaction} {txn : TxnNumber} {f : Fact} (h : f ∈ t.asFacts txn) :
    f.txn = txn := by
  obtain ⟨row, -, rfl⟩ := List.mem_map.1 h
  rfl

theorem Transaction.exists_mem {t : Transaction} (h : t.isEmpty = false) (txn : TxnNumber) :
    ∃ f, f ∈ t.asFacts txn := by
  refine List.exists_mem_of_ne_nil _ fun hnil => ?_
  simp only [asFacts, rows, List.map_eq_nil_iff, List.append_eq_nil_iff] at hnil
  simp [isEmpty, hnil] at h

theorem toNat_succ {n : TxnNumber} (h : n ≤ maxTxn) : (n + 1).toNat = n.toNat + 1 := by
  have hle := UInt64.le_iff_toNat_le.1 h
  have hmax : maxTxn.toNat = 2176782335 := rfl
  rw [UInt64.toNat_add]
  change (n.toNat + 1) % 18446744073709551616 = n.toNat + 1
  omega

theorem Numbered.empty : Numbered [] 0 where
  pos := fun f hf => by cases hf
  le := fun f hf => by cases hf
  all := fun k hpos hle => absurd hpos (UInt64.not_lt.2 hle)

theorem Numbered.commit {facts : List Fact} {n : TxnNumber} (h : Numbered facts n) (hn : n ≤ maxTxn) {t : Transaction}
    (ht : t.isEmpty = false) : Numbered (facts ++ t.asFacts (n + 1)) (n + 1) := by
  have hsucc := toNat_succ hn
  refine ⟨fun f hf => ?_, fun f hf => ?_, fun k hpos hle => ?_⟩
  · rcases List.mem_append.1 hf with hf | hf
    · exact h.pos f hf
    · rw [Transaction.txn_of_mem hf, UInt64.lt_iff_toNat_lt, hsucc]
      exact Nat.succ_pos _
  · rcases List.mem_append.1 hf with hf | hf
    · have := UInt64.le_iff_toNat_le.1 (h.le f hf)
      rw [UInt64.le_iff_toNat_le, hsucc]
      omega
    · rw [Transaction.txn_of_mem hf]
      exact UInt64.le_refl _
  · by_cases hk : k ≤ n
    · obtain ⟨f, hf, rfl⟩ := h.all k hpos hk
      exact ⟨f, List.mem_append_left _ hf, rfl⟩
    · obtain ⟨f, hf⟩ := Transaction.exists_mem ht (n + 1)
      refine ⟨f, List.mem_append_right _ hf, ?_⟩
      rw [Transaction.txn_of_mem hf]
      rw [UInt64.le_iff_toNat_le] at hk hle
      exact UInt64.toNat_inj.1 (by omega)

theorem KeysOf.decode {m : KeyMap String} {facts : List Fact} {keys : List String} (h : KeysOf m facts keys)
    (hm : Dictionary.Settled m) {key : String} (hkey : key ∈ keys) : ∃ s, StoredFact.decode key = .ok s := by
  obtain ⟨f, -, hkeyed⟩ := h.sound key hkey
  obtain ⟨s, hs, -⟩ := hkeyed.decode hm
  exact ⟨s, hs⟩

/-- **The keys of facts that are numbered up to `n` show `n`.** -/
theorem KeysOf.highestTxn {m : KeyMap String} {facts : List Fact} {keys : List String} {n : TxnNumber}
    (h : KeysOf m facts keys) (hm : Dictionary.Settled m) (hn : Numbered facts n) :
    Commit.highestTxn keys = .ok n := by
  obtain ⟨n', hn', hhighest⟩ := Commit.highestTxn_spec fun key hkey => h.decode hm hkey
  rw [hn']
  congr 1
  apply UInt64.le_antisymm
  · rcases hhighest.attained with rfl | ⟨key, hkey, s, hs, rfl⟩
    · exact UInt64.zero_le
    · obtain ⟨f, hf, hkeyed⟩ := h.sound key hkey
      obtain ⟨s', hs', hholds⟩ := hkeyed.decode hm
      obtain rfl := Except.ok.inj (hs.symm.trans hs')
      exact hholds.txn ▸ hn.le f hf
  · by_cases hzero : n = 0
    · exact hzero ▸ UInt64.zero_le
    · obtain ⟨f, hf, rfl⟩ := hn.all n (UInt64.pos_iff_ne_zero.2 hzero) (UInt64.le_refl n)
      obtain ⟨key, hkey, hkeyed⟩ := h.complete f hf
      obtain ⟨s, hs, hholds⟩ := hkeyed.decode hm
      rw [← hholds.txn]
      exact hhighest.le key hkey s hs

theorem Ledger.keysOf_keysIn {m : KeyMap String} {facts : List Fact} (h : Ledger m facts) :
    KeysOf m facts (m.keysIn (.under (Key.stem Commit.index))) where
  sound := fun _ hkey => h.mem_keysIn.1 hkey
  complete := fun f hf => by
    obtain ⟨key, hkeyed, -⟩ := h.stored f hf
    exact ⟨key, h.mem_keysIn.2 ⟨f, hf, hkeyed⟩, hkeyed⟩

namespace Database

theorem recover_of_works {store : Store} {n : TxnNumber} (hfault : store.faults.scan store.calls.scan = none)
    (hn : Commit.highestTxn (store.entries.keysIn (.under (Key.stem Commit.index))) = .ok n) :
    Commit.recover (.start store) = (.ok n,
      ⟨{ store with calls.scan := store.calls.scan + 1 }, [.recoveredTransaction n]⟩) := by
  unfold Commit.recover
  rw [Run.bind_apply]
  simp only [Run.scan, Store.scan, Session.start, hfault, hn]
  rfl

/-- A scan that breaks off ends the search, once the keys before the break have been read. -/
theorem recover_of_fault {store : Store} {after : Nat} {cause : Store.Error} {n : TxnNumber}
    (hfault : store.faults.scan store.calls.scan = some (after, cause))
    (hn : Commit.highestTxn ((store.entries.keysIn (.under (Key.stem Commit.index))).take after) = .ok n) :
    Commit.recover (.start store) = (.error (.store cause),
      ⟨{ store with calls.scan := store.calls.scan + 1 }, []⟩) := by
  unfold Commit.recover
  rw [Run.bind_apply]
  simp only [Run.scan, Store.scan, Session.start, hfault, hn]
  rfl

/-- **Opening a database over numbered facts** recovers their highest number, or breaks off where the scan does, and
changes nothing. -/
theorem ofStore_of_numbered {store : Store} {facts : List Fact} {n : TxnNumber} (h : Ledger store.entries facts)
    (hn : Numbered facts n) :
    store.Wrote [] (ofStore store).state ∧
      (((ofStore store).result = .ok ⟨(ofStore store).state, n, .eavto⟩) ∨
        (store.faults.scan store.calls.scan).isSome = true ∧
          ∃ cause, (ofStore store).result = .error (.recovery (.store cause))) := by
  have hkeys := h.keysOf_keysIn
  have hhighest := hkeys.highestTxn h.settled hn
  cases hfault : store.faults.scan store.calls.scan with
  | none =>
    unfold ofStore Run.on
    rw [recover_of_works hfault hhighest]
    exact ⟨.nothing rfl rfl rfl, .inl rfl⟩
  | some fault =>
    obtain ⟨after, cause⟩ := fault
    obtain ⟨n', hn', -⟩ := Commit.highestTxn_spec fun key hkey =>
      hkeys.decode h.settled (List.mem_of_mem_take hkey)
    unfold ofStore Run.on
    rw [recover_of_fault hfault hn']
    exact ⟨.nothing rfl rfl rfl, .inr ⟨rfl, cause, rfl⟩⟩

/-- **Opening a database on a log file** whose batches build a ledger of numbered facts always succeeds.  The store
serves those batches, and the last number is that of the facts. -/
theorem ofFile_of_numbered {bytes : List UInt8} {facts : List Fact} {n : TxnNumber}
    (h : Ledger (Log.read bytes).entries facts) (hn : Numbered facts n) :
    ∃ db, (ofFile (.present bytes)).result = .ok db ∧ (ofFile (.present bytes)).state = some db.store ∧
      db.lastTxn = n ∧ db.index = .eavto ∧ Log.Serves db.store (Log.read bytes).batches := by
  have hserves := Log.serves_openStore bytes
  have hledger : Ledger (Log.openStore bytes).state.entries facts := by
    rw [hserves.entries]
    exact h
  obtain ⟨hwrote, hresult⟩ := ofStore_of_numbered hledger hn
  refine ⟨_, hresult.resolve_right fun hfault => ?_, rfl, rfl, rfl, hserves.fits, ?_, ?_⟩
  · cases hfault.1
  · rw [hwrote.file_nil, hserves.file]
  · rw [hwrote.entries, hserves.entries]
    rfl

end Database
end FactBase
