import FactBase.Proofs.Issuing
import Mathlib.Data.List.Nodup
/-!
# Colliding — literals with one first candidate have one chain

Equal checksums come from equal registers, and what is fed behind them keeps the registers equal
(`checksum_append_congr`).  So literals that collide in the first candidate collide in every one (`chain_eq_of_first`):
they share sixteen slots, and no more of them can ever be registered (`length_le_chainLength`).  A literal whose chain
others hold is refused, and nothing is written (`weathers_claim_of_held`).  Main statement: `collisions_share_a_chain`.
-/
namespace FactBase

/-- **What follows texts of one checksum keeps their checksums equal.** -/
theorem Crc32.checksum_append_congr {xs ys : List UInt8} (h : checksum xs = checksum ys) (more : List UInt8) :
    checksum (xs ++ more) = checksum (ys ++ more) := by
  have hregister : feedAll 0xFFFFFFFF xs = feedAll 0xFFFFFFFF ys := (UInt32.xor_left_inj _).1 h
  rw [checksum, checksum, feedAll_append, feedAll_append, hregister]

namespace Dictionary

variable {l l' : String}

/-- **Literals that collide in the first candidate collide in every one.** -/
theorem candidate_eq_of_first (h : candidate l 0 = candidate l' 0) (attempt : Nat) :
    candidate l attempt = candidate l' attempt := by
  have hchecksum : Crc32.checksum (Bytes.ofText l) = Crc32.checksum (Bytes.ofText l') := Identifier.ofDigest_inj h
  cases attempt with
  | zero => exact h
  | succ attempt => exact congrArg Identifier.ofDigest (Crc32.checksum_append_congr hchecksum _)

theorem chain_eq_of_first (h : candidate l 0 = candidate l' 0) : chain l = chain l' :=
  List.map_congr_left fun attempt _ => candidate_eq_of_first h attempt

theorem length_chain (l : String) : (chain l).length = chainLength := by
  rw [chain, List.length_map, List.length_range]

/-- **A first candidate has room for as many literals as a chain is long.** -/
theorem Settled.length_le_chainLength {m : KeyMap String} (hm : Settled m) {first : Identifier} {ls : List String}
    (hnodup : ls.Nodup) (h : ∀ l ∈ ls, candidate l 0 = first ∧ ∃ id, m.get? (slot id) = some l) :
    ls.length ≤ chainLength := by
  cases ls with
  | nil => exact Nat.zero_le _
  | cons l₀ ls =>
    -- each literal stands in a slot of the one chain, and no two in the same
    have hslots : ((l₀ :: ls).map (identify m)).Nodup := by
      refine (List.nodup_map_iff_inj_on hnodup).2 fun l hl l' hl' heq => ?_
      obtain ⟨-, id, hid⟩ := h l hl
      obtain ⟨-, id', hid'⟩ := h l' hl'
      rw [hm.held_iff.2 hid, hm.held_iff.2 hid'] at heq
      exact (hm.eq_iff hid hid').1 (Option.some.inj heq)
    have hchain : (l₀ :: ls).map (identify m) ⊆ (chain l₀).map some := by
      intro place hplace
      obtain ⟨l, hl, rfl⟩ := List.mem_map.1 hplace
      obtain ⟨hfirst, id, hid⟩ := h l hl
      have hseek := hm.held_iff.2 hid
      have hcommon : chain l = chain l₀ := chain_eq_of_first (hfirst.trans (h l₀ List.mem_cons_self).1.symm)
      rw [hseek]
      exact List.mem_map_of_mem (hcommon ▸ (held_of_seek hseek).1)
    have hlength := hslots.length_le_of_subset hchain
    rwa [List.length_map, List.length_map, length_chain] at hlength

/-- **A literal that finds other literals all along its chain is refused**, and only read calls are made. -/
theorem weathers_claim_of_held {m : KeyMap String} : ∀ {ids : List Identifier},
    (∀ id ∈ ids, ∃ held, m.get? (slot id) = some held ∧ held ≠ l) →
    (claim l ids).Weathers m Dictionary.Error.store (.error (.probeLimit l))
  | [], _ => .throw _
  | id :: ids, h => by
    obtain ⟨held, hget, hne⟩ := h id List.mem_cons_self
    refine .bind (.mapError Dictionary.Error.store (.get (slot id))) ?_
    rw [hget]
    dsimp only
    rw [if_neg hne]
    exact weathers_claim_of_held fun id' hid' => h id' (List.mem_cons_of_mem _ hid')

end Dictionary

/-- **Literals that collide share their whole chain.**  Literals with one first candidate have the same candidate at
every attempt.  So at every point of every run of registrations and transactions, whichever of their calls have failed,
the slots hold at most as many literals with one first candidate as a chain is long.  And in every store, registering a
literal whose chain other literals hold changes nothing, and where reads work it reports that the chain is full. -/
theorem collisions_share_a_chain :
    (∀ l l', Dictionary.candidate l 0 = Dictionary.candidate l' 0 →
      ∀ attempt, Dictionary.candidate l attempt = Dictionary.candidate l' attempt) ∧
    (∀ durable writings first (ls : List String), ls.Nodup →
      (∀ l ∈ ls, Dictionary.candidate l 0 = first ∧
        ∃ id, (Issuing.run durable writings).db.store.entries.get? (Dictionary.slot id) = some l) →
      ls.length ≤ 16) ∧
    ∀ (store : Store) l,
      (∀ id ∈ Dictionary.chain l, ∃ held, store.entries.get? (Dictionary.slot id) = some held ∧ held ≠ l) →
      store.OnlyRead ((Dictionary.register l).on store).state ∧
        (store.faults.ReadsWork → ((Dictionary.register l).on store).result = .error (.probeLimit l)) := by
  refine ⟨fun l l' h attempt => Dictionary.candidate_eq_of_first h attempt,
    fun durable writings first ls hnodup h => ?_, fun store l h => ?_⟩
  · exact (Issuing.sound_run durable writings).settled.length_le_chainLength hnodup h
  · have hweathers := Dictionary.weathers_claim_of_held h
    obtain ⟨r, s, hrun, hread, -⟩ := hweathers (.start store) rfl
    have hresult := hweathers.of_works (s := .start store) rfl
    have hregister : (Dictionary.register l).on store = ⟨r, s.store, s.events⟩ := by
      unfold Run.on Dictionary.register
      rw [hrun]
    rw [hrun] at hresult
    rw [hregister]
    exact ⟨hread, hresult⟩

/-- The two literals have one checksum, and the run registers both.  In the other store, the first of them holds the
whole chain of the second. -/
theorem collisions_share_a_chain_buckeroo :
    let writings : List Writing := [.literal .never "plumless", .literal .never "buckeroo"]
    let full := Store.ofEntries (KeyMap.empty.insertAll
      ((Dictionary.chain "buckeroo").map fun id => (Dictionary.slot id, "plumless")))
    Dictionary.candidate "plumless" 0 = Dictionary.candidate "buckeroo" 0 ∧
      Dictionary.candidate "plumless" 15 = Dictionary.candidate "buckeroo" 15 ∧
      (∀ l ∈ ["plumless", "buckeroo"], ∃ id,
        (Issuing.run true writings).db.store.entries.get? (Dictionary.slot id) = some l) ∧
      ["plumless", "buckeroo"].length ≤ 16 ∧
      full.OnlyRead ((Dictionary.register "buckeroo").on full).state ∧
      ((Dictionary.register "buckeroo").on full).result = .error (.probeLimit "buckeroo") := by
  intro writings full
  have hfirst : Dictionary.candidate "plumless" 0 = Dictionary.candidate "buckeroo" 0 := by decide +kernel
  have hregistered : ∀ l ∈ ["plumless", "buckeroo"], ∃ id,
      (Issuing.run true writings).db.store.entries.get? (Dictionary.slot id) = some l := by
    have hlist : (Issuing.run true writings).registered = ["plumless", "buckeroo"] := by decide +kernel
    exact fun l hl => ((Issuing.sound_run true writings).registered l).1 (hlist ▸ hl)
  have hheld : ∀ id ∈ Dictionary.chain "buckeroo", full.entries.get? (Dictionary.slot id) = some "plumless" := by
    decide +kernel
  obtain ⟨hchain, hroom, hrefused⟩ := collisions_share_a_chain
  obtain ⟨hread, hlimit⟩ := hrefused full "buckeroo" fun id hid => ⟨"plumless", hheld id hid, by decide⟩
  refine ⟨hfirst, hchain _ _ hfirst 15, hregistered, ?_, hread, hlimit Faults.readsWork_never⟩
  refine hroom true writings (Dictionary.candidate "plumless" 0) _ (by decide) fun l hl => ⟨?_, hregistered l hl⟩
  rcases List.mem_cons.1 hl with rfl | hl
  · rfl
  · rw [List.mem_singleton.1 hl, hfirst]

end FactBase
