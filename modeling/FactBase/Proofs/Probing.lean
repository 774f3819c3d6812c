import FactBase.Proofs.Checksum
import FactBase.Proofs.Colliding
/-!
# Probing — a chain leads on to new slots

From the second on, the candidates of a literal are checksums of the same bytes with different numbers behind them.  A
checksum tells the four bytes that come last, so these candidates differ (`candidate_inj`): behind its first slot a
chain has fifteen more (`nodup_tail_chain`).  A registration that reports a full chain has found another literal in
each of them (`held_of_claim`), and where the dictionary is settled different slots hold different literals
(`Settled.others_of_held`).  Main statement: `full_chains_hold_fifteen_others`.
-/
namespace FactBase

theorem Bytes.ofWord_inj {m n : Nat} (hm : m < 4294967296) (hn : n < 4294967296) (h : ofWord m = ofWord n) :
    m = n := by
  have hread := toWord?_ofWord hm []
  rw [h, toWord?_ofWord hn] at hread
  exact (Option.some.inj hread).symm

namespace Dictionary

variable {l : String} {m : KeyMap String}

theorem candidate_of_pos {attempt : Nat} (h : 1 ≤ attempt) (l : String) :
    candidate l attempt = .ofDigest (Crc32.checksum (Bytes.ofText l ++ Bytes.ofWord attempt)) :=
  congrArg (fun bytes => Identifier.ofDigest (Crc32.checksum bytes)) (if_neg (Nat.ne_of_gt h))

/-- **No two attempts behind the first try the same candidate**, whatever the literal is. -/
theorem candidate_inj {i j : Nat} (hi : 1 ≤ i) (hj : 1 ≤ j) (hi' : i < 4294967296) (hj' : j < 4294967296)
    (h : candidate l i = candidate l j) : i = j := by
  rw [candidate_of_pos hi, candidate_of_pos hj] at h
  have hregister := (UInt32.xor_left_inj _).1 (Identifier.ofDigest_inj h)
  rw [Crc32.feedAll_append, Crc32.feedAll_append] at hregister
  exact Bytes.ofWord_inj hi' hj' (Crc32.bytes_of_feedAll rfl (Nat.le_refl 4) hregister)

theorem tail_chain (l : String) : (chain l).tail = (List.range' 1 15).map (candidate l) := rfl

theorem nodup_tail_chain (l : String) : (chain l).tail.Nodup := by
  rw [tail_chain]
  refine List.Nodup.map_on (fun i hi j hj h => ?_) List.nodup_range'
  rw [List.mem_range'_1] at hi hj
  exact candidate_inj hi.1 hj.1 (by omega) (by omega) h

/-- **A registration that reports a full chain has found another literal in each slot of it**, whichever calls fail. -/
theorem held_of_claim {text : String} : ∀ {ids : List Identifier} {s s' : Session},
    claim l ids s = (.error (.probeLimit text), s') →
    text = l ∧ ∀ id ∈ ids, ∃ held, s.store.entries.get? (slot id) = some held ∧ held ≠ l
  | [], s, s', h => by
    cases h
    exact ⟨rfl, fun id hid => by cases hid⟩
  | id :: ids, s, s', h => by
    obtain ⟨r, s₁, hrun, hread, hr⟩ :=
      Run.Weathers.mapError Dictionary.Error.store (Run.Weathers.get (slot id)) s rfl
    rw [claim, Run.bind_apply, read, hrun] at h
    rcases hr with rfl | ⟨e, -, rfl⟩
    · cases hget : s.store.entries.get? (slot id) with
      | none =>
        -- the slot is free, so what can fail here is the write call alone
        rw [hget] at h
        change ((Run.write [(slot id, l)]).mapError Dictionary.Error.store >>= fun _ => pure id) s₁ = _ at h
        rw [Run.bind_apply, Run.mapError, Run.write] at h
        generalize s₁.store.write [(slot id, l)] = o at h
        obtain ⟨answer, store⟩ := o
        cases answer <;> cases h
      | some held =>
        rw [hget] at h
        change (if held = l then pure id else claim l ids) s₁ = _ at h
        by_cases heq : held = l
        · rw [if_pos heq] at h
          cases h
        · rw [if_neg heq] at h
          obtain ⟨htext, hrest⟩ := held_of_claim h
          refine ⟨htext, fun id' hid' => ?_⟩
          rcases List.mem_cons.1 hid' with rfl | hid'
          · exact ⟨held, hget, heq⟩
          · rw [← hread.entries]
            exact hrest id' hid'
    · cases h

/-- **Different slots that other literals hold** hold as many different literals, none of them the one at hand. -/
theorem Settled.others_of_held (hm : Settled m) : ∀ {ids : List Identifier}, ids.Nodup →
    (∀ id ∈ ids, ∃ held, m.get? (slot id) = some held ∧ held ≠ l) →
    ∃ others : List String, ids.map (fun id => m.get? (slot id)) = others.map some ∧ others.Nodup ∧ l ∉ others
  | [], _, _ => ⟨[], rfl, .nil, List.not_mem_nil⟩
  | id :: ids, hnodup, h => by
    obtain ⟨hid, hids⟩ := List.nodup_cons.1 hnodup
    obtain ⟨held, hget, hne⟩ := h id List.mem_cons_self
    have hrest := hm.others_of_held hids fun id' hid' => h id' (List.mem_cons_of_mem _ hid')
    obtain ⟨others, hothers, hdistinct, hl⟩ := hrest
    refine ⟨held :: others, ?_, List.nodup_cons.2 ⟨fun hheld => ?_, hdistinct⟩, ?_⟩
    · rw [List.map_cons, List.map_cons, hget, hothers]
    · -- another slot with the same literal would be the same slot
      have hagain : some held ∈ ids.map fun id => m.get? (slot id) := hothers ▸ List.mem_map_of_mem hheld
      obtain ⟨id', hid', hget'⟩ := List.mem_map.1 hagain
      exact hid ((hm.eq_iff hget hget').2 rfl ▸ hid')
    · simp [hl, Ne.symm hne]

end Dictionary

/-- **A full chain holds fifteen others.**  Behind the first, no two attempts try the same candidate for a literal,
however many of them four bytes can count.  So a chain has fifteen different slots behind its first one.  At every point
of every run of registrations and transactions, whichever of their calls have failed and whichever fail now, a
registration reports a full chain only for its own literal, and only if each of these slots holds a literal that has
been registered; no two of them are the same, and none is the one at hand. -/
theorem full_chains_hold_fifteen_others :
    (∀ l i j, 1 ≤ i → i < 4294967296 → 1 ≤ j → j < 4294967296 → i ≠ j →
      Dictionary.candidate l i ≠ Dictionary.candidate l j) ∧
    (∀ l, ((Dictionary.chain l).tail.map Dictionary.slot).Nodup ∧ (Dictionary.chain l).tail.length = 15) ∧
    ∀ durable writings (faults : Faults) l text,
      let x := Issuing.run durable writings
      ((x.db.withFaults faults).run (Dictionary.register l)).result = .error (.probeLimit text) →
        text = l ∧ ∃ others : List String,
          ((Dictionary.chain l).tail.map fun id => x.db.store.entries.get? (Dictionary.slot id)) = others.map some ∧
            others.Nodup ∧ others.length = 15 ∧ l ∉ others ∧ ∀ other ∈ others, other ∈ x.registered := by
  refine ⟨fun l i j hi hi' hj hj' hne h => hne (Dictionary.candidate_inj hi hj hi' hj' h), fun l => ⟨?_, rfl⟩,
    fun durable writings faults l text => ?_⟩
  · exact (Dictionary.nodup_tail_chain l).map fun _ _ => Dictionary.slot_inj
  · intro x h
    have hsound : Issuing.Sound x := Issuing.sound_run durable writings
    have hclaim : Dictionary.register l (.start (x.db.withFaults faults).store) = (.error (.probeLimit text), _) :=
      Prod.ext h rfl
    obtain ⟨htext, hheld⟩ := Dictionary.held_of_claim hclaim
    obtain ⟨others, hothers, hdistinct, hl⟩ := hsound.settled.others_of_held (Dictionary.nodup_tail_chain l)
      fun id hid => hheld id (List.mem_of_mem_tail hid)
    refine ⟨htext, others, hothers, hdistinct, ?_, hl, fun other hother => ?_⟩
    · have hlength := congrArg List.length hothers
      rw [List.length_map, List.length_map] at hlength
      exact hlength.symm
    · have hslot : some other ∈ others.map some := List.mem_map_of_mem hother
      rw [← hothers] at hslot
      obtain ⟨id, -, hget⟩ := List.mem_map.1 hslot
      exact (hsound.registered other).2 ⟨id, hget⟩

/-- Literals of one chain, whose first candidate comes again at once. -/
def crowd : List String :=
  ["onjwzkf", "ponbkgo", "atifbzpm", "awgqrlfr", "bvbpxmak", "bypadzyr", "cakmxhpx", "cqxxqndh", "crvoaxrw", "dhnwqfcj",
    "dwosdwoc", "echytdho", "elzhhspv", "faconsyi", "fqpzgumy"]

/-- A run that registers them. -/
def crowded : Issuing := Issuing.run false (crowd.map (.literal .never))

/-- One more literal of that chain.  So fifteen fill it, and the sixteenth is refused. -/
theorem full_chains_hold_fifteen_others_crowded :
    Dictionary.candidate "gewpwfju" 0 = Dictionary.candidate "gewpwfju" 1 ∧
      Dictionary.candidate "gewpwfju" 1 ≠ Dictionary.candidate "gewpwfju" 15 ∧
      ((crowded.db.withFaults .never).run (Dictionary.register "gewpwfju")).result = .error (.probeLimit "gewpwfju") ∧
      ∃ others : List String, others.Nodup ∧ others.length = 15 ∧ "gewpwfju" ∉ others ∧
        ∀ other ∈ others, other ∈ crowded.registered := by
  obtain ⟨hmoves, -, hfull⟩ := full_chains_hold_fifteen_others
  have hrefused : ((crowded.db.withFaults .never).run (Dictionary.register "gewpwfju")).result =
      .error (.probeLimit "gewpwfju") := by decide +kernel
  obtain ⟨-, others, -, hothers⟩ := hfull false _ .never _ _ hrefused
  refine ⟨by decide +kernel, hmoves _ 1 15 ?_ ?_ ?_ ?_ ?_, hrefused, others, hothers⟩ <;> decide

end FactBase
