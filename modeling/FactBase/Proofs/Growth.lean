import FactBase.Proofs.Steadiness
/-!
# Growth — answers that later transactions only add to

A pattern that asks for the number of the transaction tells the old facts from the new ones.  New keys come between the
old ones, and repetitions are removed among all of them; but an answer with an old number is never a repetition of one
with a new number, so the old answers are those of the new list that have old numbers (`filter_listing`), in the order
in which they were.  Along a run no answer is lost, altered or reordered (`history_is_append_only`).  It is another
matter where a failing write has torn the log file and the database is opened again (`earlier_answer_is_lost`).
-/
namespace FactBase

theorem filter_eraseDups {α : Type} [BEq α] [LawfulBEq α] (keep : α → Bool) : ∀ l : List α,
    l.eraseDups.filter keep = (l.filter keep).eraseDups
  | [] => rfl
  | a :: l => by
    have ih := filter_eraseDups keep (l.filter fun b => !b == a)
    rw [List.eraseDups_cons]
    cases ha : keep a with
    | true => rw [List.filter_cons_of_pos ha, List.filter_cons_of_pos ha, List.eraseDups_cons, ih, List.filter_comm]
    | false =>
      -- the repetitions that go with the first element would not have been kept either
      have hne : ∀ b ∈ l, (keep b && !b == a) = keep b := by
        intro b _
        by_cases hb : b = a
        · rw [hb, ha, Bool.false_and]
        · rw [beq_false_of_ne hb, Bool.not_false, Bool.and_true]
      rw [List.filter_cons_of_neg (by rw [ha]; exact Bool.false_ne_true),
        List.filter_cons_of_neg (by rw [ha]; exact Bool.false_ne_true), ih, List.filter_filter, List.filter_congr hne]
termination_by l => l.length
decreasing_by exact length_filter_lt_cons _ a l

/-! ## Some of the answers -/

variable {m : KeyMap String} {facts new : List Fact} {q : Pattern} {b : Binding} {stored : List StoredFact}

/-- **What was found of the older facts** is what was found and tells that it is older. -/
theorem Found.filter (h : Found m (facts ++ new) q stored) (old : StoredFact → Bool)
    (hfacts : ∀ f ∈ facts, ∀ s : StoredFact, s.Holds m f → old s = true)
    (hnew : ∀ f ∈ new, ∀ s : StoredFact, s.Holds m f → old s = false) : Found m facts q (stored.filter old) where
  sorted := h.sorted.filter old
  sound := fun s hs => by
    obtain ⟨hs, hold⟩ := List.mem_filter.1 hs
    obtain ⟨f, hf, hholds, hle, hagrees⟩ := h.sound s hs
    rcases List.mem_append.1 hf with hf | hf
    · exact ⟨f, hf, hholds, hle, hagrees⟩
    · rw [hnew f hf s hholds] at hold
      cases hold
  complete := fun f hf hagrees => by
    obtain ⟨s, hs, hholds⟩ := h.complete f (List.mem_append_left _ hf) hagrees
    exact ⟨s, List.mem_filter.2 ⟨hs, hfacts f hf s hholds⟩, hholds⟩

/-- **Some of the answers are those of some of the facts** where the transaction is not left blank. -/
theorem Query.filter_listing (hopen : q.element .txn ≠ .blank) (keep : Binding → Bool) :
    (listing m q b stored).filter keep =
      listing m q b (stored.filter fun s => keep (b.merge (.ofList ((q.project s).values m)))) := by
  unfold listing Projection.standing
  rw [decide_eq_false hopen, if_neg Bool.false_ne_true, if_neg Bool.false_ne_true, List.filter_map, filter_eraseDups,
    List.filter_map]
  rfl

/-- **The answers that were given before**: those of the new list that tell that their facts are older. -/
theorem Database.gives_more {db : Database} (hindex : db.index = .eavto) {p : Pattern} (hshort : p.isTooLong = false)
    (htyped : (p.bind b).WellTyped) (hopen : (p.bind b).element .txn ≠ .blank)
    (hfound : Found m facts (p.bind b) stored) (hgrows : m.Grows db.store.entries)
    (h : Ledger db.store.entries (facts ++ new)) {old : Binding → Bool}
    (hfacts : ∀ f ∈ facts, old ((p.bind b).answerOf b f) = true)
    (hnew : ∀ f ∈ new, old ((p.bind b).answerOf b f) = false) :
    ∃ answers, db.Gives p b answers ∧ Query.listing m (p.bind b) b stored = answers.filter old := by
  obtain ⟨stored', hfound'⟩ := h.exists_found (p.bind b)
  refine ⟨_, gives_found hindex h hshort htyped hfound', ?_⟩
  have hfiltered := hfound'.filter
    (fun s => old (b.merge (.ofList (((p.bind b).project s).values db.store.entries))))
    (fun f hf s hs => by rw [Pattern.values_project hs]; exact hfacts f hf)
    (fun f hf s hs => by rw [Pattern.values_project hs]; exact hnew f hf)
  -- the older facts are found again, and no others are
  have hgrown : Found db.store.entries (facts ++ []) (p.bind b) stored := hfound.grows hgrows fun f hf => by cases hf
  rw [List.append_nil] at hgrown
  rw [Query.filter_listing hopen, ← hgrown.unique hfiltered h.settled, Query.listing_grows hfound hgrows]

/-! ## Histories -/

theorem Pattern.get?_answerOf_txn {p : Pattern} {name : String} (hshort : p.isTooLong = false)
    (hvariables : p.variableNames.Nodup) (hvar : p.element .txn = .var name) (hfree : b.get? name = none) (f : Fact) :
    ((p.bind b).answerOf b f).get? name = some (.integer f.txn) := by
  obtain ⟨pos, hpos, hvalue⟩ := get?_answerOf_of_open (f := f) hvar hfree
  rw [hvalue, coherent_of_nodup hshort hvariables f pos .txn name hpos hvar]
  rfl

namespace History

theorem Served.lastTxn_lt {h : History} (hs : Served h) (faults : Faults) (t : Transaction) {txn : TxnNumber}
    (hok : ((h.db.withFaults faults).transact t).result = .ok txn) : h.db.lastTxn < txn := by
  obtain ⟨-, -, hlater, -⟩ := hs.ledger_transact faults t
  exact hlater txn hok

/-- **History is append-only.**  After every run, a pattern that has an unbound variable for the transaction keeps its
answers.  When a transaction succeeds, the answers are those from before, in the order in which they were, and among
them new ones, all of which bind the variable to the number of this transaction.  And after any further steps, and any
transactions behind these whose failing writes leave anything, the answers from before are still in the list, in their
order, until the database is opened again. -/
theorem history_is_append_only (durable : Bool) (steps : List Step) (faults : Faults) (t : Transaction) {p : Pattern}
    {b : Binding} {name : String} (hlength : p.elements.length ≤ Pattern.capacity) (hvariables : p.variableNames.Nodup)
    (hvar : p.element .txn = .var name) (hfree : b.get? name = none) (htyped : (p.bind b).WellTyped) :
    let db := (run durable steps).db
    let o := (db.withFaults faults).transact t
    ∃ before, db.Gives p b before ∧
      (∀ txn, o.result = .ok txn → ∃ after, o.state.Gives p b after ∧
        before = after.filter fun r => decide (r.get? name ≠ some (.integer txn))) ∧
      ∀ later moves, ∃ after,
        ((run durable (steps ++ later)).attempts moves).db.Gives p b after ∧ before.Sublist after := by
  intro db o
  have hs : Sound (run durable steps) := sound_run durable steps
  have hshort : p.isTooLong = false := decide_eq_false (Nat.not_lt.2 hlength)
  have hopen : (p.bind b).element .txn ≠ .blank := by
    rw [Pattern.element_bind_eq_var_iff.2 ⟨hvar, hfree⟩]
    exact Element.noConfusion
  have htxn := fun f => Pattern.get?_answerOf_txn hshort hvariables hvar hfree f
  obtain ⟨stored, hfound⟩ := hs.ledger.exists_found (p.bind b)
  refine ⟨_, Database.gives_found hs.index hs.ledger hshort htyped hfound, fun txn hok => ?_,
    fun later moves => ?_⟩
  · obtain ⟨hgrows, hindex, new, hledger, hnew⟩ := hs.adds faults t
    have hlt := hs.lastTxn_lt faults t hok
    refine Database.gives_more hindex hshort htyped hopen hfound hgrows hledger (fun f hf => ?_) fun f hf => ?_
    · rw [htxn, decide_eq_true_eq]
      intro heq
      obtain rfl := Value.integer.inj (Option.some.inj heq)
      exact UInt64.lt_irrefl _ (UInt64.lt_of_le_of_lt (hs.numbered.le f hf) hlt)
    · obtain ⟨txn', hok', hmem⟩ := hnew f hf
      obtain rfl : txn' = txn := Except.ok.inj (hok'.symm.trans hok)
      rw [htxn, t.txn_of_mem hmem]
      exact decide_eq_false fun hne => hne rfl
  · have hrun : Served (run durable (steps ++ later)) := (sound_run durable (steps ++ later)).toServed
    have hs' : Served ((run durable (steps ++ later)).attempts moves) := hrun.attempts moves
    have hextends := (extends_run durable steps later).trans (hrun.extends_attempts moves)
    obtain ⟨new, hfacts, hlater⟩ := hextends.facts
    let old : Binding → Bool := fun r => ((r.get? name).bind Value.asInteger?).any fun n => decide (n ≤ db.lastTxn)
    have hold : ∀ f, old ((p.bind b).answerOf b f) = decide (f.txn ≤ db.lastTxn) := fun f => by
      dsimp only [old]
      rw [htxn]
      rfl
    obtain ⟨after, hafter, hfilter⟩ := Database.gives_more hs'.index hshort htyped hopen hfound hextends.grows
      (hfacts ▸ hs'.ledger) (fun f hf => (hold f).trans (decide_eq_true (hs.numbered.le f hf)))
      (fun f hf => (hold f).trans (decide_eq_false (UInt64.not_le.2 (hlater f hf))))
    exact ⟨after, hafter, hfilter ▸ List.filter_sublist⟩

/-- The new name is that of an entity whose key comes before the old one. -/
theorem history_is_append_only_newName :
    let h := run false firstCommit
    let t : Transaction := ⟨[⟨"0004", "name", "eve", true⟩], []⟩
    let o := (h.db.withFaults .never).transact t
    let p : Pattern := ⟨[.var "?e", .literal (.text "name"), .var "?v", .var "?t"]⟩
    let old := Binding.ofList [("?e", .text "0001"), ("?v", .text "bob"), ("?t", .integer 1)]
    let new := Binding.ofList [("?e", .text "0004"), ("?v", .text "eve"), ("?t", .integer 2)]
    p.elements.length ≤ Pattern.capacity ∧ p.variableNames.Nodup ∧ p.element .txn = .var "?t" ∧
      Binding.empty.get? "?t" = none ∧ (p.bind .empty).WellTyped ∧ o.result = .ok 2 ∧
      h.db.Gives p .empty [old] ∧ o.state.Gives p .empty [new, old] ∧
      ∀ later moves, ∃ after,
        ((run false (firstCommit ++ later)).attempts moves).db.Gives p .empty after ∧ [old].Sublist after := by
  intro h t o p old new
  have hlength : p.elements.length ≤ Pattern.capacity := by decide
  have hvariables : p.variableNames.Nodup := by decide
  have htyped : (p.bind .empty).WellTyped := by decide
  have hok : o.result = .ok 2 := by decide +kernel
  obtain ⟨before, hbefore, hsucceeds, hlater⟩ :=
    history_is_append_only false firstCommit .never t hlength hvariables rfl rfl htyped
  obtain ⟨after, hafter, -⟩ := hsucceeds 2 hok
  have hold : ((h.db.withFaults .never).queryOne p .empty).result = .ok [old] := by decide +kernel
  have hnew : ((o.state.withFaults .never).queryOne p .empty).result = .ok [new, old] := by decide +kernel
  obtain rfl : [old] = before := Except.ok.inj (hold.symm.trans (hbefore .never Faults.readsWork_never))
  obtain rfl : [new, old] = after := Except.ok.inj (hnew.symm.trans (hafter .never Faults.readsWork_never))
  exact ⟨hlength, hvariables, rfl, rfl, htyped, hok, hbefore, hafter, hlater⟩

/-- **An earlier answer is lost** when the torn log file is opened again. -/
theorem earlier_answer_is_lost :
    let p : Pattern := ⟨[.literal (.text "0001"), .literal (.text "name"), .var "?v", .var "?t"]⟩
    let bob := Binding.ofList [("?v", .text "bob"), ("?t", .integer 1)]
    let eve := Binding.ofList [("?v", .text "eve"), ("?t", .integer 2)]
    p.elements.length ≤ Pattern.capacity ∧ p.variableNames.Nodup ∧ p.element .txn = .var "?t" ∧
      Binding.empty.get? "?t" = none ∧ (p.bind .empty).WellTyped ∧
      ((torn.db.withFaults .never).queryOne p .empty).result = .ok [bob, eve] ∧
      (((torn.reopened .never).db.withFaults .never).queryOne p .empty).result = .ok [bob] ∧
      ¬[bob, eve].Sublist [bob] := by
  decide +kernel

end History
end FactBase
