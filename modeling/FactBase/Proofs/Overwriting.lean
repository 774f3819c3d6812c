import FactBase.Proofs.Shuffling
/-!
# Overwriting — what is told of an entity, transaction by transaction

Of an entity the value of the fact that stands for each attribute is told (`Portrays`).  It is looked for among all
keys of the entity, in their order and not in that of time.  But a new fact is of a later transaction than all before
it, so it stands, and of the older facts those stand that none of the new ones replaces (`stands_append_iff`).  Thus a
transaction writes its attributes over those told before (`entity_is_last_writer_wins`).  Behind a torn record it does
so only until the database is opened again (`overwritten_value_returns`).
-/
namespace FactBase

open Dictionary (Settled)

/-- The attributes and values that facts give to an entity, retractions as well as assertions. -/
def Fact.entriesOn (id : String) (facts : List Fact) : List (String × Value) :=
  (facts.filter fun f => f.entity = id).map fun f => (f.attr, .text f.value)

/-- A map tells of an entity the value of the fact that stands for each of its attributes. -/
def KeyMap.Portrays (attributes : KeyMap Value) (m : KeyMap String) (facts : List Fact) (id : String) : Prop :=
  ∀ attr v, attributes.get? attr = some v ↔
    ∃ f : Fact, f.Stands m facts (Query.askedOf id) ∧ f.attr = attr ∧ .text f.value = v

variable {m m' : KeyMap String} {facts new : List Fact} {q : Pattern} {stored : List StoredFact} {id : String}
  {attributes : KeyMap Value}

/-! ## Facts that stand -/

/-- **New facts stand, and of the older ones those that none of the new ones replaces.** -/
theorem stands_append_iff (h : Ledger m facts) (h' : Ledger m' (facts ++ new)) (hgrows : m.Grows m')
    (hlater : ∀ f ∈ facts, ∀ g ∈ new, f.txn < g.txn)
    (hdistinct : ∀ f ∈ new, ∀ g ∈ new, f.entity = g.entity → f.attr = g.attr → f.Agrees q → f = g) {f : Fact} :
    f.Stands m' (facts ++ new) q ↔ f ∈ new ∧ f.Agrees q ∨
      f.Stands m facts q ∧ ∀ g ∈ new, g.Agrees q → g.entity = f.entity → g.attr ≠ f.attr := by
  constructor
  · intro hstands
    rcases List.mem_append.1 hstands.mem with hf | hf
    · refine .inr ⟨⟨hf, hstands.agrees, fun g hg hagrees hentity hattr => ?_⟩, fun g hg hagrees hentity hattr => ?_⟩
      · exact (hstands.newest g (List.mem_append_left _ hg) hagrees hentity hattr).imp_right fun hlast =>
          ⟨hlast.1, fun key key' hkey hkey' => hlast.2 key key' (hkey.mono hgrows) (hkey'.mono hgrows)⟩
      · have hlt := hlater f hf g hg
        rcases hstands.newest g (List.mem_append_right _ hg) hagrees hentity hattr with hlt' | ⟨heq, -⟩
        · exact UInt64.lt_irrefl _ (UInt64.lt_trans hlt hlt')
        · exact UInt64.lt_irrefl _ (heq ▸ hlt)
    · exact .inl ⟨hf, hstands.agrees⟩
  · rintro (⟨hf, hagrees⟩ | ⟨hstands, hunreplaced⟩)
    · refine ⟨List.mem_append_right _ hf, hagrees, fun g hg hgagrees hentity hattr => ?_⟩
      rcases List.mem_append.1 hg with hg | hg
      · exact .inl (hlater g hg f hf)
      · obtain rfl := hdistinct g hg f hf hentity hattr hgagrees
        exact .inr ⟨rfl, fun key key' hkey hkey' => hkey.unique hkey' h'.settled ▸ String.le_refl key⟩
    · refine ⟨List.mem_append_left _ hstands.mem, hstands.agrees, fun g hg hagrees hentity hattr => ?_⟩
      rcases List.mem_append.1 hg with hg | hg
      · refine (hstands.newest g hg hagrees hentity hattr).imp_right fun hlast =>
          ⟨hlast.1, fun key key' hkey hkey' => ?_⟩
        -- both facts had their keys before
        obtain ⟨k, hk, -⟩ := h.stored g hg
        obtain ⟨k', hk', -⟩ := h.stored f hstands.mem
        rw [hkey.unique (hk.mono hgrows) h'.settled, hkey'.unique (hk'.mono hgrows) h'.settled]
        exact hlast.2 k k' hk hk'
      · exact absurd hattr (hunreplaced g hg hagrees hentity)

/-! ## What stands for the attributes of an entity -/

namespace Query

theorem agrees_askedOf {f : Fact} : f.Agrees (askedOf id) ↔ f.entity = id := by
  constructor
  · exact fun hagrees => Value.text.inj (hagrees .entity _ rfl)
  · intro hentity pos v hliteral
    cases pos with
    | entity =>
      cases hliteral
      exact congrArg Value.text hentity
    | attr => cases hliteral
    | value => cases hliteral
    | txn => cases hliteral
    | operation => cases hliteral

/-- **The attributes that are told are those for which a fact stands.** -/
theorem portrays_attributes (h : Ledger m facts) (hfound : Found m facts (askedOf id) stored) :
    (Query.attributes (listing m (askedOf id) (entityBinding id) stored)).Portrays m facts id := by
  have hmem : ∀ {attr v}, (attr, v) ∈ (listing m (askedOf id) (entityBinding id) stored).filterMap attributeOf ↔
      ∃ f : Fact, f.Stands m facts (askedOf id) ∧ f.attr = attr ∧ .text f.value = v := by
    intro attr v
    rw [List.mem_filterMap]
    constructor
    · rintro ⟨r, hr, hattr⟩
      obtain ⟨f, hstands, rfl⟩ := (mem_listing_of_blank h.settled hfound rfl).1 hr
      rw [attributeOf_answerOf] at hattr
      obtain ⟨rfl, rfl⟩ := Prod.mk.inj (Option.some.inj hattr)
      exact ⟨f, hstands, rfl, rfl⟩
    · rintro ⟨f, hstands, rfl, rfl⟩
      exact ⟨_, (mem_listing_of_blank h.settled hfound rfl).2 ⟨f, hstands, rfl⟩, attributeOf_answerOf id f⟩
  intro attr v
  rw [attributes_eq, KeyMap.get?_insertAll_eq_some_iff, hmem]
  · exact or_iff_left fun hempty => by cases hempty.2
  · intro attr v w hv hw
    obtain ⟨f, hf, rfl, rfl⟩ := hmem.1 hv
    obtain ⟨g, hg, hattr, rfl⟩ := hmem.1 hw
    have hentity : g.entity = f.entity := (agrees_askedOf.1 hg.agrees).trans (agrees_askedOf.1 hf.agrees).symm
    rw [h.eq_of_stands hg hf hentity hattr]

end Query

theorem Fact.entriesOn_append (facts new : List Fact) :
    entriesOn id (facts ++ new) = entriesOn id facts ++ entriesOn id new := by
  rw [entriesOn, List.filter_append, List.map_append, entriesOn, entriesOn]

theorem Fact.mem_entriesOn {attr : String} {v : Value} :
    (attr, v) ∈ entriesOn id facts ↔ ∃ f ∈ facts, f.entity = id ∧ f.attr = attr ∧ .text f.value = v := by
  simp only [entriesOn, List.mem_map, List.mem_filter, decide_eq_true_eq, Prod.mk.injEq, and_assoc]

theorem Ledger.exists_portrays (h : Ledger m facts) (id : String) :
    ∃ attributes : KeyMap Value, attributes.Portrays m facts id := by
  obtain ⟨stored, hfound⟩ := h.exists_found (Query.askedOf id)
  exact ⟨_, Query.portrays_attributes h hfound⟩

namespace KeyMap.Portrays

theorem unique {attributes' : KeyMap Value} (h : attributes.Portrays m facts id)
    (h' : attributes'.Portrays m facts id) : attributes = attributes' :=
  eq_of_get? fun attr => Option.ext fun v => (h attr v).trans (h' attr v).symm

/-- **An attribute is told exactly if some fact gives it to the entity.** -/
theorem mem_keys (hp : attributes.Portrays m facts id) (h : Ledger m facts) {attr : String} :
    attr ∈ attributes.keys ↔ ∃ f ∈ facts, f.entity = id ∧ f.attr = attr := by
  rw [KeyMap.mem_keys]
  constructor
  · rintro ⟨v, hv⟩
    obtain ⟨f, hstands, hattr, -⟩ := (hp attr v).1 hv
    exact ⟨f, hstands.mem, Query.agrees_askedOf.1 hstands.agrees, hattr⟩
  · rintro ⟨f, hf, hentity, rfl⟩
    obtain ⟨g, ⟨hstands, -, hattr⟩, -⟩ := h.exists_stands hf (Query.agrees_askedOf.2 hentity)
    exact ⟨_, (hp _ _).2 ⟨g, hstands, hattr, rfl⟩⟩

/-- **New facts overwrite what was told**, if no two of them are about one attribute of the entity. -/
theorem insertAll (hp : attributes.Portrays m facts id) (h : Ledger m facts) (h' : Ledger m' (facts ++ new))
    (hgrows : m.Grows m') (hlater : ∀ f ∈ facts, ∀ g ∈ new, f.txn < g.txn)
    (hdistinct : ((Fact.entriesOn id new).map (·.1)).Nodup) :
    (attributes.insertAll (Fact.entriesOn id new)).Portrays m' (facts ++ new) id := by
  have hsame : ∀ f ∈ new, ∀ g ∈ new, f.entity = id → g.entity = id → f.attr = g.attr → f = g := by
    intro f hf g hg hentity hentity' hattr
    rw [Fact.entriesOn, List.map_map] at hdistinct
    exact List.inj_on_of_nodup_map hdistinct (List.mem_filter.2 ⟨hf, decide_eq_true hentity⟩)
      (List.mem_filter.2 ⟨hg, decide_eq_true hentity'⟩) hattr
  have hunique : ∀ k v w, (k, v) ∈ Fact.entriesOn id new → (k, w) ∈ Fact.entriesOn id new → w = v := by
    intro k v w hv hw
    obtain ⟨f, hf, hentity, rfl, rfl⟩ := Fact.mem_entriesOn.1 hv
    obtain ⟨g, hg, hentity', hattr, rfl⟩ := Fact.mem_entriesOn.1 hw
    rw [hsame g hg f hf hentity' hentity hattr]
  have hstands : ∀ {f : Fact}, f.Stands m' (facts ++ new) (Query.askedOf id) ↔ _ :=
    stands_append_iff h h' hgrows hlater fun f hf g hg hentity hattr hagrees =>
      have hid := Query.agrees_askedOf.1 hagrees
      hsame f hf g hg hid (hentity.symm.trans hid) hattr
  intro attr v
  rw [get?_insertAll_eq_some_iff hunique, hp attr v, Fact.mem_entriesOn]
  simp only [hstands, Query.agrees_askedOf]
  constructor
  · rintro (⟨f, hf, hentity, hattr, hvalue⟩ | ⟨hnone, f, hf, hattr, hvalue⟩)
    · exact ⟨f, .inl ⟨hf, hentity⟩, hattr, hvalue⟩
    · refine ⟨f, .inr ⟨hf, fun g hg hentity _ hsame => ?_⟩, hattr, hvalue⟩
      exact hnone _ (Fact.mem_entriesOn.2 ⟨g, hg, hentity, hsame.trans hattr, rfl⟩) rfl
  · rintro ⟨f, ⟨hf, hentity⟩ | ⟨hf, hunreplaced⟩, hattr, hvalue⟩
    · exact .inl ⟨f, hf, hentity, hattr, hvalue⟩
    · refine .inr ⟨fun p hp heq => ?_, f, hf, hattr, hvalue⟩
      obtain ⟨g, hg, hentity, hattr', -⟩ := Fact.mem_entriesOn.1 (show (p.1, p.2) ∈ _ from hp)
      exact hunreplaced g hg hentity (hentity.trans (Query.agrees_askedOf.1 hf.agrees).symm)
        (hattr'.trans (heq.trans hattr.symm))

end KeyMap.Portrays

/-! ## What a database tells -/

/-- Wherever all reads work, the database tells these attributes of the entity. -/
def Database.Tells (db : Database) (id : String) (attributes : KeyMap Value) : Prop :=
  ∀ faults : Faults, faults.ReadsWork → ((db.withFaults faults).entity id).result = .ok attributes

theorem Database.tells_of_portrays {db : Database} (hindex : db.index = .eavto) (h : Ledger db.store.entries facts)
    (hp : attributes.Portrays db.store.entries facts id) : db.Tells id attributes := by
  intro faults hworks
  obtain ⟨stored, hfound⟩ := h.exists_found (Query.askedOf id)
  rw [hp.unique (Query.portrays_attributes h hfound)]
  have hindex' : (db.withFaults faults).index = .eavto := hindex
  have hledger : Ledger (db.withFaults faults).store.entries facts := h
  exact result_entity hindex' hworks hledger hfound

namespace History

/-- **A transaction writes over what was told**: its entries if it succeeds, nothing if it fails. -/
theorem Served.portrays_transact {h : History} (hs : Served h) (faults : Faults) (t : Transaction)
    (hp : attributes.Portrays h.db.store.entries h.facts id) :
    let o := (h.db.withFaults faults).transact t
    let written := Fact.entriesOn id (t.added o.result)
    (written.map (·.1)).Nodup →
      (attributes.insertAll written).Portrays o.state.store.entries (h.facts ++ t.added o.result) id := by
  intro o written hdistinct
  obtain ⟨hgrows, -, hlater, hledger⟩ := hs.ledger_transact faults t
  refine hp.insertAll hs.ledger hledger hgrows (fun f hf g hg => ?_) hdistinct
  obtain ⟨txn, hok, hmem⟩ := Transaction.mem_added hg
  rw [t.txn_of_mem hmem]
  exact UInt64.lt_of_le_of_lt (hs.numbered.le f hf) (hlater txn hok)

theorem Served.tells_transact {h : History} (hs : Served h) (faults : Faults) (t : Transaction)
    (hp : attributes.Portrays h.db.store.entries h.facts id) :
    let o := (h.db.withFaults faults).transact t
    let written := Fact.entriesOn id (t.added o.result)
    (written.map (·.1)).Nodup → o.state.Tells id (attributes.insertAll written) := by
  intro o written hdistinct
  obtain ⟨-, hindex, -, hledger⟩ := hs.ledger_transact faults t
  exact Database.tells_of_portrays hindex hledger (hs.portrays_transact faults t hp hdistinct)

/-- No transaction of the history gives one attribute to the entity twice. -/
def Distinct (h : History) (id : String) : Prop :=
  ∀ c ∈ h.committed, ((Fact.entriesOn id c.facts).map (·.1)).Nodup

/-- What has been told of an entity, written in the order of the commits. -/
def register (h : History) (id : String) : KeyMap Value := KeyMap.empty.insertAll (Fact.entriesOn id h.facts)

theorem committed_subset_step (h : History) (s : Step) : h.committed ⊆ (h.step s).committed := by
  cases s with
  | transact faults clean t =>
    change h.committed ⊆ (h.attempt faults t).committed
    unfold History.attempt
    dsimp only
    split
    · exact List.subset_append_left ..
    · exact List.Subset.refl _
  | reopen faults =>
    rw [step, committed_reopened]
    exact List.Subset.refl _

/-- **One step keeps the register.** -/
theorem Sound.portrays_step {h : History} (hs : Sound h) (s : Step) (hdistinct : (h.step s).Distinct id)
    (hp : (h.register id).Portrays h.db.store.entries h.facts id) :
    ((h.step s).register id).Portrays (h.step s).db.store.entries (h.step s).facts id := by
  cases s with
  | transact faults clean t =>
    refine attempt_of_transact (P := fun h' => h'.Distinct id →
      (h'.register id).Portrays h'.db.store.entries h'.facts id) ?_ hdistinct
    have htransact := hs.portrays_transact faults t hp
    dsimp only at htransact
    generalize (h.db.withFaults faults).transact t = o at htransact ⊢
    obtain ⟨r, db, events⟩ := o
    cases r with
    | ok txn =>
      intro hdistinct
      have hwritten := hdistinct ⟨txn, t, db.store.fileLength⟩ (List.mem_append_right _ List.mem_cons_self)
      rw [register, facts_commit, Fact.entriesOn_append, KeyMap.insertAll_append]
      exact htransact hwritten
    | error e =>
      intro _
      have hkept := htransact .nil
      rwa [Transaction.added, List.append_nil] at hkept
  | reopen faults =>
    obtain ⟨-, hkeeps, -⟩ := hs.reopened faults
    rw [register, History.step, facts_reopened, hkeeps.entries]
    exact hp

theorem portrays_run (durable : Bool) (id : String) (steps : List Step) (hdistinct : (run durable steps).Distinct id) :
    ((run durable steps).register id).Portrays (run durable steps).db.store.entries (run durable steps).facts id := by
  induction steps using List.reverseRecOn with
  | nil =>
    intro attr v
    constructor
    · exact fun hget => by cases hget
    · rintro ⟨f, hstands, -⟩
      cases hstands.mem
  | append_singleton steps s ih =>
    have hrun : run durable (steps ++ [s]) = (run durable steps).step s := List.foldl_append
    rw [hrun] at hdistinct ⊢
    exact (sound_run durable steps).portrays_step s hdistinct
      (ih fun c hc => hdistinct c (committed_subset_step _ s hc))

/-- **What is told of an entity is a register that the last writer wins.**  After every run, which is of steps whose
failing writes leave nothing in the log file, an entity has one entry for each attribute that a committed fact gives it,
and no other.  A transaction that succeeds and gives it no attribute twice writes its values over those told before, and
leaves the other attributes alone; its retractions write as its assertions do.  One that fails, and a reopening, change
nothing that is told.  So where no transaction gave it an attribute twice, the entity has what the facts on it wrote, in
the order of the commits. -/
theorem entity_is_last_writer_wins (durable : Bool) (steps : List Step) (id : String) :
    let h := run durable steps
    ∃ attributes, h.db.Tells id attributes ∧
      attributes.keys.Nodup ∧ (∀ attr, attr ∈ attributes.keys ↔ ∃ f ∈ h.facts, f.entity = id ∧ f.attr = attr) ∧
      (∀ faults t, let o := (h.db.withFaults faults).transact t
        (∀ txn, o.result = .ok txn →
          let written := Fact.entriesOn id (t.asFacts txn)
          (written.map (·.1)).Nodup → o.state.Tells id (attributes.insertAll written)) ∧
        ∀ e, o.result = .error e → o.state.Tells id attributes) ∧
      (∀ faults, (h.step (.reopen faults)).db.Tells id attributes) ∧
      (h.Distinct id → attributes = h.register id) := by
  intro h
  have hs : Sound h := sound_run durable steps
  obtain ⟨attributes, hp⟩ := hs.ledger.exists_portrays id
  refine ⟨attributes, Database.tells_of_portrays hs.index hs.ledger hp, attributes.nodup_keys,
    fun attr => hp.mem_keys hs.ledger, fun faults t => ⟨fun txn hok => ?_, fun e herror => ?_⟩, fun faults => ?_,
    fun hdistinct => hp.unique (portrays_run durable id steps hdistinct)⟩
  · have htells := hs.tells_transact faults t hp
    dsimp only at htells
    rwa [hok] at htells
  · have htells := hs.tells_transact faults t hp
    dsimp only at htells
    rw [herror] at htells
    exact htells .nil
  · obtain ⟨hs', hkeeps, -⟩ := hs.reopened faults
    rw [step]
    refine Database.tells_of_portrays hs'.index hs'.ledger ?_
    rw [facts_reopened, hkeeps.entries]
    exact hp

/-- **An overwritten value returns** when the torn log file is opened again. -/
theorem overwritten_value_returns :
    let told := fun h : History => ((h.db.withFaults .never).entity "0001").result.map (·.get? "name")
    told torn = .ok (some (.text "eve")) ∧ told (torn.reopened .never) = .ok (some (.text "bob")) := by
  decide +kernel

end History
end FactBase
