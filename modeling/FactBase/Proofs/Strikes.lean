import FactBase.Proofs.Effects
/-!
# Strikes — the calls that a schedule makes fail

Calls are numbered, so the ones between two states of a store are those whose numbers lie between the counts, and a
schedule says which of these failed (`Struck`).  A computation that only reads has one outcome for each map
(`Weathers`): wherever a call fails, that outcome or the error of the call, whatever a broken scan has yielded before.
A computation that writes too passes every failure on, if it ends with an error wherever one of its calls has failed
(`Reports`).
-/
namespace FactBase

namespace Store

/-- A later state of a store: no fewer calls, under the same schedule. -/
structure Later (s s' : Store) : Prop where
  get : s.calls.get ≤ s'.calls.get
  scan : s.calls.scan ≤ s'.calls.scan
  write : s.calls.write ≤ s'.calls.write
  faults : s'.faults = s.faults
  durable : s'.file.isSome = s.file.isSome

/-- One of the calls between two states of a store failed, with this error. -/
inductive Struck (s s' : Store) (e : Store.Error) : Prop where
  | get {n : Nat} (start : s.calls.get ≤ n) (stop : n < s'.calls.get) (fails : s.faults.get n = some e)
  | scan {n after : Nat} (start : s.calls.scan ≤ n) (stop : n < s'.calls.scan) (fails : s.faults.scan n = some (after, e))
  | write {n torn : Nat} (start : s.calls.write ≤ n) (stop : n < s'.calls.write)
    (fails : s.faults.write n = some (torn, e))

/-- From one state of a store to a later one, calls have looked up and scanned, and that is all. -/
structure OnlyRead (s s' : Store) : Prop where
  later : s.Later s'
  same : s' = { s with calls := s'.calls }
  write : s'.calls.write = s.calls.write

theorem Later.refl (s : Store) : s.Later s := ⟨Nat.le_refl _, Nat.le_refl _, Nat.le_refl _, rfl, rfl⟩

theorem Later.trans {s s' s'' : Store} (h : s.Later s') (h' : s'.Later s'') : s.Later s'' where
  get := Nat.le_trans h.get h'.get
  scan := Nat.le_trans h.scan h'.scan
  write := Nat.le_trans h.write h'.write
  faults := h'.faults.trans h.faults
  durable := h'.durable.trans h.durable

theorem OnlyRead.refl (s : Store) : s.OnlyRead s := ⟨.refl s, rfl, rfl⟩

theorem OnlyRead.entries {s s' : Store} (h : s.OnlyRead s') : s'.entries = s.entries := by rw [h.same]

theorem OnlyRead.trans {s s' s'' : Store} (h : s.OnlyRead s') (h' : s'.OnlyRead s'') : s.OnlyRead s'' where
  later := h.later.trans h'.later
  same := by rw [h'.same, h.same]
  write := h'.write.trans h.write

/-- What a call that is to fail with an error fails with: that error, unless a log file refuses the batch before. -/
def FailsWith (s : Store) (e cause : Store.Error) : Prop :=
  cause = e ∨ s.file.isSome = true ∧
    ∃ batch, Record.fits batch = false ∧ cause = .recordTooLarge (Record.size batch)

theorem not_struck_self (s : Store) (e : Store.Error) : ¬s.Struck s e := by
  rintro (⟨start, stop, -⟩ | ⟨start, stop, -⟩ | ⟨start, stop, -⟩)
  all_goals exact Nat.not_lt.2 start stop

/-- A call that failed later on is one of all the calls. -/
theorem Struck.after {s s' s'' : Store} {e : Store.Error} (h : s.Later s') (hstruck : s'.Struck s'' e) :
    s.Struck s'' e := by
  cases hstruck with
  | get start stop fails => exact .get (Nat.le_trans h.get start) stop (h.faults ▸ fails)
  | scan start stop fails => exact .scan (Nat.le_trans h.scan start) stop (h.faults ▸ fails)
  | write start stop fails => exact .write (Nat.le_trans h.write start) stop (h.faults ▸ fails)

/-- Of all the calls, one that failed is among the first or among the rest. -/
theorem Struck.split {s s' s'' : Store} {e : Store.Error} (h : s.Later s') (hstruck : s.Struck s'' e) :
    s.Struck s' e ∨ s'.Struck s'' e := by
  cases hstruck with
  | @get n start stop fails =>
    by_cases hn : n < s'.calls.get
    · exact .inl (.get start hn fails)
    · exact .inr (.get (Nat.not_lt.1 hn) stop (h.faults ▸ fails))
  | @scan n after start stop fails =>
    by_cases hn : n < s'.calls.scan
    · exact .inl (.scan start hn fails)
    · exact .inr (.scan (Nat.not_lt.1 hn) stop (h.faults ▸ fails))
  | @write n torn start stop fails =>
    by_cases hn : n < s'.calls.write
    · exact .inl (.write start hn fails)
    · exact .inr (.write (Nat.not_lt.1 hn) stop (h.faults ▸ fails))

/-- Where reading works, no call of one that only reads has failed. -/
theorem OnlyRead.not_struck {s s' : Store} {e : Store.Error} (h : s.OnlyRead s') (hworks : s.faults.ReadsWork) :
    ¬s.Struck s' e := by
  intro hstruck
  cases hstruck with
  | get _ _ fails => rw [hworks.1] at fails; cases fails
  | scan _ _ fails => rw [hworks.2] at fails; cases fails
  | write start stop _ => exact absurd (Nat.lt_of_le_of_lt start stop) (h.write ▸ Nat.lt_irrefl _)

theorem onlyRead_get (s : Store) (key : String) : s.OnlyRead (s.get key).2 :=
  ⟨⟨Nat.le_succ _, Nat.le_refl _, Nat.le_refl _, rfl, rfl⟩, rfl, rfl⟩

theorem onlyRead_scan (s : Store) (range : KeyInterval) : s.OnlyRead (s.scan range).2 :=
  ⟨⟨Nat.le_refl _, Nat.le_succ _, Nat.le_refl _, rfl, rfl⟩, rfl, rfl⟩

/-- A look-up answers from the entries or is struck. -/
theorem get_eq_or_struck (s : Store) (key : String) :
    (s.get key).1 = .ok (s.entries.get? key) ∨ ∃ e, s.Struck (s.get key).2 e ∧ (s.get key).1 = .error e := by
  unfold get
  dsimp only
  cases hfault : s.faults.get s.calls.get with
  | none => exact .inl rfl
  | some e => exact .inr ⟨e, .get (Nat.le_refl _) (Nat.lt_succ_self _) hfault, rfl⟩

/-- A scan yields all its keys or is struck, and then tells so behind what it yields. -/
theorem scan_eq_or_struck (s : Store) (range : KeyInterval) :
    (s.scan range).1 = (s.entries.keysIn range, none) ∨
      ∃ e, s.Struck (s.scan range).2 e ∧ (s.scan range).1.2 = some e := by
  unfold scan
  dsimp only
  cases hfault : s.faults.scan s.calls.scan with
  | none => exact .inl rfl
  | some fault => exact .inr ⟨fault.2, .scan (Nat.le_refl _) (Nat.lt_succ_self _) hfault, rfl⟩

theorem later_write (s : Store) (batch : Batch) : s.Later (s.write batch).2 := by
  unfold write
  dsimp only
  split
  · exact ⟨Nat.le_refl _, Nat.le_refl _, Nat.le_succ _, rfl, rfl⟩
  · split
    · exact ⟨Nat.le_refl _, Nat.le_refl _, Nat.le_succ _, rfl, Option.isSome_map⟩
    · exact ⟨Nat.le_refl _, Nat.le_refl _, Nat.le_succ _, rfl, Option.isSome_map⟩

/-- A look-up that is struck gives the error. -/
theorem get_of_struck {s : Store} {key : String} {e : Store.Error} (h : s.Struck (s.get key).2 e) :
    (s.get key).1 = .error e := by
  cases h with
  | @get n start stop fails =>
    obtain rfl : n = s.calls.get := Nat.le_antisymm (Nat.le_of_lt_succ stop) start
    unfold Store.get
    dsimp only
    rw [fails]
  | scan start stop => exact absurd stop (Nat.not_lt.2 start)
  | write start stop => exact absurd stop (Nat.not_lt.2 start)

theorem calls_write (s : Store) (batch : Batch) :
    (s.write batch).2.calls = { s.calls with write := s.calls.write + 1 } := by
  unfold write
  dsimp only
  split
  · rfl
  · split <;> rfl

/-- A write that is struck fails. -/
theorem write_of_struck {s : Store} {batch : Batch} {e : Store.Error} (h : s.Struck (s.write batch).2 e) :
    ∃ cause, s.FailsWith e cause ∧ (s.write batch).1 = .error cause := by
  have hcalls := s.calls_write batch
  cases h with
  | get start stop =>
    rw [hcalls] at stop
    exact absurd stop (Nat.not_lt.2 start)
  | scan start stop =>
    rw [hcalls] at stop
    exact absurd stop (Nat.not_lt.2 start)
  | @write n torn start stop fails =>
    rw [hcalls] at stop
    obtain rfl : n = s.calls.write := Nat.le_antisymm (Nat.le_of_lt_succ stop) start
    unfold Store.write
    dsimp only
    split
    · rename_i hrefused
      obtain ⟨hdurable, hunfit⟩ := Bool.and_eq_true_iff.1 hrefused
      exact ⟨_, .inr ⟨hdurable, batch, Bool.not_eq_eq_eq_not.1 hunfit, rfl⟩, rfl⟩
    · rw [fails]
      exact ⟨e, .inl rfl, rfl⟩

end Store

namespace Run

variable {ε δ α β : Type}

/-- Over these entries the computation only reads and has this outcome, or one of its calls failed and it ends with the
error of that call. -/
def Weathers (x : Run ε α) (m : KeyMap String) (inject : Store.Error → ε) (r : Except ε α) : Prop :=
  ∀ s : Session, s.store.entries = m → ∃ r' s', x s = (r', s') ∧ s.store.OnlyRead s'.store ∧
    (r' = r ∨ ∃ e, s.store.Struck s'.store e ∧ r' = .error (inject e))

/-- Whatever the entries are, the computation only reads, and no failing call changes its outcome but to the error of
that call. -/
def Sturdy (x : Run ε α) (inject : Store.Error → ε) : Prop := ∀ m, ∃ r, x.Weathers m inject r

namespace Weathers

variable {m : KeyMap String} {x : Run ε α} {inject : Store.Error → ε}

theorem pure (a : α) : (pure a : Run ε α).Weathers m inject (.ok a) := fun s _ => ⟨.ok a, s, rfl, .refl _, .inl rfl⟩

theorem throw (e : ε) : (throw e : Run ε α).Weathers m inject (.error e) :=
  fun s _ => ⟨.error e, s, rfl, .refl _, .inl rfl⟩

theorem ofExcept (r : Except ε α) : (Run.ofExcept r).Weathers m inject r := fun s _ => ⟨r, s, rfl, .refl _, .inl rfl⟩

theorem tell (event : Event) : (Run.tell event : Run ε Unit).Weathers m inject (.ok ()) :=
  fun s _ => ⟨.ok (), { s with events := s.events ++ [event] }, rfl, .refl _, .inl rfl⟩

theorem bind {f : α → Run ε β} {a : α} {r : Except ε β} (hx : x.Weathers m inject (.ok a))
    (hf : (f a).Weathers m inject r) : (x >>= f).Weathers m inject r := fun s hm => by
  obtain ⟨r₁, s₁, hrun, hread, hr⟩ := hx s hm
  rw [bind_apply, hrun]
  rcases hr with rfl | ⟨e, hstruck, rfl⟩
  · obtain ⟨r₂, s₂, hrun', hread', hr'⟩ := hf s₁ (hread.entries.trans hm)
    refine ⟨r₂, s₂, hrun', hread.trans hread', hr'.imp_right ?_⟩
    rintro ⟨e, hstruck, heq⟩
    exact ⟨e, hstruck.after hread.later, heq⟩
  · exact ⟨.error (inject e), s₁, rfl, hread, .inr ⟨e, hstruck, rfl⟩⟩

theorem bind_error {f : α → Run ε β} {e : ε} (hx : x.Weathers m inject (.error e)) :
    (x >>= f).Weathers m inject (.error e) := fun s hm => by
  obtain ⟨r₁, s₁, hrun, hread, hr⟩ := hx s hm
  rw [bind_apply, hrun]
  rcases hr with rfl | ⟨e', hstruck, rfl⟩
  · exact ⟨.error e, s₁, rfl, hread, .inl rfl⟩
  · exact ⟨.error (inject e'), s₁, rfl, hread, .inr ⟨e', hstruck, rfl⟩⟩

theorem mapError {r : Except ε α} (f : ε → δ) (hx : x.Weathers m inject r) :
    (x.mapError f).Weathers m (fun e => f (inject e)) (r.mapError f) := fun s hm => by
  obtain ⟨r₁, s₁, hrun, hread, hr⟩ := hx s hm
  refine ⟨r₁.mapError f, s₁, ?_, hread, ?_⟩
  · rw [Run.mapError, hrun]
  · rcases hr with rfl | ⟨e, hstruck, rfl⟩
    · exact .inl rfl
    · exact .inr ⟨e, hstruck, rfl⟩

/-- Going on from an outcome, error or not, where the errors of failing calls are passed on. -/
theorem outcome_bind {f : Except ε α → Run δ β} {inject' : Store.Error → δ} {r : Except ε α} {r' : Except δ β}
    (hx : x.Weathers m inject r) (hf : (f r).Weathers m inject' r')
    (hpass : ∀ e, f (.error (inject e)) = MonadExcept.throw (inject' e)) :
    (x.outcome >>= f).Weathers m inject' r' := fun s hm => by
  obtain ⟨r₁, s₁, hrun, hread, hr⟩ := hx s hm
  rw [bind_apply, Run.outcome, hrun]
  rcases hr with rfl | ⟨e, hstruck, rfl⟩
  · obtain ⟨r₂, s₂, hrun', hread', hr'⟩ := hf s₁ (hread.entries.trans hm)
    refine ⟨r₂, s₂, hrun', hread.trans hread', hr'.imp_right ?_⟩
    rintro ⟨e, hstruck, heq⟩
    exact ⟨e, hstruck.after hread.later, heq⟩
  · refine ⟨.error (inject' e), s₁, ?_, hread, .inr ⟨e, hstruck, rfl⟩⟩
    change f (.error (inject e)) s₁ = _
    rw [hpass]
    rfl

theorem get (key : String) : (Run.get key).Weathers m id (.ok (m.get? key)) := fun s hm =>
  ⟨_, _, rfl, s.store.onlyRead_get key, hm ▸ s.store.get_eq_or_struck key⟩

/-- **Wherever all reads work the outcome is the one that the entries give.** -/
theorem of_works {r : Except ε α} (hx : x.Weathers m inject r) {s : Session} (hm : s.store.entries = m)
    (hworks : s.store.faults.ReadsWork) : (x s).1 = r := by
  obtain ⟨r', s', hrun, hread, hr⟩ := hx s hm
  rw [hrun]
  exact hr.resolve_right fun ⟨e, hstruck, _⟩ => hread.not_struck hworks hstruck

end Weathers

namespace Sturdy

variable {x : Run ε α} {inject : Store.Error → ε}

theorem pure (a : α) : (pure a : Run ε α).Sturdy inject := fun _ => ⟨_, .pure a⟩

theorem throw (e : ε) : (throw e : Run ε α).Sturdy inject := fun _ => ⟨_, .throw e⟩

theorem ofExcept (r : Except ε α) : (Run.ofExcept r).Sturdy inject := fun _ => ⟨r, .ofExcept r⟩

theorem tell (event : Event) : (Run.tell event : Run ε Unit).Sturdy inject := fun _ => ⟨_, .tell event⟩

theorem bind {f : α → Run ε β} (hx : x.Sturdy inject) (hf : ∀ a, (f a).Sturdy inject) : (x >>= f).Sturdy inject :=
  fun m => by
  obtain ⟨r, hr⟩ := hx m
  cases r with
  | error e => exact ⟨_, hr.bind_error⟩
  | ok a =>
    obtain ⟨r', hr'⟩ := hf a m
    exact ⟨r', hr.bind hr'⟩

theorem mapError (f : ε → δ) (hx : x.Sturdy inject) : (x.mapError f).Sturdy fun e => f (inject e) := fun m => by
  obtain ⟨r, hr⟩ := hx m
  exact ⟨_, hr.mapError f⟩

theorem outcome_bind {f : Except ε α → Run δ β} {inject' : Store.Error → δ} (hx : x.Sturdy inject)
    (hf : ∀ r, (f r).Sturdy inject') (hpass : ∀ e, f (.error (inject e)) = MonadExcept.throw (inject' e)) :
    (x.outcome >>= f).Sturdy inject' := fun m => by
  obtain ⟨r, hr⟩ := hx m
  obtain ⟨r', hr'⟩ := hf r m
  exact ⟨r', hr.outcome_bind hr' hpass⟩

theorem get (key : String) : (Run.get key).Sturdy id := fun _ => ⟨_, .get key⟩

end Sturdy

/-- Wherever one of its calls fails the computation ends with an error that reports it. -/
def Reports (x : Run ε α) (reported : Store.Error → ε → Prop) : Prop :=
  ∀ s : Session, ∃ r s', x s = (r, s') ∧ s.store.Later s'.store ∧
    ∀ e, s.store.Struck s'.store e → ∃ cause e', s.store.FailsWith e cause ∧ r = .error e' ∧ reported cause e'

namespace Reports

variable {x : Run ε α} {reported : Store.Error → ε → Prop}

theorem pure (a : α) : (pure a : Run ε α).Reports reported :=
  fun s => ⟨.ok a, s, rfl, .refl _, fun e hstruck => absurd hstruck (s.store.not_struck_self e)⟩

theorem throw (e : ε) : (throw e : Run ε α).Reports reported :=
  fun s => ⟨.error e, s, rfl, .refl _, fun e hstruck => absurd hstruck (s.store.not_struck_self e)⟩

theorem tell (event : Event) : (Run.tell event : Run ε Unit).Reports reported :=
  fun s => ⟨.ok (), { s with events := s.events ++ [event] }, rfl, .refl _,
    fun e hstruck => absurd hstruck (s.store.not_struck_self e)⟩

theorem get (key : String) : (Run.get key).Reports fun cause e => e = cause := fun s =>
  ⟨_, _, rfl, (s.store.onlyRead_get key).later, fun e hstruck =>
    ⟨e, e, .inl rfl, Store.get_of_struck hstruck, rfl⟩⟩

theorem write (batch : Batch) : (Run.write batch).Reports fun cause e => e = cause := fun s =>
  ⟨_, _, rfl, s.store.later_write batch, fun e hstruck => by
    obtain ⟨cause, hfails, hr⟩ := Store.write_of_struck hstruck
    exact ⟨cause, cause, hfails, hr, rfl⟩⟩

theorem mapError {f : ε → δ} {reported' : Store.Error → δ → Prop} (hx : x.Reports reported)
    (h : ∀ cause e, reported cause e → reported' cause (f e)) : (x.mapError f).Reports reported' := fun s => by
  obtain ⟨r, s', hrun, hlater, hreports⟩ := hx s
  refine ⟨r.mapError f, s', ?_, hlater, fun e hstruck => ?_⟩
  · rw [Run.mapError, hrun]
  · obtain ⟨cause, e', hfails, rfl, hreported⟩ := hreports e hstruck
    exact ⟨cause, f e', hfails, rfl, h cause e' hreported⟩

theorem bind {f : α → Run ε β} (hx : x.Reports reported) (hf : ∀ a, (f a).Reports reported) :
    (x >>= f).Reports reported := fun s => by
  obtain ⟨r, s', hrun, hlater, hreports⟩ := hx s
  rw [bind_apply, hrun]
  cases r with
  | error e =>
    refine ⟨.error e, s', rfl, hlater, fun e' hstruck => ?_⟩
    obtain ⟨cause, e'', hfails, heq, hreported⟩ := hreports e' hstruck
    obtain rfl := Except.error.inj heq
    exact ⟨cause, e, hfails, rfl, hreported⟩
  | ok a =>
    obtain ⟨r', s'', hrun', hlater', hreports'⟩ := hf a s'
    refine ⟨r', s'', hrun', hlater.trans hlater', fun e hstruck => ?_⟩
    -- the first computation has gone through, so none of its calls failed
    rcases hstruck.split hlater with hstruck | hstruck
    · obtain ⟨cause, e', -, heq, -⟩ := hreports e hstruck
      cases heq
    · obtain ⟨cause, e', hfails, heq, hreported⟩ := hreports' e hstruck
      refine ⟨cause, e', ?_, heq, hreported⟩
      rw [Store.FailsWith, ← hlater.durable]
      exact hfails

end Reports
end Run
end FactBase
