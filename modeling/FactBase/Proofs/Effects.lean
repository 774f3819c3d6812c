import FactBase.Session
import FactBase.Proofs.Replay
/-!
# Effects — what a computation writes, and what one that only reads answers

Whatever a computation does to a store comes down to the batches that took effect, in order (`Took`); what they do to
the log file can be told only where failing writes leave nothing in it (`Wrote`).  A rule for each call and one for
sequencing give the outcome and the batches of a computation together (`Does`), however its calls fail.  Where every
read works, a computation that writes nothing has one answer for each map (`Reads`).
-/
namespace FactBase

/-- A failing write appends nothing to the file. -/
def Faults.LeaveNothing (f : Faults) : Prop := ∀ n after error, f.write n = some (after, error) → after = 0

/-- Every look-up and every scan works. -/
def Faults.ReadsWork (f : Faults) : Prop := (∀ n, f.get n = none) ∧ ∀ n, f.scan n = none

theorem Faults.leaveNothing_never : Faults.never.LeaveNothing := fun _ _ _ h => by cases h

theorem Faults.readsWork_never : Faults.never.ReadsWork := ⟨fun _ => rfl, fun _ => rfl⟩

namespace Store

/-- Nothing has changed but the schedule and the calls. -/
structure Keeps (s' s : Store) : Prop where
  entries : s'.entries = s.entries
  file : s'.file = s.file

/-- From one store to a later one, exactly these batches took effect. -/
structure Wrote (s : Store) (batches : List Batch) (s' : Store) : Prop where
  entries : s'.entries = batches.foldl KeyMap.insertAll s.entries
  file : s'.file = s.file.map (· ++ Log.ofBatches batches)
  fits : s.file.isSome = true → ∀ b ∈ batches, Record.fits b = true
  faults : s'.faults = s.faults

theorem Wrote.nothing {s s' : Store} (hentries : s'.entries = s.entries) (hfile : s'.file = s.file)
    (hfaults : s'.faults = s.faults) : s.Wrote [] s' where
  entries := hentries
  file := by cases h : s.file <;> simp [hfile, h, Log.ofBatches]
  fits := fun _ b hb => by cases hb
  faults := hfaults

theorem Wrote.trans {s s' s'' : Store} {xs ys : List Batch} (h : s.Wrote xs s') (h' : s'.Wrote ys s'') :
    s.Wrote (xs ++ ys) s'' where
  entries := by rw [h'.entries, h.entries, List.foldl_append]
  file := by
    rw [h'.file, h.file, Option.map_map]
    congr 1
    funext bytes
    simp [Log.ofBatches_append]
  fits := fun hsome b hb => by
    rcases List.mem_append.1 hb with hb | hb
    · exact h.fits hsome b hb
    · exact h'.fits (by rw [h.file, Option.isSome_map, hsome]) b hb
  faults := h'.faults.trans h.faults

theorem Wrote.file_nil {s s' : Store} (h : s.Wrote [] s') : s'.file = s.file := by
  rw [h.file]
  cases s.file <;> simp [Log.ofBatches]

/-- From one store to a later one, the map took exactly these batches; and so did the log file, if failing writes leave
nothing in it. -/
structure Took (s : Store) (batches : List Batch) (s' : Store) : Prop where
  entries : s'.entries = batches.foldl KeyMap.insertAll s.entries
  faults : s'.faults = s.faults
  wrote : s.faults.LeaveNothing → s.Wrote batches s'

theorem Wrote.took {s s' : Store} {batches : List Batch} (h : s.Wrote batches s') : s.Took batches s' :=
  ⟨h.entries, h.faults, fun _ => h⟩

theorem Took.nothing {s s' : Store} (hentries : s'.entries = s.entries) (hfile : s'.file = s.file)
    (hfaults : s'.faults = s.faults) : s.Took [] s' := (Wrote.nothing hentries hfile hfaults).took

theorem Took.trans {s s' s'' : Store} {xs ys : List Batch} (h : s.Took xs s') (h' : s'.Took ys s'') :
    s.Took (xs ++ ys) s'' where
  entries := by rw [h'.entries, h.entries, List.foldl_append]
  faults := h'.faults.trans h.faults
  wrote := fun clean => (h.wrote clean).trans (h'.wrote (h.faults ▸ clean))

/-- The map takes a batch as a whole, or the write fails and the map stays as it is. -/
theorem took_write (s : Store) (batch : Batch) :
    ((s.write batch).1 = .ok () ∧ s.Took [batch] (s.write batch).2) ∨
      ((∃ e, (s.write batch).1 = .error e) ∧ s.Took [] (s.write batch).2) := by
  unfold write
  dsimp only
  split
  · exact .inr ⟨⟨_, rfl⟩, .nothing rfl rfl rfl⟩
  rename_i hfits
  split
  · rename_i torn error hfault
    refine .inr ⟨⟨_, rfl⟩, rfl, rfl, fun clean => .nothing rfl ?_ rfl⟩
    obtain rfl := clean _ _ _ hfault
    cases s.file <;> simp
  · refine .inl ⟨rfl, Wrote.took ⟨rfl, ?_, fun hsome b hb => ?_, rfl⟩⟩
    · simp [Log.ofBatches]
    · rw [List.mem_singleton.1 hb]
      simpa [hsome] using hfits

end Store

theorem Log.Serves.wrote {s s' : Store} {batches more : List Batch} (h : Log.Serves s batches)
    (hwrote : s.Wrote more s') : Log.Serves s' (batches ++ more) where
  fits := fun b hb => by
    rcases List.mem_append.1 hb with hb | hb
    · exact h.fits b hb
    · exact hwrote.fits (by rw [h.file]; rfl) b hb
  file := by
    rw [hwrote.file, h.file, Option.map_some, Log.ofBatches_append]
  entries := by
    rw [hwrote.entries, h.entries, List.foldl_append]

namespace Run

variable {ε δ α β : Type}

/-- Over these entries, whichever calls fail, the outcome and the batches that took effect are as stated. -/
def Does (x : Run ε α) (m : KeyMap String) (post : Except ε α → List Batch → Prop) : Prop :=
  ∀ s : Session, s.store.entries = m → ∃ r s' batches, x s = (r, s') ∧ s.store.Took batches s'.store ∧ post r batches

/-- A look-up finds what the entries hold, or fails. -/
def Finds (answer : Option String) : Except ε (Option String) → List Batch → Prop
  | .ok found, batches => found = answer ∧ batches = []
  | .error _, batches => batches = []

def Takes (batch : Batch) : Except ε Unit → List Batch → Prop
  | .ok _, batches => batches = [batch]
  | .error _, batches => batches = []

theorem throw_bind (e : ε) (f : α → Run ε β) : (throw e >>= f) = throw e := by
  funext s
  rw [bind_apply]
  rfl

theorem ofExcept_ok_bind (a : α) (f : α → Run ε β) : (ofExcept (.ok a) >>= f) = f a := by
  funext s
  rw [bind_apply]
  rfl

theorem ofExcept_error_bind (e : ε) (f : α → Run ε β) : (ofExcept (.error e) >>= f) = throw e := by
  funext s
  rw [bind_apply]
  rfl

namespace Does

variable {m : KeyMap String} {x : Run ε α}

theorem mono {post post' : Except ε α → List Batch → Prop} (hx : x.Does m post)
    (h : ∀ r batches, post r batches → post' r batches) : x.Does m post' := fun s hm => by
  obtain ⟨r, s', batches, hrun, htook, hpost⟩ := hx s hm
  exact ⟨r, s', batches, hrun, htook, h r batches hpost⟩

theorem pure {a : α} {post : Except ε α → List Batch → Prop} (h : post (.ok a) []) :
    (pure a : Run ε α).Does m post :=
  fun s _ => ⟨.ok a, s, [], rfl, .nothing rfl rfl rfl, h⟩

theorem throw {e : ε} {post : Except ε α → List Batch → Prop} (h : post (.error e) []) :
    (throw e : Run ε α).Does m post :=
  fun s _ => ⟨.error e, s, [], rfl, .nothing rfl rfl rfl, h⟩

/-- **One computation after another**: the second runs over what the first has written. -/
theorem bind {f : α → Run ε β} {post : Except ε α → List Batch → Prop} {post' : Except ε β → List Batch → Prop}
    (hx : x.Does m post) (herror : ∀ e batches, post (.error e) batches → post' (.error e) batches)
    (hok : ∀ a batches, post (.ok a) batches →
      (f a).Does (batches.foldl KeyMap.insertAll m) fun r more => post' r (batches ++ more)) :
    (x >>= f).Does m post' := fun s hm => by
  obtain ⟨r, s', batches, hrun, htook, hpost⟩ := hx s hm
  rw [bind_apply, hrun]
  cases r with
  | error e => exact ⟨.error e, s', batches, rfl, htook, herror e batches hpost⟩
  | ok a =>
    obtain ⟨r', s'', more, hrun', htook', hpost'⟩ := hok a batches hpost s' (by rw [htook.entries, hm])
    exact ⟨r', s'', batches ++ more, hrun', htook.trans htook', hpost'⟩

theorem tell_bind {event : Event} {f : Unit → Run ε β} {post : Except ε β → List Batch → Prop}
    (h : (f ()).Does m post) : (Run.tell event >>= f).Does m post := fun s hm =>
  h { s with events := s.events ++ [event] } hm

theorem mapError {f : ε → δ} {post : Except ε α → List Batch → Prop} {post' : Except δ α → List Batch → Prop}
    (hx : x.Does m post) (h : ∀ r batches, post r batches → post' (r.mapError f) batches) :
    (x.mapError f).Does m post' := fun s hm => by
  obtain ⟨r, s', batches, hrun, htook, hpost⟩ := hx s hm
  refine ⟨r.mapError f, s', batches, ?_, htook, h r batches hpost⟩
  rw [Run.mapError, hrun]

theorem get (m : KeyMap String) (key : String) (f : Store.Error → ε) :
    ((Run.get key).mapError f).Does m (Finds (m.get? key)) := by
  have hget : (Run.get key).Does m fun r batches => Finds (m.get? key) (r.mapError f) batches := by
    intro s hm
    refine ⟨_, _, [], rfl, .nothing rfl rfl rfl, ?_⟩
    cases s.store.faults.get s.store.calls.get with
    | some e => rfl
    | none => exact ⟨hm ▸ rfl, rfl⟩
  exact hget.mapError fun _ _ h => h

theorem write (m : KeyMap String) (batch : Batch) (f : Store.Error → ε) :
    ((Run.write batch).mapError f).Does m (Takes batch) := by
  have hwrite : (Run.write batch).Does m fun r batches => Takes batch (r.mapError f) batches := by
    intro s _
    rcases s.store.took_write batch with ⟨hr, htook⟩ | ⟨⟨e, hr⟩, htook⟩
    · exact ⟨.ok (), _, [batch], Prod.ext hr rfl, htook, rfl⟩
    · exact ⟨.error e, _, [], Prod.ext hr rfl, htook, rfl⟩
  exact hwrite.mapError fun _ _ h => h

end Does

/-- Over these entries, wherever all reads work, the computation has this outcome and writes nothing. -/
def Reads (x : Run ε α) (m : KeyMap String) (r : Except ε α) : Prop :=
  ∀ s : Session, s.store.entries = m → s.store.faults.ReadsWork → ∃ s', x s = (r, s') ∧ s.store.Wrote [] s'.store

namespace Reads

variable {m : KeyMap String} {x : Run ε α}

theorem pure (a : α) : (pure a : Run ε α).Reads m (.ok a) := fun s _ _ => ⟨s, rfl, .nothing rfl rfl rfl⟩

theorem throw (e : ε) : (throw e : Run ε α).Reads m (.error e) := fun s _ _ => ⟨s, rfl, .nothing rfl rfl rfl⟩

theorem ofExcept (r : Except ε α) : (Run.ofExcept r).Reads m r := fun s _ _ => ⟨s, rfl, .nothing rfl rfl rfl⟩

theorem tell (event : Event) : (Run.tell event : Run ε Unit).Reads m (.ok ()) :=
  fun s _ _ => ⟨{ s with events := s.events ++ [event] }, rfl, .nothing rfl rfl rfl⟩

theorem bind {f : α → Run ε β} {a : α} {r : Except ε β} (hx : x.Reads m (.ok a)) (hf : (f a).Reads m r) :
    (x >>= f).Reads m r := fun s hm hw => by
  obtain ⟨s', hrun, hwrote⟩ := hx s hm hw
  obtain ⟨s'', hrun', hwrote'⟩ := hf s' (hwrote.entries.trans hm) (hwrote.faults ▸ hw)
  refine ⟨s'', ?_, hwrote.trans hwrote'⟩
  rw [bind_apply, hrun]
  exact hrun'

theorem bind_error {f : α → Run ε β} {e : ε} (hx : x.Reads m (.error e)) : (x >>= f).Reads m (.error e) :=
  fun s hm hw => by
  obtain ⟨s', hrun, hwrote⟩ := hx s hm hw
  refine ⟨s', ?_, hwrote⟩
  rw [bind_apply, hrun]

theorem mapError {r : Except ε α} (f : ε → δ) (hx : x.Reads m r) : (x.mapError f).Reads m (r.mapError f) :=
  fun s hm hw => by
  obtain ⟨s', hrun, hwrote⟩ := hx s hm hw
  refine ⟨s', ?_, hwrote⟩
  rw [Run.mapError, hrun]

theorem outcome {r : Except ε α} (hx : x.Reads m r) : (x.outcome : Run δ (Except ε α)).Reads m (.ok r) :=
  fun s hm hw => by
  obtain ⟨s', hrun, hwrote⟩ := hx s hm hw
  refine ⟨s', ?_, hwrote⟩
  rw [Run.outcome, hrun]

theorem get (key : String) : (Run.get key).Reads m (.ok (m.get? key)) := fun s hm hw => by
  refine ⟨_, Prod.ext ?_ rfl, .nothing rfl rfl rfl⟩
  change (s.store.get key).1 = _
  unfold Store.get
  dsimp only
  rw [hw.1, hm]

theorem scan (range : KeyInterval) : (Run.scan range : Run ε _).Reads m (.ok (m.keysIn range, none)) :=
  fun s hm hw => by
  refine ⟨_, Prod.ext ?_ rfl, .nothing rfl rfl rfl⟩
  change Except.ok (s.store.scan range).1 = _
  unfold Store.scan
  dsimp only
  rw [hw.2, hm]

end Reads
end Run

theorem Database.result_run {ε α : Type} {db : Database} {x : Run ε α} {r : Except ε α}
    (hx : x.Reads db.store.entries r) (hworks : db.store.faults.ReadsWork) : (db.run x).result = r := by
  obtain ⟨s, hrun, -⟩ := hx (.start db.store) rfl hworks
  unfold Database.run Run.on
  rw [hrun]

end FactBase
