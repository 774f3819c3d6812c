import FactBase.Proofs.Answering
/-!
# Refusing — literals that keep a pattern from being resolved

A literal is refused where its type never stands at its position, or where no key can hold it because it is unknown.
Whatever the store holds, the positions are tried in tuple order and the first refusal decides (`ends_ofPattern`): an
unknown literal leaves no answers, one of a wrong type is an error.  So a wrong type is reported as long as no literal
before it is unknown, whatever comes behind it (`wrong_types_are_reported`).
-/
namespace FactBase

open Dictionary (identify)

/-! ## Computations that end with a given error, or with none -/

/-- Over these entries, wherever all reads work, the computation only reads.  It fails with the error if one is given,
and does not fail if none is. -/
def Run.Ends {ε α : Type} (x : Run ε α) (m : KeyMap String) : Option ε → Prop
  | none => ∃ a, x.Reads m (.ok a)
  | some e => x.Reads m (.error e)

namespace Run.Ends

variable {ε α β : Type} {m : KeyMap String} {x : Run ε α}

theorem pure (a : α) : (pure a : Run ε α).Ends m none := ⟨a, .pure a⟩

/-- **Of two refusals the first decides.** -/
theorem bind {f : α → Run ε β} {first second : Option ε} (hx : x.Ends m first) (hf : ∀ a, (f a).Ends m second) :
    (x >>= f).Ends m (first.or second) := by
  cases first with
  | some e => exact Reads.bind_error hx
  | none =>
    obtain ⟨a, hx⟩ := hx
    have ha := hf a
    cases second with
    | some e => exact Reads.bind hx ha
    | none =>
      obtain ⟨b, ha⟩ := ha
      exact ⟨b, Reads.bind hx ha⟩

end Run.Ends

/-! ## Refusals -/

namespace Goal

/-- Whether keys have a segment for the literal: a text that is registered, a number that fits, or a truth value. -/
def isKnown (m : KeyMap String) : Value → Bool
  | .text s => (identify m s).isSome
  | .integer n => decide (n ≤ maxTxn)
  | .boolean _ => true

/-- The error with which a literal is refused at a position, if it is. -/
def refusalOf (m : KeyMap String) (pos : Position) (v : Value) : Option Query.Error :=
  if pos.takes v then
    if isKnown m v then none else some (.unknownLiteral v.render)
  else some (.illTyped pos)

/-- The error with which the element at a position is refused, if it is. -/
def refusal? (m : KeyMap String) (q : Pattern) (pos : Position) : Option Query.Error :=
  match q.element pos with
  | .literal v => refusalOf m pos v
  | _ => none

variable {m : KeyMap String} {q : Pattern} {pos : Position} {v : Value}

theorem segmentOf_of_takes_eq_false (h : pos.takes v = false) : segmentOf pos v = throw (.illTyped pos) := by
  cases pos <;> cases v <;> first | rfl | cases h

theorem ends_text (m : KeyMap String) (s : String)
    (hsegment : segmentOf pos (.text s) = ((Dictionary.idOf s).mapError Query.Error.ofForward >>= fun id =>
      pure id.segment)) (htakes : pos.takes (.text s) = true) :
    (segmentOf pos (.text s)).Ends m (refusalOf m pos (.text s)) := by
  have hreads := reads_identifier m s
  rw [hsegment, refusalOf, if_pos htakes, isKnown]
  cases hid : identify m s with
  | none =>
    rw [hid] at hreads
    exact hreads
  | some id =>
    rw [hid] at hreads
    exact ⟨_, hreads⟩

/-- **A literal is resolved or refused**, whatever the store holds. -/
theorem ends_segmentOf (m : KeyMap String) (pos : Position) (v : Value) :
    (segmentOf pos v).Ends m (refusalOf m pos v) := by
  cases htakes : pos.takes v with
  | false =>
    rw [refusalOf, if_neg (Bool.eq_false_iff.1 htakes), segmentOf_of_takes_eq_false htakes]
    exact .throw _
  | true =>
    match pos, v, htakes with
    | .entity, .text s, _ => exact ends_text m s rfl rfl
    | .attr, .text s, _ => exact ends_text m s rfl rfl
    | .value, .text s, _ => exact ends_text m s rfl rfl
    | .txn, .integer n, htakes =>
      have hreads : (segmentOf .txn (.integer n)).Reads m
          ((Segment.ofTxn n).mapError fun _ => .unknownLiteral (Value.integer n).render) := .ofExcept _
      by_cases hn : n ≤ maxTxn
      · rw [Segment.ofTxn_of_le hn] at hreads
        rw [refusalOf, if_pos htakes, isKnown, decide_eq_true hn, if_pos rfl]
        exact ⟨_, hreads⟩
      · rw [Segment.ofTxn_of_lt (UInt64.not_le.1 hn)] at hreads
        rw [refusalOf, if_pos htakes, isKnown, decide_eq_false hn, if_neg Bool.false_ne_true]
        exact hreads
    | .operation, .boolean b, _ => exact ⟨_, .pure _⟩

theorem ends_termOf (m : KeyMap String) (q : Pattern) (pos : Position) :
    (termOf q pos).Ends m (refusal? m q pos) := by
  unfold termOf refusal?
  cases q.element pos with
  | blank => exact .pure _
  | var name => exact .pure _
  | literal v =>
    have hbind := Run.Ends.bind (ends_segmentOf m pos v) fun segment => .pure (Term.concrete v segment)
    rwa [Option.or_none] at hbind

/-- **The first refusal, in tuple order, decides.** -/
theorem ends_ofPattern (m : KeyMap String) (hshort : q.isTooLong = false) :
    (ofPattern q).Ends m (Position.all.findSome? (refusal? m q)) := by
  have hterm := ends_termOf m q
  have hfirst : Position.all.findSome? (refusal? m q) =
      (refusal? m q .entity).or ((refusal? m q .attr).or ((refusal? m q .value).or
        ((refusal? m q .txn).or ((refusal? m q .operation).or none)))) := by
    simp only [Position.all, List.findSome?_cons, List.findSome?_nil]
    cases refusal? m q .entity <;> cases refusal? m q .attr <;> cases refusal? m q .value <;>
      cases refusal? m q .txn <;> cases refusal? m q .operation <;> rfl
  unfold ofPattern
  dsimp only
  rw [if_neg (by rw [hshort]; exact Bool.false_ne_true), hfirst]
  refine .bind (hterm .entity) fun entity => .bind (hterm .attr) fun attr => .bind (hterm .value) fun value => ?_
  exact .bind (hterm .txn) fun txn => .bind (hterm .operation) fun operation => .pure _

theorem refusal?_eq_some_iff {e : Query.Error} :
    refusal? m q pos = some e ↔ ∃ v, q.element pos = .literal v ∧ refusalOf m pos v = some e := by
  unfold refusal?
  cases q.element pos with
  | blank => exact ⟨fun h => (by cases h), fun ⟨v, h, _⟩ => (by cases h)⟩
  | var name => exact ⟨fun h => (by cases h), fun ⟨v, h, _⟩ => (by cases h)⟩
  | literal v =>
    refine ⟨fun h => ⟨v, rfl, h⟩, ?_⟩
    rintro ⟨v', hv, h⟩
    obtain rfl := Element.literal.inj hv
    exact h

/-- The first refusal is of an unknown literal or of one of a wrong type. -/
theorem refusal_cases {e : Query.Error} (h : Position.all.findSome? (refusal? m q) = some e) :
    (∃ text, e = .unknownLiteral text) ∨
      ∃ pos v, e = .illTyped pos ∧ q.element pos = .literal v ∧ pos.takes v = false := by
  obtain ⟨pos, -, hrefused⟩ := List.exists_of_findSome?_eq_some h
  obtain ⟨v, hliteral, hrefused⟩ := refusal?_eq_some_iff.1 hrefused
  unfold refusalOf at hrefused
  split at hrefused
  · split at hrefused
    · cases hrefused
    · exact .inl ⟨_, (Option.some.inj hrefused).symm⟩
  · rename_i htakes
    exact .inr ⟨pos, v, (Option.some.inj hrefused).symm, hliteral, Bool.eq_false_iff.2 htakes⟩

end Goal

namespace Query

variable {m : KeyMap String} {p : Pattern} {b : Binding}

/-- **A refused pattern is not answered from the store**: an unknown literal leaves no answers, any other refusal is an
error. -/
theorem reads_answer_of_refusal (index : IndexOrder) (hshort : p.isTooLong = false) {e : Query.Error}
    (he : Position.all.findSome? (Goal.refusal? m (p.bind b)) = some e) : (answer index p b).Reads m
      (match e with
        | .unknownLiteral _ => .ok []
        | e => .error e) := by
  have hread := Goal.ends_ofPattern m ((p.isTooLong_bind b).trans hshort)
  rw [he] at hread
  have houtcome : ((Goal.ofPattern (p.bind b)).outcome : Run Query.Error _).Reads m (.ok (.error e)) :=
    Run.Reads.outcome hread
  cases e with
  | unknownLiteral text => exact .bind houtcome (.bind (.tell _) (.pure _))
  | patternTooLong count => exact .bind houtcome (.throw _)
  | illTyped pos => exact .bind houtcome (.throw _)
  | dictionary cause => exact .bind houtcome (.throw _)
  | key cause => exact .bind houtcome (.throw _)
  | store cause => exact .bind houtcome (.throw _)

theorem checkLengths_of_short {patterns : List Pattern} (h : ∀ p ∈ patterns, p.isTooLong = false) :
    checkLengths patterns = .ok () := by
  have hnone : patterns.find? Pattern.isTooLong = none :=
    List.find?_eq_none.2 fun p hp => Bool.eq_false_iff.1 (h p hp)
  rw [checkLengths, hnone]

end Query

theorem Database.result_queryOne {db : Database} {p : Pattern} {b : Binding} {index : IndexOrder}
    (hindex : db.index = index) (hworks : db.store.faults.ReadsWork) (hshort : p.isTooLong = false)
    {r : Except Query.Error (List Binding)} (hreads : (Query.answer index p b).Reads db.store.entries r) :
    (db.queryOne p b).result = r := by
  rw [queryOne, hindex]
  refine result_run ?_ hworks
  unfold Query.solveOne
  rw [Query.checkLengths_of_short (by simpa using hshort)]
  exact .bind (.ofExcept _) hreads

/-! ## Wrong types -/

namespace Position

theorem exists_first {P : Position → Prop} (h : ∃ pos, P pos) :
    ∃ pos, P pos ∧ ∀ pos' : Position, pos'.index < pos.index → ¬P pos' := by
  obtain ⟨pos, hpos⟩ := h
  induction hn : pos.index using Nat.strongRecOn generalizing pos with
  | ind n ih =>
    subst hn
    by_cases hbefore : ∃ pos' : Position, pos'.index < pos.index ∧ P pos'
    · obtain ⟨pos', hlt, hpos'⟩ := hbefore
      exact ih pos'.index hlt pos' hpos' rfl
    · exact ⟨pos, hpos, fun pos' hlt hpos' => hbefore ⟨pos', hlt, hpos'⟩⟩

theorem findSome?_all_eq_some {α : Type} {r : Position → Option α} (pos : Position) {a : α} (ha : r pos = some a)
    (hbefore : ∀ pos' : Position, pos'.index < pos.index → r pos' = none) : all.findSome? r = some a := by
  cases pos with
  | entity => simp [all, ha]
  | attr => simp [all, ha, hbefore .entity (by decide)]
  | value => simp [all, ha, hbefore .entity (by decide), hbefore .attr (by decide)]
  | txn => simp [all, ha, hbefore .entity (by decide), hbefore .attr (by decide), hbefore .value (by decide)]
  | operation =>
    simp [all, ha, hbefore .entity (by decide), hbefore .attr (by decide), hbefore .value (by decide),
      hbefore .txn (by decide)]

end Position

namespace Pattern

/-- The literal at the position is of a wrong type, and none before it is. -/
structure FirstIllTyped (q : Pattern) (pos : Position) : Prop where
  illTyped : ∃ v, q.element pos = .literal v ∧ pos.takes v = false
  first : ∀ pos' v, pos'.index < pos.index → q.element pos' = .literal v → pos'.takes v = true

/-- Every literal before the position is known. -/
def KnownBefore (q : Pattern) (m : KeyMap String) (pos : Position) : Prop :=
  ∀ pos' v, pos'.index < pos.index → q.element pos' = .literal v → Goal.isKnown m v = true

variable {q : Pattern} {m : KeyMap String} {pos : Position}

theorem exists_firstIllTyped (h : ¬q.WellTyped) : ∃ pos, q.FirstIllTyped pos := by
  have hwrong : ∃ pos v, q.element pos = .literal v ∧ pos.takes v = false := by
    simpa [WellTyped] using h
  obtain ⟨pos, hpos, hfirst⟩ := Position.exists_first hwrong
  refine ⟨pos, hpos, fun pos' v hlt hliteral => ?_⟩
  exact eq_true_of_ne_false fun htakes => hfirst pos' hlt ⟨v, hliteral, htakes⟩

/-- **A wrong type is the first refusal where all literals before it are known.** -/
theorem FirstIllTyped.refused (h : q.FirstIllTyped pos) (hknown : q.KnownBefore m pos) :
    Position.all.findSome? (Goal.refusal? m q) = some (.illTyped pos) := by
  obtain ⟨v, hliteral, htakes⟩ := h.illTyped
  refine Position.findSome?_all_eq_some pos ?_ fun pos' hlt => Option.eq_none_iff_forall_ne_some.2 fun e he => ?_
  · refine Goal.refusal?_eq_some_iff.2 ⟨v, hliteral, ?_⟩
    rw [Goal.refusalOf, if_neg (Bool.eq_false_iff.1 htakes)]
  · obtain ⟨v', hliteral', hrefused⟩ := Goal.refusal?_eq_some_iff.1 he
    rw [Goal.refusalOf, if_pos (h.first pos' v' hlt hliteral'), if_pos (hknown pos' v' hlt hliteral')] at hrefused
    cases hrefused

/-- **An unknown literal is the first refusal where it comes before the wrong type.** -/
theorem FirstIllTyped.hidden (h : q.FirstIllTyped pos) (hunknown : ¬q.KnownBefore m pos) :
    ∃ text, Position.all.findSome? (Goal.refusal? m q) = some (.unknownLiteral text) := by
  have hsome : ∃ pos' v, pos'.index < pos.index ∧ q.element pos' = .literal v ∧ Goal.isKnown m v = false := by
    simpa [KnownBefore] using hunknown
  obtain ⟨pos', ⟨v, hlt, hliteral, hv⟩, hfirst⟩ := Position.exists_first hsome
  refine ⟨v.render, Position.findSome?_all_eq_some pos' ?_ fun pos'' hlt' =>
    Option.eq_none_iff_forall_ne_some.2 fun e he => ?_⟩
  · refine Goal.refusal?_eq_some_iff.2 ⟨v, hliteral, ?_⟩
    rw [Goal.refusalOf, if_pos (h.first pos' v hlt hliteral), if_neg (Bool.eq_false_iff.1 hv)]
  · -- what comes before the first unknown literal is known, and before the wrong type
    obtain ⟨v', hliteral', hrefused⟩ := Goal.refusal?_eq_some_iff.1 he
    have hbefore := Nat.lt_trans hlt' hlt
    have hknown : Goal.isKnown m v' = true :=
      eq_true_of_ne_false fun hv' => hfirst pos'' hlt' ⟨v', hbefore, hliteral', hv'⟩
    rw [Goal.refusalOf, if_pos (h.first pos'' v' hbefore hliteral'), if_pos hknown] at hrefused
    cases hrefused

theorem exists_refusal (h : ¬q.WellTyped) : ∃ e, Position.all.findSome? (Goal.refusal? m q) = some e := by
  obtain ⟨pos, hfirst⟩ := exists_firstIllTyped h
  by_cases hknown : q.KnownBefore m pos
  · exact ⟨_, hfirst.refused hknown⟩
  · obtain ⟨text, hrefused⟩ := hfirst.hidden hknown
    exact ⟨_, hrefused⟩

end Pattern

namespace Database

/-- **A wrong type is reported unless an unknown literal comes before it.**  If a literal of a bound pattern of at most
five elements is of a type that never stands at its position, then for every content of the store, wherever all reads
work, the first such position is reported if every literal before it is known; what is known of the literals behind it
does not matter.  Otherwise there are no answers, and no error. -/
theorem wrong_types_are_reported {p : Pattern} {b : Binding} (hlength : p.elements.length ≤ Pattern.capacity)
    (hwrong : ¬(p.bind b).WellTyped) :
    ∃ pos, (p.bind b).FirstIllTyped pos ∧ ∀ db : Database, db.store.faults.ReadsWork →
      ((p.bind b).KnownBefore db.store.entries pos → (db.queryOne p b).result = .error (.illTyped pos)) ∧
      (¬(p.bind b).KnownBefore db.store.entries pos → (db.queryOne p b).result = .ok []) := by
  have hshort : p.isTooLong = false := decide_eq_false (Nat.not_lt.2 hlength)
  obtain ⟨pos, hfirst⟩ := Pattern.exists_firstIllTyped hwrong
  refine ⟨pos, hfirst, fun db hworks => ⟨fun hknown => ?_, fun hunknown => ?_⟩⟩
  · exact result_queryOne rfl hworks hshort (Query.reads_answer_of_refusal _ hshort (hfirst.refused hknown))
  · obtain ⟨text, hrefused⟩ := hfirst.hidden hunknown
    exact result_queryOne rfl hworks hshort (Query.reads_answer_of_refusal _ hshort hrefused)

/-- A number where an attribute stands, behind a known entity and before an unknown value. -/
theorem wrong_types_are_reported_knownEntity :
    let db := (History.run false History.firstCommit).db.withFaults .never
    let p : Pattern := ⟨[.literal (.text "0001"), .literal (.integer 5), .literal (.text "ghost")]⟩
    p.elements.length ≤ Pattern.capacity ∧ ¬(p.bind .empty).WellTyped ∧ db.store.faults.ReadsWork ∧
      Goal.isKnown db.store.entries (.text "ghost") = false ∧ (p.bind .empty).KnownBefore db.store.entries .attr ∧
      (db.queryOne p .empty).result = .error (.illTyped .attr) := by
  intro db p
  have hlength : p.elements.length ≤ Pattern.capacity := by decide
  have hwrong : ¬(p.bind .empty).WellTyped := by decide
  have hknown : (p.bind .empty).KnownBefore db.store.entries .attr := by
    intro pos v hlt hliteral
    cases pos with
    | entity =>
      obtain rfl := Element.literal.inj hliteral
      decide +kernel
    | attr => exact absurd hlt (by decide)
    | value => exact absurd hlt (by decide)
    | txn => cases hliteral
    | operation => cases hliteral
  obtain ⟨pos, hfirst, hreports⟩ := wrong_types_are_reported hlength hwrong
  obtain rfl : pos = .attr := by
    obtain ⟨v, hliteral, htakes⟩ := hfirst.illTyped
    cases pos with
    | entity => cases hliteral; cases htakes
    | attr => rfl
    | value => cases hliteral; cases htakes
    | txn => cases hliteral
    | operation => cases hliteral
  obtain ⟨hreported, -⟩ := hreports db Faults.readsWork_never
  exact ⟨hlength, hwrong, Faults.readsWork_never, by decide +kernel, hknown, hreported hknown⟩

/-- **A wrong type goes unreported**: before the text in front of it is ever registered there are no answers and no
error, afterwards there is one. -/
theorem wrong_type_goes_unreported :
    let p : Pattern := ⟨[.literal (.text "0001"), .literal (.integer 5)]⟩
    (p.bind .empty).element .attr = .literal (.integer 5) ∧ Position.attr.takes (.integer 5) = false ∧
      (((History.run false []).db.withFaults .never).queryOne p .empty).result = .ok [] ∧
      (((History.run false History.firstCommit).db.withFaults .never).queryOne p .empty).result =
        .error (.illTyped .attr) := by
  intro p
  exact ⟨rfl, rfl, by decide +kernel, by decide +kernel⟩

end Database
end FactBase
