import FactBase.Proofs.Ledger
import FactBase.Query.Goal
/-!
# Resolving — what a goal means for stored facts

The segment of a literal is that of the facts which have the literal at its position (`Denotes`), so a goal asks of
stored facts what its pattern asks of facts.  Where no fact can have a literal of the pattern, resolving reports it as
unknown (`reads_ofPattern`).
-/
namespace FactBase

open Dictionary (slot identify Settled)

/-- Whether literals of a value's type stand at the position. -/
def Position.takes : Position → Value → Bool
  | .entity, .text _ | .attr, .text _ | .value, .text _ => true
  | .txn, .integer _ => true
  | .operation, .boolean _ => true
  | _, _ => false

/-- Each literal is of the type of its position. -/
def Pattern.WellTyped (p : Pattern) : Prop := ∀ pos v, p.element pos = .literal v → pos.takes v = true

/-- Whether the element can stand at the position: a literal only where its type is taken. -/
def Element.isTypedAt (pos : Position) : Element → Bool
  | .literal v => pos.takes v
  | _ => true

theorem Pattern.wellTyped_iff {p : Pattern} :
    p.WellTyped ↔ ∀ pos ∈ Position.all, (p.element pos).isTypedAt pos = true := by
  constructor
  · intro htyped pos _
    cases helement : p.element pos with
    | blank => rfl
    | var name => rfl
    | literal v => exact htyped pos v helement
  · intro h pos v hliteral
    have htyped := h pos (Position.mem_all pos)
    rwa [hliteral] at htyped

instance (p : Pattern) : Decidable p.WellTyped := decidable_of_iff _ Pattern.wellTyped_iff.symm

/-- A fact has the literals of a pattern. -/
def Fact.Agrees (f : Fact) (p : Pattern) : Prop := ∀ pos v, p.element pos = .literal v → f.values.get pos = v

theorem Fact.takes_get (f : Fact) (pos : Position) : pos.takes (f.values.get pos) = true := by
  cases pos <;> rfl

/-- A fact has literals only of the types of their positions. -/
theorem Pattern.wellTyped_of_agrees {p : Pattern} {f : Fact} (hagrees : f.Agrees p) : p.WellTyped :=
  fun pos v hliteral => hagrees pos v hliteral ▸ f.takes_get pos

namespace Goal

/-- Stored facts have the segment at the position where their facts have the value. -/
def Denotes (m : KeyMap String) (pos : Position) (v : Value) (segment : String) : Prop :=
  ∀ (s : StoredFact) (f : Fact), s.Holds m f → f.txn ≤ maxTxn → (s.texts.get pos = segment ↔ f.values.get pos = v)

/-- No fact has the value at the position. -/
def Unknown (m : KeyMap String) (pos : Position) (v : Value) : Prop :=
  ∀ (s : StoredFact) (f : Fact), s.Holds m f → f.txn ≤ maxTxn → f.values.get pos ≠ v

variable {m : KeyMap String}

theorem segment_eq_iff (hm : Settled m) {id id' : Identifier} {l l' : String} (hheld : m.get? (slot id) = some l)
    (hid : identify m l' = some id') : id.segment = id'.segment ↔ Value.text l = .text l' := by
  have heq := hm.eq_iff hheld (hm.held_iff.1 hid)
  constructor
  · exact fun hsegment => congrArg Value.text (heq.1 (congrArg Identifier.mk hsegment))
  · exact fun htext => congrArg Identifier.segment (heq.2 (Value.text.inj htext))

theorem text_ne (hm : Settled m) {id : Identifier} {l l' : String} (hheld : m.get? (slot id) = some l)
    (hid : identify m l' = none) : Value.text l ≠ .text l' := by
  intro htext
  obtain rfl := Value.text.inj htext
  cases (hm _ _ hheld).symm.trans hid

theorem reads_identifier (m : KeyMap String) (l : String) :
    ((Dictionary.idOf l).mapError Query.Error.ofForward >>= fun id => pure id.segment : Run Query.Error String).Reads m
      ((identify m l).elim (.error (.unknownLiteral l)) fun id => .ok id.segment) := by
  have hid := (Dictionary.reads_idOf m l).mapError Query.Error.ofForward
  cases h : identify m l with
  | none =>
    rw [h] at hid
    exact .bind_error hid
  | some id =>
    rw [h] at hid
    exact .bind hid (.pure id.segment)

theorem reads_text (hm : Settled m) (l : String) {pos : Position}
    (hsegment : segmentOf pos (.text l) = ((Dictionary.idOf l).mapError Query.Error.ofForward >>= fun id =>
      pure id.segment))
    (hheld : ∀ (s : StoredFact) (f : Fact), s.Holds m f → ∃ id l', s.texts.get pos = id.segment ∧
      f.values.get pos = .text l' ∧ m.get? (slot id) = some l') :
    (∃ segment, (segmentOf pos (.text l)).Reads m (.ok segment) ∧ Denotes m pos (.text l) segment) ∨
      ∃ text, (segmentOf pos (.text l)).Reads m (.error (.unknownLiteral text)) ∧ Unknown m pos (.text l) := by
  have hreads := reads_identifier m l
  rw [hsegment]
  cases h : identify m l with
  | none =>
    rw [h] at hreads
    refine .inr ⟨l, hreads, fun s f hs _ => ?_⟩
    obtain ⟨id, l', -, hvalue, hget⟩ := hheld s f hs
    rw [hvalue]
    exact text_ne hm hget h
  | some id =>
    rw [h] at hreads
    refine .inl ⟨id.segment, hreads, fun s f hs _ => ?_⟩
    obtain ⟨id', l', htext, hvalue, hget⟩ := hheld s f hs
    rw [htext, hvalue]
    exact segment_eq_iff hm hget h

/-- **The segment of a literal**: it denotes the literal, or no fact has the literal. -/
theorem reads_segmentOf (hm : Settled m) {pos : Position} {v : Value} (htyped : pos.takes v = true) :
    (∃ segment, (segmentOf pos v).Reads m (.ok segment) ∧ Denotes m pos v segment) ∨
      ∃ text, (segmentOf pos v).Reads m (.error (.unknownLiteral text)) ∧ Unknown m pos v := by
  match pos, v, htyped with
  | .entity, .text l, _ => exact reads_text hm l rfl fun s f hs => ⟨s.entity, f.entity, rfl, rfl, hs.entity⟩
  | .attr, .text l, _ => exact reads_text hm l rfl fun s f hs => ⟨s.attr, f.attr, rfl, rfl, hs.attr⟩
  | .value, .text l, _ => exact reads_text hm l rfl fun s f hs => ⟨s.value, f.value, rfl, rfl, hs.value⟩
  | .txn, .integer n, _ =>
    have hreads : (segmentOf .txn (.integer n)).Reads m
        ((Segment.ofTxn n).mapError fun _ => .unknownLiteral (Value.integer n).render) := .ofExcept _
    by_cases hn : n ≤ maxTxn
    · rw [Segment.ofTxn_of_le hn] at hreads
      refine .inl ⟨Segment.txnText n, hreads, fun s f hs hle => ?_⟩
      change Segment.txnText s.txn = Segment.txnText n ↔ Value.integer f.txn = .integer n
      rw [hs.txn]
      constructor
      · intro htext
        rw [Segment.txnText_inj hle hn htext]
      · intro hvalue
        rw [Value.integer.inj hvalue]
    · rw [Segment.ofTxn_of_lt (UInt64.not_le.1 hn)] at hreads
      refine .inr ⟨_, hreads, fun s f hs hle hvalue => ?_⟩
      obtain rfl : f.txn = n := Value.integer.inj hvalue
      exact hn hle
  | .operation, .boolean b, _ =>
    refine .inl ⟨Segment.ofOperation b, .pure _, fun s f hs _ => ?_⟩
    change Segment.ofOperation s.operation = Segment.ofOperation b ↔ Value.boolean f.operation = .boolean b
    rw [hs.operation]
    constructor
    · intro htext
      rw [Segment.ofOperation_inj htext]
    · intro hvalue
      rw [Value.boolean.inj hvalue]

/-- What a term makes of an element. -/
inductive Resolves (m : KeyMap String) (pos : Position) : Element → Term → Prop where
  | blank : Resolves m pos .blank .blank
  | var (name : String) : Resolves m pos (.var name) (.var name)
  | literal {v : Value} {segment : String} (denotes : Denotes m pos v segment) :
    Resolves m pos (.literal v) (.concrete v segment)

/-- No stored fact has the literals of the pattern. -/
def Hopeless (m : KeyMap String) (p : Pattern) : Prop :=
  ∀ (s : StoredFact) (f : Fact), s.Holds m f → f.txn ≤ maxTxn → ¬f.Agrees p

theorem reads_termOf (hm : Settled m) {p : Pattern} (htyped : p.WellTyped) (pos : Position) :
    (∃ t, (termOf p pos).Reads m (.ok t) ∧ Resolves m pos (p.element pos) t) ∨
      ∃ text, (termOf p pos).Reads m (.error (.unknownLiteral text)) ∧ Hopeless m p := by
  unfold termOf
  cases helement : p.element pos with
  | blank => exact .inl ⟨.blank, .pure _, .blank⟩
  | var name => exact .inl ⟨.var name, .pure _, .var name⟩
  | literal v =>
    rcases reads_segmentOf hm (htyped pos v helement) with ⟨segment, hreads, hdenotes⟩ | ⟨text, hreads, hunknown⟩
    · exact .inl ⟨.concrete v segment, .bind hreads (.pure _), .literal hdenotes⟩
    · exact .inr ⟨text, .bind_error hreads, fun s f hs hle hagrees => hunknown s f hs hle (hagrees pos v helement)⟩

/-- **A pattern that is not too long is resolved**, or no stored fact has its literals and one of them is reported as
unknown. -/
theorem reads_ofPattern (hm : Settled m) {p : Pattern} (hshort : p.isTooLong = false) (htyped : p.WellTyped) :
    (∃ g, (ofPattern p).Reads m (.ok g) ∧ ∀ pos, Resolves m pos (p.element pos) (g.get pos)) ∨
      ∃ text, (ofPattern p).Reads m (.error (.unknownLiteral text)) ∧ Hopeless m p := by
  have hterm := reads_termOf hm htyped
  unfold ofPattern
  dsimp only
  rw [if_neg (by rw [hshort]; exact Bool.false_ne_true)]
  rcases hterm .entity with ⟨e, he, hentity⟩ | ⟨text, he, hhopeless⟩
  case inr => exact .inr ⟨text, .bind_error he, hhopeless⟩
  rcases hterm .attr with ⟨a, ha, hattr⟩ | ⟨text, ha, hhopeless⟩
  case inr => exact .inr ⟨text, .bind he (.bind_error ha), hhopeless⟩
  rcases hterm .value with ⟨v, hv, hvalue⟩ | ⟨text, hv, hhopeless⟩
  case inr => exact .inr ⟨text, .bind he (.bind ha (.bind_error hv)), hhopeless⟩
  rcases hterm .txn with ⟨t, ht, htxn⟩ | ⟨text, ht, hhopeless⟩
  case inr => exact .inr ⟨text, .bind he (.bind ha (.bind hv (.bind_error ht))), hhopeless⟩
  rcases hterm .operation with ⟨o, ho, hoperation⟩ | ⟨text, ho, hhopeless⟩
  case inr => exact .inr ⟨text, .bind he (.bind ha (.bind hv (.bind ht (.bind_error ho)))), hhopeless⟩
  refine .inl ⟨⟨e, a, v, t, o⟩, .bind he (.bind ha (.bind hv (.bind ht (.bind ho (.pure _))))), fun pos => ?_⟩
  cases pos with
  | entity => exact hentity
  | attr => exact hattr
  | value => exact hvalue
  | txn => exact htxn
  | operation => exact hoperation

end Goal
end FactBase
