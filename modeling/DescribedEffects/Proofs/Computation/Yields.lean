import DescribedEffects.Computation.Transcript
import DescribedEffects.Descriptor.Parse
import DescribedEffects.Trace
import Mathlib.Data.List.Forall2

/-!
# The effects of a transcript

A transcript tells which computation was resumed with what, and what it replied.  So it
tells which effects were yielded, by whom, and what each of these computations was resumed
with next: `yields` reads just that off the transcript, going forward from each reply.

A driver, on the other hand, writes its transcript from the front.  `yields_concat` says
what one more entry comes to: a resumption is the next one of everything that the
computation has yielded and that was still without an answer, and its reply may be one
more effect.

A record *transcribes* an effect that was yielded if it holds that effect, and a value or
an exception exactly as the computation has got it next (`Transcribes`).
-/

namespace DescribedEffects

/-- The item that a reply yields, if it describes an effect.  A computation does not, nor does
anything malformed. -/
def Reply.effect? : Reply → Option Value
  | .yielded item => if item.isComputation = false ∧ (Descriptor.parse item).isOk then item else none
  | _ => none

/-- The signal, if this is a resumption of the computation. -/
def Act.signal? (g : Nat) : Act → Option Signal
  | .resumed h signal _ => if h = g then some signal else none
  | _ => none

/-- What a computation is resumed with first. -/
def nextSignal (g : Nat) (acts : List Act) : Option Signal := acts.findSome? (Act.signal? g)

/-- An item that describes an effect, with the computation that yielded it and what that one
was resumed with next. -/
structure Yield where
  computation : Nat
  item : Value
  next : Option Signal

/-- The effects that were yielded, in order. -/
def yields : List Act → List Yield
  | [] => []
  | .resumed g _ reply :: later =>
    (reply.effect?.map fun item => ⟨g, item, nextSignal g later⟩).toList ++ yields later
  | _ :: later => yields later

/-- A computation is resumed after it yielded something. -/
def Yield.hear (g : Nat) (signal : Signal) (y : Yield) : Yield :=
  if y.computation = g then { y with next := y.next.or (some signal) } else y

/-- One more act. -/
def heard (ys : List Yield) : Act → List Yield
  | .resumed g signal reply =>
    ys.map (.hear g signal) ++ (reply.effect?.map fun item => ⟨g, item, none⟩).toList
  | _ => ys

theorem nextSignal_concat (g : Nat) (acts : List Act) (act : Act) :
    nextSignal g (acts ++ [act]) = (nextSignal g acts).or (act.signal? g) := by
  rw [nextSignal, List.findSome?_append]
  simp [nextSignal]

/-- **The effects of a transcript with one more entry.** -/
theorem yields_concat (acts : List Act) (act : Act) :
    yields (acts ++ [act]) = heard (yields acts) act := by
  induction acts with
  | nil => cases act <;> simp [yields, heard, nextSignal]
  | cons first later ih =>
    rw [List.cons_append]
    cases first with
    | resumed g signal reply =>
      rw [yields, yields, nextSignal_concat, ih]
      cases hreply : reply.effect? with
      | none => simp
      | some item =>
        cases act with
        | resumed h told more =>
          rcases eq_or_ne h g with rfl | hne
          · simp [heard, Yield.hear, Act.signal?]
          · simp [heard, Yield.hear, Act.signal?, hne, hne.symm]
        | _ => simp [heard, Act.signal?]
    | _ => exact ih

/-- What is no resumption makes no difference. -/
theorem yields_concat_of_quiet (acts : List Act) {act : Act}
    (h : ∀ g signal reply, act ≠ .resumed g signal reply) :
    yields (acts ++ [act]) = yields acts := by
  rw [yields_concat]
  cases act with
  | resumed g signal reply => exact absurd rfl (h g signal reply)
  | _ => rfl

/-! ## Records of a transcript -/

/-- The record says which effect was yielded, and what the computation that yielded it has
heard of it. -/
structure Transcribes (r : Record) (y : Yield) : Prop where
  effect : Descriptor.parse y.item = .ok r.descriptor
  returned : ∀ v, r.outcome = .ok v ↔ y.next = some (.send v)
  raised : ∀ e, r.outcome = .error e ↔ y.next = some (.throw e)

/-- What a computation is resumed with on account of an outcome. -/
def Signal.ofOutcome : Outcome → Signal
  | .ok v => .send v
  | .error e => .throw e

/-- A record transcribes an effect whose outcome is what the computation hears next. -/
theorem transcribes_iff {r : Record} {y : Yield} : Transcribes r y ↔
    Descriptor.parse y.item = .ok r.descriptor ∧ y.next = some (.ofOutcome r.outcome) := by
  constructor
  · intro h
    refine ⟨h.effect, ?_⟩
    cases ho : r.outcome with
    | ok v => exact (h.returned v).1 ho
    | error e => exact (h.raised e).1 ho
  · rintro ⟨heffect, hnext⟩
    refine ⟨heffect, fun v => ?_, fun e => ?_⟩
    · rw [hnext]
      cases r.outcome <;> simp [Signal.ofOutcome]
    · rw [hnext]
      cases r.outcome <;> simp [Signal.ofOutcome]

/-- A computation that has heard of its effect is resumed later on for other reasons. -/
theorem Transcribes.hear {r : Record} {y : Yield} (h : Transcribes r y) (g : Nat)
    (signal : Signal) : y.hear g signal = y := by
  obtain ⟨-, hnext⟩ := transcribes_iff.1 h
  unfold Yield.hear
  split
  · rw [hnext, Option.some_or, ← hnext]
  · rfl

/-- Effects that are all recorded are not touched by later resumptions. -/
theorem hear_of_transcribes {rs : List Record} {ys : List Yield}
    (h : List.Forall₂ Transcribes rs ys) (g : Nat) (signal : Signal) :
    ys.map (.hear g signal) = ys := by
  induction h with
  | nil => rfl
  | cons first _ ih => rw [List.map_cons, first.hear, ih]

/-- The computation that yielded the last effect hears of its outcome, and the effect is
recorded with it. -/
theorem transcribes_concat {rs : List Record} {ys : List Yield} {item : Value} {d : Descriptor}
    (h : List.Forall₂ Transcribes rs ys) (g : Nat) (hparse : Descriptor.parse item = .ok d)
    (o : Outcome) :
    List.Forall₂ Transcribes (rs ++ [⟨d, o⟩])
      ((ys ++ [(⟨g, item, none⟩ : Yield)]).map (.hear g (.ofOutcome o))) := by
  have hlast : Transcribes ⟨d, o⟩ (Yield.hear g (.ofOutcome o) ⟨g, item, none⟩) :=
    transcribes_iff.2 ⟨by simp [Yield.hear, hparse], by simp [Yield.hear]⟩
  rw [List.map_append, hear_of_transcribes h]
  exact List.rel_append h (List.Forall₂.cons hlast .nil)

/-- A trace without a bound that has a record of every effect, in order. -/
structure Recorded (t : Trace) (ys : List Yield) : Prop where
  bound : t.bound = .unbounded
  kept : t.log.bound = none
  entries : List.Forall₂ Transcribes t.log.entries ys

theorem recorded_empty : Recorded (.empty .unbounded) [] :=
  ⟨rfl, rfl, .nil⟩

theorem Recorded.hear {t : Trace} {ys : List Yield} (h : Recorded t ys) (g : Nat)
    (signal : Signal) : ys.map (.hear g signal) = ys :=
  hear_of_transcribes h.entries g signal

theorem Recorded.add {t : Trace} {ys : List Yield} {item : Value} {d : Descriptor}
    (h : Recorded t ys) (g : Nat) (hparse : Descriptor.parse item = .ok d) (o : Outcome) :
    Recorded (t.add ⟨d, o⟩)
      ((ys ++ [(⟨g, item, none⟩ : Yield)]).map (.hear g (.ofOutcome o))) where
  bound := h.bound
  kept := h.kept
  entries := by
    rw [Trace.log_add, BoundedLog.entries_append, h.kept, BoundedLog.keepLast_none]
    exact transcribes_concat h.entries g hparse o

end DescribedEffects
