import DescribedEffects.Proofs.EventLoop.Log
import DescribedEffects.Proofs.EventLoop.Seen
import DescribedEffects.Settings

/-!
# The log of a run

The notes of the driver mirror the run that it drives: what it says is, in order, what the
transcript of the host calls for.  In particular the effects that it names are the effects of
a trace without a bound (`effects_of_notes` reads them off the transcript), so that the log
can stand in for the trace.

Nothing depends on the log in turn.  `Arena.runUnder` is the loop that hands on after each
step only the notes that the settings let through.  It comes to the same end in the same way,
because a state with other notes is the same state in disguise (`Arena.runUnder_eq`).
-/

namespace DescribedEffects

/-! ## The effects of the log -/

/-- The effect that a note of the driver names. -/
def Note.effect? : Note → Option Descriptor
  | .effect d => some d
  | _ => none

/-- Only the driver names the effects that it was given. -/
theorem filterMap_effect_driverNotes (notes : List Note) :
    (driverNotes notes).filterMap Note.effect? = notes.filterMap Note.effect? := by
  unfold driverNotes
  rw [List.filterMap_filter]
  congr 1
  funext n
  cases n <;> rfl

/-- The effect that a reply yields is the one that is noted. -/
theorem Reply.effect_of_notes (g : Nat) (next : Option Signal) (reply : Reply) :
    reply.notes.filterMap Note.effect? =
      ((reply.effect?.map fun item => (⟨g, item, next⟩ : Yield)).toList).filterMap fun y =>
        (Descriptor.parse y.item).toOption := by
  cases reply with
  | yielded item =>
    cases hitem : item.isComputation with
    | true => simp [Reply.notes, Reply.effect?, hitem, Note.effect?]
    | false =>
      rw [Reply.notes_of_plain hitem]
      cases hparse : Descriptor.parse item <;>
        simp [Reply.effect?, hitem, hparse, Except.isOk, Except.toBool, Except.toOption,
          Note.effect?]
  | _ => rfl

/-- **The log names the effects of the transcript.** -/
theorem effects_of_notes (acts : List Act) :
    (acts.flatMap Act.notes).filterMap Note.effect? =
      (yields acts).filterMap fun y => (Descriptor.parse y.item).toOption := by
  induction acts with
  | nil => rfl
  | cons act later ih =>
    rw [List.flatMap_cons, List.filterMap_append, ih]
    cases act with
    | resumed g signal reply =>
      have hsignal : (EventLoop.signalNotes signal).filterMap Note.effect? = [] := by
        cases signal <;> rfl
      rw [Act.notes, List.filterMap_append, hsignal, List.nil_append, yields,
        List.filterMap_append, ← Reply.effect_of_notes]
    | _ => rfl

/-- Records that transcribe effects hold their descriptors. -/
theorem descriptors_of_transcribes {rs : List Record} {ys : List Yield}
    (h : List.Forall₂ Transcribes rs ys) :
    (ys.filterMap fun y => (Descriptor.parse y.item).toOption) = rs.map Record.descriptor := by
  induction h with
  | nil => rfl
  | cons first _ ih =>
    rw [List.filterMap_cons, first.effect, List.map_cons, ← ih]
    rfl

/-! ## Under other settings -/

namespace EventLoop

variable {σ : Type} {H : Host σ} {context : Value}

/-- The loop with the notes that are let through. -/
def State.audible (settings : Settings) (s : State σ) : State σ :=
  { s with notes := settings.audible s.notes }

/-- An ending with the notes that are let through. -/
def Ending.audible (settings : Settings) : Ending σ → Ending σ
  | .finished o s => .finished o (s.audible settings)
  | .deadlock s => .deadlock (s.audible settings)

/-- One step of a loop that keeps only the notes that are let through. -/
def stepUnder (settings : Settings) (H : Host σ) (context : Value) (s : State σ) :
    Transition (State σ) (Ending σ) :=
  (step H context s).map (State.audible settings) (Ending.audible settings)

variable (H context) in
/-- **What the loop does does not depend on what it has said.** -/
theorem step_unheard {s : State σ} (lone : Lone s) :
    stepUnder ⟨false⟩ H context (s.audible ⟨false⟩) = stepUnder ⟨false⟩ H context s := by
  have hstep : step H context s = (step H context (s.audible ⟨false⟩)).map
      (State.disguised .none id s.notes) (Ending.disguised .none id s.notes) := by
    have hs : (s.audible ⟨false⟩).disguised .none id s.notes = s := by
      rw [state_undisguised]
      exact congrArg (fun notes => { s with notes }) (List.append_nil s.notes)
    have hdisguised := step_undisguised H.asItIs context s.notes (x := s.audible ⟨false⟩)
      { lone with }
    exact (congrArg (step H context) hs.symm).trans hdisguised
  have hstate : ∀ notes (u : State σ),
      (u.disguised .none id notes).audible ⟨false⟩ = u.audible ⟨false⟩ :=
    fun notes u => by rw [state_undisguised]; rfl
  unfold stepUnder
  rw [hstep]
  cases step H context (s.audible ⟨false⟩) with
  | next u =>
    simp only [Transition.map, hstate]
  | done r =>
    cases r with
    | finished o u => simp only [Transition.map, Ending.disguised, Ending.audible, hstate]; rfl
    | deadlock u => simp only [Transition.map, Ending.disguised, Ending.audible, hstate]

/-- A state of a run that drives something: it is one of the first two, in which nothing has
been said, or it has a lone driver. -/
theorem unheard_or_lone {host : σ} {run : Nat} {earlier : List (Nat × Outcome)}
    {program : Value} {trace : Option Trace} {captured : Bool} {s : State σ}
    (h : Transition.Reaches (step H context)
      (State.start host run earlier (.drive program trace captured)) s) :
    s.audible ⟨false⟩ = s ∨ Lone s := by
  let start : State σ := State.start host run earlier (.drive program trace captured)
  have hfirst : step H context start = .next { start with batch := 1 } := rfl
  have hsecond : step H context { start with batch := 1 } =
      .next (beginDrive H (atOutset host run earlier) 0 program trace captured) := rfl
  rcases h.cases_of_next hfirst with rfl | hlater
  · exact .inl rfl
  rcases hlater.cases_of_next hsecond with rfl | hlatest
  · exact .inl rfl
  have hsteady : Steady (beginDrive H (atOutset host run earlier) 0 program trace captured) :=
    steady_of_reaches (.head hfirst (.head hsecond (.refl _))) (lone_beginDrive H ..)
  exact .inr (hlatest.invariant (P := Steady) (fun _ _ hs => hs.next) hsteady).lone

end EventLoop

open EventLoop

/-- Runs an errand on a new loop, with the notes that the settings let through. -/
def Arena.runUnder {σ : Type} (settings : Settings) (A : Arena) (H : Host σ) (errand : Errand)
    (host : σ) : Option (Ending σ) :=
  Transition.runFor (stepUnder settings H A.context) A.fuel
    (State.start host A.number A.earlier errand)

section

variable {σ : Type} (settings : Settings) (A : Arena) (H : Host σ) (program : Value) (host : σ)

/-- **Whatever is let through, a run comes to the same end in the same way.** -/
theorem Arena.runUnder_eq (trace : Option Trace) (captured : Bool) :
    A.runUnder settings H (.drive program trace captured) host =
      (A.run H (.drive program trace captured) host).map (Ending.audible settings) := by
  let start : State σ := State.start host A.number A.earlier (.drive program trace captured)
  have hstep : ∀ s, Transition.Reaches (step H A.context) start s →
      stepUnder settings H A.context (s.audible settings) =
        (step H A.context s).map (State.audible settings) (Ending.audible settings) := by
    intro s hs
    obtain ⟨_ | _⟩ := settings
    · rcases unheard_or_lone hs with hsilent | hlone
      · rw [hsilent]
        rfl
      · exact step_unheard H A.context hlone
    · rfl
  have hstart : start.audible settings = start := by
    obtain ⟨_ | _⟩ := settings <;> rfl
  unfold Arena.runUnder
  show Transition.runFor _ A.fuel start = _
  rw [← hstart]
  exact Transition.runFor_map_of_kept (P := Transition.Reaches (step H A.context) start)
    (fun _ _ hs hnext => hs.tail hnext) hstep A.fuel (.refl start)

/-- Drives a computation under the settings, capturing its outcome and its trace. -/
def Interpreter.runUnder (I : Interpreter) : Finished σ RunResult :=
  conclude (fun s v => (s.result? 0).getD ⟨.ok v, I.newTrace⟩) host
    (A.runUnder settings H (.drive program (some I.newTrace) true) host)

/-- Drives a computation under the settings. -/
def Arena.driveUnder : Finished σ Value :=
  conclude (fun _ v => v) host (A.runUnder settings H (.drive program none false) host)

end

/-- The end of a run is read off in the same way whatever is let through. -/
theorem conclude_audible {σ α : Type} (settings : Settings) (read : State σ → Value → α)
    (hread : ∀ s v, read (s.audible settings) v = read s v) (host : σ) (r : Option (Ending σ)) :
    conclude read host (r.map (Ending.audible settings)) =
      { conclude read host r with notes := settings.audible (conclude read host r).notes } := by
  rcases r with _ | ⟨_ | v, s⟩ | s
  · obtain ⟨_ | _⟩ := settings <;> rfl
  · rfl
  · simp only [Option.map_some, Ending.audible, conclude, hread]
    rfl
  · rfl

/-- At the end of a run the driver has said what there is to say of it. -/
theorem logged_of_run {σ α : Type} (A : Arena) (H : Host σ) (errand : Errand) (host : σ)
    (read : State (σ × List Act) → Value → α) :
    let f := conclude read (host, []) (A.run H.recorded errand (host, []))
    driverNotes f.notes = f.host.2.flatMap Act.notes := by
  cases hrun : A.run H.recorded errand (host, []) with
  | none => rfl
  | some r =>
    obtain ⟨s, hreach, hdone⟩ := Transition.exists_runFor_iff.1 ⟨_, hrun⟩
    have hlogged : Logged s := logged_of_reaches hreach
    obtain ⟨-, ⟨o, rfl, -⟩ | ⟨rfl, -⟩⟩ := ends_of_main (main_of_reaches hreach) hdone
    · cases o <;> exact hlogged
    · exact hlogged

/-- **The log mirrors the run.**  Whatever is driven, by whatever driver, the notes of the
driver are in every state of the loop, and at the end, those that the transcript of the host
calls for, in order.  The effects among them are those of a trace without a bound.  And with
the notes or without them, a run has the same verdict and trace and leaves the host in the same
state, so that the programs are asked the same. -/
theorem Interpreter.log_mirrors_run {σ : Type} (I : Interpreter) (A : Arena) (H : Host σ)
    (program : Value) (host : σ) :
    let run := I.run A H.recorded program (host, [])
    let driven := A.drive H.recorded program (host, [])
    let uncapped := Interpreter.run ⟨.unbounded⟩ A H.recorded program (host, [])
    (∀ trace captured s, Transition.Reaches (step H.recorded A.context)
        (State.start (host, []) A.number A.earlier (.drive program trace captured)) s →
      driverNotes s.notes = s.host.2.flatMap Act.notes) ∧
    driverNotes run.notes = run.host.2.flatMap Act.notes ∧
    driverNotes driven.notes = driven.host.2.flatMap Act.notes ∧
    (∀ result, uncapped.verdict = .ok result →
      uncapped.notes.filterMap Note.effect? =
        result.trace.log.entries.map Record.descriptor) ∧
    ∀ settings : Settings,
      I.runUnder settings A H program host =
        { I.run A H program host with
          notes := settings.audible (I.run A H program host).notes } ∧
      A.driveUnder settings H program host =
        { A.drive H program host with
          notes := settings.audible (A.drive H program host).notes } := by
  intro run driven uncapped
  refine ⟨fun _ _ s hs => logged_of_reaches hs, logged_of_run A H _ host _,
    logged_of_run A H _ host _, fun result hresult => ?_, fun settings => ⟨?_, ?_⟩⟩
  · have hrecorded := Interpreter.recorded_of_run A H program host hresult
    have hlogged : driverNotes uncapped.notes = uncapped.host.2.flatMap Act.notes :=
      logged_of_run A H _ host _
    calc uncapped.notes.filterMap Note.effect?
        = (driverNotes uncapped.notes).filterMap Note.effect? :=
          (filterMap_effect_driverNotes _).symm
      _ = (uncapped.host.2.flatMap Act.notes).filterMap Note.effect? := by rw [hlogged]
      _ = (yields uncapped.host.2).filterMap fun y => (Descriptor.parse y.item).toOption :=
          effects_of_notes _
      _ = result.trace.log.entries.map Record.descriptor :=
          descriptors_of_transcribes hrecorded.entries
  · unfold Interpreter.runUnder Interpreter.run
    rw [Arena.runUnder_eq]
    exact conclude_audible settings _ (fun _ _ => rfl) host _
  · unfold Arena.driveUnder Arena.drive
    rw [Arena.runUnder_eq]
    exact conclude_audible settings _ (fun _ _ => rfl) host _

/-- The driver says five things: the inner computation was yielded, what it yielded was refused,
its effect was asked for and failed, and the outer one asked for a group. -/
theorem travel_is_logged :
    let host := traveller.programs.host .barren
    let uncapped := Interpreter.run ⟨.unbounded⟩ travelArena host.recorded (.computation 0)
      (departure, [])
    (∃ s, Transition.Reaches (step host.recorded travelArena.context)
        (State.start (departure, []) 0 [] (.drive (.computation 0) none false)) s ∧
      s.notes = [.nested (.computation 1)] ∧
      driverNotes s.notes = s.host.2.flatMap Act.notes) ∧
    ∃ result, uncapped.verdict = .ok result ∧
      (driverNotes uncapped.notes).length = 5 ∧ result.trace.log.entries.length = 2 ∧
      uncapped.notes.filterMap Note.effect? = result.trace.log.entries.map Record.descriptor :=
  let mirrored := Interpreter.log_mirrors_run ⟨.unbounded⟩ travelArena
    (traveller.programs.host .barren) (.computation 0) departure
  have reached := .head rfl (.head rfl (.head rfl (.refl _)))
  ⟨⟨_, reached, rfl, mirrored.1 none false _ reached⟩,
    _, rfl, rfl, rfl, mirrored.2.2.2.1 _ rfl⟩

end DescribedEffects
