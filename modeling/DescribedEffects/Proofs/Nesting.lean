import DescribedEffects.Proofs.Agreement
import DescribedEffects.Proofs.Driving.InPlace
import DescribedEffects.Proofs.EventLoop.Tandem
import DescribedEffects.Proofs.Harness.Tandem

/-!
# Nesting is transparent

A computation may yield other computations, to any depth.  Its flattening runs them in place
instead and yields nothing but items (`Behaviour.Flattens`).  Driven in the same world
against the same context, the two come to the same verdict with the same effects and the same
trace, whatever its bound; and under test they have the same outcome and meet the same
expectations (`nesting_is_transparent`).

Inner computations must end with exceptions that ordinary handlers take, and a test must not
come up with a verdict.  Without the first the driver would not tell the outer computation,
and a verdict closes computations, which run what they have left to do then: the two would
be closed at different depths.

That the nested computation does whatever its flattening does needs `Behaviour.Settles`: a
chain of computations that begin one another for ever never comes to an item, and no
resumption of a single computation stands for it.
-/

namespace DescribedEffects

open Harness (cautious cautiousHost cautiousStart failing)

variable {P P' W S T : Type}

/-! ## What runs come to -/

section

variable (C : Programs P) (V : World W) (A : Arena) (g : Nat) (host : P × Site W)

/-- With steps enough, a run on a loop comes to a verdict and shows these events. -/
def RunsTo {α : Type} (trace : Option Trace) (captured : Bool)
    (finished : Arena → Finished (P × Site W) α) (events : List Event) (w : Verdict α) : Prop :=
  ∃ fuel r, Arena.run { A with fuel } (C.host V) (.drive (.computation g) trace captured) host =
      some r ∧
    Transition.Ends (EventLoop.step (C.host V) A.context) (EventLoop.shows C)
      (A.opened trace captured g host) events r ∧
    (finished { A with fuel }).verdict = w

/-- Driving a computation comes to a verdict and shows these events. -/
def DrivesTo : List Event → Verdict Value → Prop :=
  RunsTo C V A g host none false fun A => A.drive (C.host V) (.computation g) host

/-- Interpreting a computation comes to a verdict, the trace included, and shows these
events. -/
def InterpretsTo (I : Interpreter) : List Event → Verdict RunResult → Prop :=
  RunsTo C V A g host (some I.newTrace) true fun A => I.run A (C.host V) (.computation g) host

/-- What can be said of a test that is over. -/
structure Judgement where
  outcome : Outcome
  consumed : Nat
  pending : List Expectation

/-- How a test ended, without what it left of its host. -/
def Harness.Ending.judgement {σ : Type} (r : Harness.Ending σ) : Judgement :=
  ⟨r.outcome, r.consumed, r.pending⟩

/-- With steps enough, a test without verdicts on the way is judged so and shows these
events. -/
def TestsTo (entries : Value) (strict matchArgs : Bool) (events : List Event) (w : Judgement) :
    Prop :=
  Calm events ∧ ∃ fuel r, Tests C V fuel entries g strict matchArgs host events r ∧
    r.judgement = w

end

/-- What the one run comes to the other one comes to as well, and the same effects have the
same outcomes. -/
def Mirrors {α : Type} (X Y : List Event → α → Prop) : Prop :=
  ∀ events w, X events w → ∃ events', Y events' w ∧ exchanges events' = exchanges events

/-! ## The same verdicts -/

section

variable {C : Programs P} {C' : Programs P'} {V : World W} {M : Solo P → Solo P' → Prop}
  {A : Arena} {g g' : Nat} {p : P} {p' : P'} {site : Site W}

/-- What a task that drove a computation reports does not depend on the computations. -/
@[simp] theorem EventLoop.result?_amid {σ τ : Type} (v : τ → σ) (notes : List Note) (a : List Nat)
    (x : EventLoop.State τ) (t : Nat) : (x.amid v notes a).result? t = x.result? t := by
  unfold EventLoop.State.result?
  rw [EventLoop.getElem?_tasks_amid]
  rcases x.tasks[t]? with _ | ⟨phase, promise⟩
  · rfl
  · cases phase <;> rfl

/-- What is read off a loop that has ended depends on nothing but the loop. -/
def ReadsAlike {α : Type} (read : EventLoop.State (P × Site W) → Value → α)
    (read' : EventLoop.State (P' × Site W) → Value → α) : Prop :=
  ∀ (x : EventLoop.State (Site W)) p a p' a' notes notes' v,
    read (x.amid (Prod.mk p) notes a) v = read' (x.amid (Prod.mk p') notes' a') v

theorem readsAlike_value :
    ReadsAlike (fun (_ : EventLoop.State (P × Site W)) (v : Value) => v)
      (fun (_ : EventLoop.State (P' × Site W)) (v : Value) => v) := fun _ _ _ _ _ _ _ _ => rfl

/-- What an interpreter reads off a loop depends on nothing but the loop. -/
theorem readsAlike_result (I : Interpreter) :
    ReadsAlike
      (fun (s : EventLoop.State (P × Site W)) v => (s.result? 0).getD ⟨.ok v, I.newTrace⟩)
      (fun (s : EventLoop.State (P' × Site W)) v => (s.result? 0).getD ⟨.ok v, I.newTrace⟩) := by
  intro x p a p' a' notes notes' v
  simp only [EventLoop.result?_amid]

variable {α : Type} {read : EventLoop.State (P × Site W) → Value → α}
  {read' : EventLoop.State (P' × Site W) → Value → α}

/-- Alike endings have one verdict. -/
theorem verdict_of_alike (reads : ReadsAlike read read') {r : EventLoop.Ending (P × Site W)}
    {r' : EventLoop.Ending (P' × Site W)} (h : r.Alike r') (host : P × Site W)
    (host' : P' × Site W) : (EventLoop.conclude read host (some r)).verdict =
      (EventLoop.conclude read' host' (some r')).verdict := by
  obtain ⟨x, p, a, p', a', notes, notes', rfl, rfl⟩ := h
  cases x with
  | finished o x =>
    cases o with
    | ok v => exact congrArg Except.ok (reads x p a p' a' notes notes' v)
    | error e => rfl
  | deadlock x => rfl

variable {trace : Option Trace} {captured : Bool} {host : P × Site W} {events : List Event}

/-- A run that ends comes to its verdict. -/
theorem runsTo_of_ends {r : EventLoop.Ending (P × Site W)}
    (ends : Transition.Ends (EventLoop.step (C.host V) A.context) (EventLoop.shows C)
      (A.opened trace captured g host) events r) :
    RunsTo C V A g host trace captured (fun A => EventLoop.conclude read host
        (A.run (C.host V) (.drive (.computation g) trace captured) host)) events
      (EventLoop.conclude read host (some r)).verdict := by
  obtain ⟨fuel, hrun⟩ := (Transition.exists_ends_iff (EventLoop.shows C)).2 ⟨events, ends⟩
  have hrun : Arena.run { A with fuel } (C.host V) (.drive (.computation g) trace captured) host =
      some r := hrun
  exact ⟨fuel, r, hrun, ends, congrArg (fun r => (EventLoop.conclude read host r).verdict) hrun⟩

/-- **Runs that end alike, whatever they show of the computations, mirror each other.** -/
theorem mirrors_of_alike {host' : P' × Site W} (reads : ReadsAlike read read')
    (h : ∀ events r, Transition.Ends (EventLoop.step (C.host V) A.context) (EventLoop.shows C)
        (A.opened trace captured g host) events r →
      ∃ events' r', Transition.Ends (EventLoop.step (C'.host V) A.context) (EventLoop.shows C')
        (A.opened trace captured g' host') events' r' ∧
          exchanges events' = exchanges events ∧ r.Alike r') :
    Mirrors
      (RunsTo C V A g host trace captured fun A => EventLoop.conclude read host
        (A.run (C.host V) (.drive (.computation g) trace captured) host))
      (RunsTo C' V A g' host' trace captured fun A => EventLoop.conclude read' host'
        (A.run (C'.host V) (.drive (.computation g') trace captured) host')) := by
  rintro events w ⟨fuel, r, hrun, ends, hw⟩
  obtain ⟨events', r', ends', hexchanges, halike⟩ := h events r ends
  have hw : (EventLoop.conclude read host (some r)).verdict = w := by
    rw [← hrun]
    exact hw
  rw [← hw, verdict_of_alike reads halike host host']
  exact ⟨events', runsTo_of_ends ends', hexchanges⟩

end

/-! ## Runs in tandem -/

section

variable {C : Programs P} {C' : Programs P'} {V : World W} {M : Solo P → Solo P' → Prop}
  {A : Arena} {g g' : Nat} {p : P} {p' : P'} {site : Site W}

/-- Outside of computations the events are the same. -/
theorem exchanges_of_untold {es fs : List Event} (h : untold fs = outward es) :
    exchanges fs = exchanges es := by
  rw [← exchanges_untold, h, exchanges_outward]

/-- **A stack and its single computation are driven alike.** -/
theorem mirrors_of_tandem (h : Tandem C C' M)
    (hq : M ⟨p, [g], .send .null⟩ ⟨p', [g'], .send .null⟩) {α : Type}
    {read : EventLoop.State (P × Site W) → Value → α}
    {read' : EventLoop.State (P' × Site W) → Value → α} (reads : ReadsAlike read read')
    {trace : Option Trace} {captured : Bool}
    (tame : Tame ExnOf.isOrdinary (EventLoop.step (C.host V) A.context) (EventLoop.shows C)
      (A.opened trace captured g (p, site))) :
    Mirrors
        (RunsTo C V A g (p, site) trace captured fun A => EventLoop.conclude read (p, site)
          (A.run (C.host V) (.drive (.computation g) trace captured) (p, site)))
        (RunsTo C' V A g' (p', site) trace captured fun A => EventLoop.conclude read' (p', site)
          (A.run (C'.host V) (.drive (.computation g') trace captured) (p', site))) ∧
      (Pausing C M → Mirrors
        (RunsTo C' V A g' (p', site) trace captured fun A => EventLoop.conclude read' (p', site)
          (A.run (C'.host V) (.drive (.computation g') trace captured) (p', site)))
        (RunsTo C V A g (p, site) trace captured fun A => EventLoop.conclude read (p, site)
          (A.run (C.host V) (.drive (.computation g) trace captured) (p, site)))) := by
  refine ⟨mirrors_of_alike reads fun events r ends => ?_, fun pausing =>
    mirrors_of_alike (fun x p a p' a' notes notes' v => (reads x p' a' p a notes' notes v).symm)
      fun events r ends => ?_⟩
  · obtain ⟨events', r', ends', hevents, halike⟩ := EventLoop.single_of_start h hq tame ends
    exact ⟨events', r', ends', exchanges_of_untold hevents, halike⟩
  · obtain ⟨events', r', ends', hevents, halike⟩ :=
      EventLoop.start_of_single h pausing hq tame ends
    obtain ⟨x, p, a, p', a', notes, notes', hr', hr⟩ := halike
    exact ⟨events', r', ends', (exchanges_of_untold hevents).symm,
      x, p', a', p, a, notes', notes, hr, hr'⟩

/-- Tests that ended alike are judged alike. -/
theorem judgement_of_alike (strict : Bool) {r : Harness.Ending (P × Site W)}
    {r' : Harness.Ending (P' × Site W)} (h : r.Alike r') :
    (Harness.judge (C.host V) strict r).judgement =
      (Harness.judge (C'.host V) strict r').judgement := by
  obtain ⟨o, p, p', k, rfl, rfl⟩ := h
  cases o with
  | error e => rfl
  | ok v =>
    unfold Harness.judge Harness.ending
    dsimp only
    split <;> rfl

/-- **A stack and its single computation are tested alike.** -/
theorem tests_of_tandem (h : Tandem C C' M)
    (hq : M ⟨p, [g], .send .null⟩ ⟨p', [g'], .send .null⟩) {entries : List Value}
    {E : List Expectation} (read : entries.mapM ExpectationOf.coerce = .ok E) (strict : Bool)
    {matchArgs : Bool}
    (tame : Tame Harness.isDeliverable (Harness.step (C.host V) matchArgs)
      (Harness.shows C V matchArgs) (Harness.start (p, site) g E)) :
    Mirrors (TestsTo C V g (p, site) (.list entries) strict matchArgs)
        (TestsTo C' V g' (p', site) (.list entries) strict matchArgs) ∧
      (Pausing C M → Mirrors (TestsTo C' V g' (p', site) (.list entries) strict matchArgs)
        (TestsTo C V g (p, site) (.list entries) strict matchArgs)) := by
  have hgathers := Harness.gathers_list (H := C.host V) (p, site) read
  have hgathers' := Harness.gathers_list (H := C'.host V) (p', site) read
  refine ⟨?_, fun pausing => ?_⟩
  · rintro events w ⟨calm, fuel, r, htests, rfl⟩
    obtain ⟨r₀, ends, rfl⟩ := htests.ends hgathers
    have hpassed := (tame_iff_of_ends ends).1 tame
    obtain ⟨events', r', ends', hevents, halike⟩ := Harness.single_of_test h
      (k := ⟨site, E, 0, []⟩) hq ends
      calm fun e he => (Bool.and_eq_true_iff.1 (hpassed e he)).1
    obtain ⟨fuel', htests'⟩ := exists_tests strict hgathers' ends'
    exact ⟨events', ⟨calm_untold.1 (hevents ▸ calm.outward), fuel', _, htests',
      (judgement_of_alike strict halike).symm⟩, exchanges_of_untold hevents⟩
  · rintro events' w ⟨calm, fuel, r, htests, rfl⟩
    obtain ⟨r₀, ends, rfl⟩ := htests.ends hgathers'
    obtain ⟨events, r, ends', hevents, halike⟩ := Harness.test_of_single h pausing
      (k := ⟨site, E, 0, []⟩) hq ends
      calm tame
    obtain ⟨fuel', htests'⟩ := exists_tests strict hgathers ends'
    have hpassed := (tame_iff_of_ends ends').1 tame
    have hcalm := calm_of_outward (hevents ▸ calm_untold.2 calm) fun e he =>
      (Bool.and_eq_true_iff.1 (hpassed e he)).2
    exact ⟨events, ⟨hcalm, fuel', _, htests', judgement_of_alike strict halike⟩,
      (exchanges_of_untold hevents).symm⟩

end

/-! ## Nesting -/

namespace Behaviour

/-- **Nesting is transparent.**  Every behaviour has a flattening, and whatever flattening is
taken, a computation that yields others, which end with ordinary exceptions only, comes to the
same as its flattening:

* driven in any world, it has the same value or exception, and the same effects have the same
  outcomes in the same order;
* interpreted, it has the same outcome and the same trace, whatever bound the trace has;
* under test, in a run without verdicts, it has the same outcome and meets as many of the
  expectations.

The flattening comes to nothing else either, as far as running in place always comes to
something. -/
theorem nesting_is_transparent (B : Behaviour S) :
    (∃ F : Behaviour (List S), B.Flattens F Eq) ∧
    ∀ (T : Type) (F : Behaviour T) (R : List S → T → Prop), B.Flattens F R → ∀ s t, R [s] t →
      ∀ (W : Type) (V : World W) (site : Site W),
      (∀ A : Arena, Tame ExnOf.isOrdinary (EventLoop.step (B.programs.host V) A.context)
          (EventLoop.shows B.programs) (A.opened none false 0 (.single s, site)) →
        Mirrors (DrivesTo B.programs V A 0 (.single s, site))
            (DrivesTo F.programs V A 0 (.single t, site)) ∧
          (B.Settles R → Mirrors (DrivesTo F.programs V A 0 (.single t, site))
            (DrivesTo B.programs V A 0 (.single s, site)))) ∧
      (∀ (A : Arena) (I : Interpreter),
        Tame ExnOf.isOrdinary (EventLoop.step (B.programs.host V) A.context)
          (EventLoop.shows B.programs) (A.opened (some I.newTrace) true 0 (.single s, site)) →
        Mirrors (InterpretsTo B.programs V A 0 (.single s, site) I)
            (InterpretsTo F.programs V A 0 (.single t, site) I) ∧
          (B.Settles R → Mirrors (InterpretsTo F.programs V A 0 (.single t, site) I)
            (InterpretsTo B.programs V A 0 (.single s, site) I))) ∧
      ∀ (entries : List Value) (E : List Expectation) (strict matchArgs : Bool),
        entries.mapM ExpectationOf.coerce = .ok E →
        Tame Harness.isDeliverable (Harness.step (B.programs.host V) matchArgs)
          (Harness.shows B.programs V matchArgs) (Harness.start (.single s, site) 0 E) →
        Mirrors (TestsTo B.programs V 0 (.single s, site) (.list entries) strict matchArgs)
            (TestsTo F.programs V 0 (.single t, site) (.list entries) strict matchArgs) ∧
          (B.Settles R →
            Mirrors (TestsTo F.programs V 0 (.single t, site) (.list entries) strict matchArgs)
              (TestsTo B.programs V 0 (.single s, site) (.list entries) strict matchArgs)) := by
  refine ⟨exists_flattens B, fun T F R flat s t related W V site => ?_⟩
  have htandem := tandem_of_flattens flat
  have hsingle := midway_single (B := B) related
  refine ⟨fun A tame => ?_, fun A I tame => ?_, fun entries E strict matchArgs read tame => ?_⟩
  · obtain ⟨hforth, hback⟩ := mirrors_of_tandem htandem hsingle
      readsAlike_value tame
    exact ⟨hforth, fun settles => hback (pausing_of_settles settles)⟩
  · obtain ⟨hforth, hback⟩ := mirrors_of_tandem htandem hsingle (readsAlike_result I) tame
    exact ⟨hforth, fun settles => hback (pausing_of_settles settles)⟩
  · obtain ⟨hforth, hback⟩ := tests_of_tandem htandem hsingle read strict tame
    exact ⟨hforth, fun settles => hback (pausing_of_settles settles)⟩

end Behaviour

/-! ## A computation that delegates -/

/-- Where a computation stands that has another one yield its effect. -/
inductive Delegating where
  | outer
  | inner
  | asked
  | waiting

/-- The outer computation handles whatever the inner one raises. -/
def delegating : Behaviour Delegating where
  resume
    | .outer, .send _ => .nested .inner .waiting
    | .inner, .send _ => .listed [.text "a"] .asked
    | .asked, .send v => .returned v
    | .asked, .throw _ => .raised refusal rfl
    | .waiting, .send v => .returned v
    | .waiting, .throw _ => .returned (.text "caught")
    | _, .throw _ => .returned .null

/-- The cautious computation is its flattening. -/
inductive Delegates : List Delegating → Harness.Cautious → Prop
  | begun : Delegates [.outer] .begun
  | waiting : Delegates [.asked, .waiting] .waiting

/-- What running in place comes to. -/
theorem inPlace_delegating {stack : List Delegating} {t : Harness.Cautious}
    (h : Delegates stack t) (signal : Signal) :
    ∃ m, delegating.InPlace stack signal m ∧
      Behaviour.Same Delegates m (cautious.resume t signal) := by
  cases h with
  | begun =>
    cases signal with
    | send v => exact ⟨_, ⟨2, rfl⟩, .yielded _ _ .waiting⟩
    | throw e => exact ⟨_, ⟨1, rfl⟩, .returned _⟩
  | waiting =>
    cases signal with
    | send v => exact ⟨_, ⟨2, rfl⟩, .returned _⟩
    | throw e => exact ⟨_, ⟨2, rfl⟩, .returned _⟩

theorem flattens_delegating : delegating.Flattens cautious Delegates := by
  intro stack t h signal m hm
  obtain ⟨m', hm', hsame⟩ := inPlace_delegating h signal
  rwa [hm.unique hm']

theorem settles_delegating : delegating.Settles Delegates := by
  intro stack t h signal
  obtain ⟨m, hm, -⟩ := inPlace_delegating h signal
  exact ⟨m, hm⟩

/-- The delegating computation before it is resumed. -/
def delegatingStart : Computations Delegating × Site Unit := (.single .outer, ⟨(), 0, 0⟩)

/-- What it shows when its effect fails. -/
def delegatingEvents : List Event :=
  [.told 0 (.send .null), .told 1 (.send .null),
    .answered ⟨.direct, [.text "a"], [], none⟩ (.error refusal), .told 1 (.throw refusal),
    .passed refusal, .told 0 (.throw refusal)]

/-- What is left between computations is ordinary, and no verdict. -/
theorem deliverable_delegating (e : Exn) (h : .passed e ∈ delegatingEvents) :
    Harness.isDeliverable e = true := by
  simp only [delegatingEvents, List.mem_cons, reduceCtorEq, Event.passed.injEq, false_or, or_false,
    List.not_mem_nil] at h
  subst h
  rfl

/-- The cautious computation is driven, interpreted with a trace that keeps one effect, and
tested as the delegating one is, and the delegating one is driven as the cautious one is. -/
theorem delegation_is_transparent :
    (∃ es, DrivesTo cautious.programs (.failing refusal) cautiousArena 0 cautiousStart es
        (.ok (.text "caught")) ∧ exchanges es = exchanges delegatingEvents) ∧
      (∃ es trace, InterpretsTo cautious.programs (.failing refusal) cautiousArena 0 cautiousStart
        ⟨.most 1⟩ es (.ok ⟨.ok (.text "caught"), trace⟩) ∧
          trace.exchanges = exchanges delegatingEvents) ∧
      (∃ es, TestsTo cautious.programs .barren 0 cautiousStart
        (.list ((failing refusal).map .expectation)) true true es
          ⟨.ok (.text "caught"), 1, []⟩) ∧
      Mirrors
        (DrivesTo cautious.programs (.failing refusal) cautiousArena 0 cautiousStart)
        (DrivesTo delegating.programs (.failing refusal) cautiousArena 0 delegatingStart) := by
  obtain ⟨-, hflat⟩ := Behaviour.nesting_is_transparent delegating
  have hfailing := hflat _ cautious Delegates flattens_delegating _ _ .begun Unit
    (.failing refusal) ⟨(), 0, 0⟩
  have hbarren := hflat _ cautious Delegates flattens_delegating _ _ .begun Unit .barren ⟨(), 0, 0⟩
  have hordinary : ∀ e, .passed e ∈ delegatingEvents → e.isOrdinary = true := fun e he =>
    (Bool.and_eq_true_iff.1 (deliverable_delegating e he)).1
  have hends : Transition.Ends
      (EventLoop.step (delegating.programs.host (.failing refusal)) cautiousArena.context)
      (EventLoop.shows delegating.programs) (cautiousArena.opened none false 0 delegatingStart)
      delegatingEvents _ :=
    .more rfl (.more rfl (.more rfl (.more rfl (.more rfl (.more rfl (.more rfl (.more rfl
      (.more rfl (.more rfl (.last rfl))))))))))
  obtain ⟨hmirrors, hback⟩ := hfailing.1 cautiousArena ((tame_iff_of_ends hends).2 hordinary)
  refine ⟨?_, ?_, ?_, hback settles_delegating⟩
  · exact hmirrors delegatingEvents _ ⟨20, _, rfl, hends, rfl⟩
  · have hends : Transition.Ends
        (EventLoop.step (delegating.programs.host (.failing refusal)) cautiousArena.context)
        (EventLoop.shows delegating.programs)
        (cautiousArena.opened (some (Interpreter.newTrace ⟨.most 1⟩)) true 0 delegatingStart)
        delegatingEvents _ :=
      .more rfl (.more rfl (.more rfl (.more rfl (.more rfl (.more rfl (.more rfl (.more rfl
        (.more rfl (.more rfl (.last rfl))))))))))
    obtain ⟨hmirrors, -⟩ := hfailing.2.1 cautiousArena ⟨.most 1⟩
      ((tame_iff_of_ends hends).2 hordinary)
    obtain ⟨es, hes, -⟩ := hmirrors delegatingEvents (.ok ⟨.ok (.text "caught"), _⟩)
      ⟨20, _, rfl, hends, rfl⟩
    exact ⟨es, _, hes, rfl⟩
  · have hends : Transition.Ends (Harness.step (delegating.programs.host .barren) true)
        (Harness.shows delegating.programs .barren true)
        (Harness.start delegatingStart 0 (failing refusal)) delegatingEvents _ :=
      .more rfl (.more rfl (.more rfl (.more rfl (.last rfl))))
    have hread : ((failing refusal).map .expectation).mapM ExpectationOf.coerce =
        .ok (failing refusal) := rfl
    obtain ⟨hmirrors, -⟩ := hbarren.2.2 _ _ true true hread
      ((tame_iff_of_ends hends).2 deliverable_delegating)
    have hcalm : Calm delegatingEvents :=
      calm_cons.2 ⟨rfl, calm_cons.2 ⟨rfl, calm_cons.2 ⟨rfl, calm_cons.2 ⟨rfl, calm_cons.2 ⟨rfl,
        calm_cons.2 ⟨rfl, calm_nil⟩⟩⟩⟩⟩⟩
    obtain ⟨es, hes, -⟩ := hmirrors delegatingEvents ⟨.ok (.text "caught"), 1, []⟩
      ⟨hcalm, 20, _, ⟨rfl, _, _, _, Harness.gathers_list _ hread, hends⟩, rfl⟩
    exact ⟨es, hes⟩

end DescribedEffects
