import DescribedEffects.Interpreter
import DescribedEffects.Proofs.EventLoop.Dialogues
import DescribedEffects.Proofs.Harness.Failures
import DescribedEffects.Proofs.Harness.Scripted
import DescribedEffects.Proofs.Value.Sameness

/-!
# The driver and the harness

A computation that is driven and the same computation under test are in dialogue with
different partners: the one answers with what effects have for outcomes in the loop, the
other with what expectations say.  If the answers are the same, so are the dialogues, and
everything that can be seen of the computation is the same in both: who is told what, in
which order, what inner computations leave to outer ones, and the outcome.

There is one exception.  A verdict of the harness is recognised by its kind alone.  When the
computation itself, or one of its effects, comes up with such an exception, the driver tells
it to the computation that is waiting for an answer; the harness does not.  `Calm` says that
this does not happen, and `runs_agree_iff_calm` that the two runs agree exactly then.
-/

namespace DescribedEffects

open Harness (cautious cautiousHost cautiousStart failing)

variable {P W W' : Type}

/-- What an operation comes to when it comes to an outcome. -/
def verdictOf (o : Outcome) : Verdict Value := o.mapError .raised

/-- The loop that is about to drive a computation. -/
def Arena.opened {σ : Type} (A : Arena) (trace : Option Trace) (captured : Bool) (g : Nat)
    (host : σ) : EventLoop.State σ :=
  .start host A.number A.earlier (.drive (.computation g) trace captured)

/-- Driving a computation comes to an outcome and shows these events on the way. -/
structure Drives (C : Programs P) (V : World W) (A : Arena) (g : Nat) (host : P × Site W)
    (events : List Event) (o : Outcome) : Prop where
  verdict : (A.drive (C.host V) (.computation g) host).verdict = verdictOf o
  run : ∃ s, Transition.Ends (EventLoop.step (C.host V) A.context) (EventLoop.shows C)
    (A.opened none false g host) events (.finished o s)

/-- Interpreting a computation comes to a result and shows these events on the way. -/
structure Interprets (C : Programs P) (V : World W) (I : Interpreter) (A : Arena) (g : Nat)
    (host : P × Site W) (events : List Event) (result : RunResult) : Prop where
  verdict : (I.run A (C.host V) (.computation g) host).verdict = .ok result
  run : ∃ o s, Transition.Ends (EventLoop.step (C.host V) A.context) (EventLoop.shows C)
    (A.opened (some I.newTrace) true g host) events (.finished o s)

/-- A test has an answer and shows these events on the way. -/
structure Tests (C : Programs P) (V : World W) (fuel : Nat) (entries : Value) (g : Nat)
    (strict matchArgs : Bool) (host : P × Site W) (events : List Event)
    (r : Harness.Ending (P × Site W)) : Prop where
  answer : Harness.runTest (C.host V) fuel entries (.computation g) strict matchArgs host = some r
  run : ∃ E host' r₀, Harness.Gathers (C.host V) entries host E host' ∧
    Transition.Ends (Harness.step (C.host V) matchArgs) (Harness.shows C V matchArgs)
      (Harness.start host' g E) events r₀

section

variable {C : Programs P} {V : World W} {A : Arena} {g : Nat} {host : P × Site W}
  {events : List Event} {o : Outcome}

/-- A run of the loop that ends is a run for some number of steps. -/
theorem exists_drives {s : EventLoop.State (P × Site W)}
    (h : Transition.Ends (EventLoop.step (C.host V) A.context) (EventLoop.shows C)
      (A.opened none false g host) events (.finished o s)) :
    ∃ fuel, Drives C V { A with fuel } g host events o := by
  obtain ⟨fuel, hrun⟩ := (Transition.exists_ends_iff (EventLoop.shows C)).2 ⟨events, h⟩
  refine ⟨fuel, ?_, s, h⟩
  have hdrive : Arena.run { A with fuel } (C.host V) (.drive (.computation g) none false) host =
      some (.finished o s) := hrun
  unfold Arena.drive
  rw [hdrive]
  cases o <;> rfl

/-- A run of the harness that ends is a test with some number of steps. -/
theorem exists_tests {entries : Value} (strict : Bool) {matchArgs : Bool} {E : List Expectation}
    {host' : P × Site W} {r₀ : Harness.Ending (P × Site W)}
    (gathered : Harness.Gathers (C.host V) entries host E host')
    (h : Transition.Ends (Harness.step (C.host V) matchArgs) (Harness.shows C V matchArgs)
      (Harness.start host' g E) events r₀) :
    ∃ fuel, Tests C V fuel entries g strict matchArgs host events
      (Harness.judge (C.host V) strict r₀) := by
  obtain ⟨n, hrun⟩ := (Transition.exists_ends_iff (Harness.shows C V matchArgs)).2 ⟨events, h⟩
  obtain ⟨fuel, hfuel⟩ :=
    (Harness.exists_runTest_iff gathered).2 ⟨n, r₀, hrun, rfl⟩
  exact ⟨fuel, hfuel, E, host', r₀, gathered, h⟩

end

/-! ## The dialogue of a run -/

/-- The dialogue of a computation with a partner who knows the outcomes of its effects. -/
def Rehearses (C : Programs P) (g : Nat) (p : P) (items : Nat) (events : List Event)
    (o : Outcome) : Prop :=
  ∃ p' n, Transition.Ends (Dialogue.step C .script) (Dialogue.shows C .script)
    ⟨⟨p, [g], .send .null⟩, items, (exchanges events).map Prod.snd⟩ events (.ended o p' ⟨n, []⟩)

section

variable {C : Programs P} {V : World W} {A : Arena} {g : Nat} {p : P} {site : Site W}
  {events : List Event} {o : Outcome} {captured : Bool} {trace : Option Trace}

/-- A computation that is driven to its end has rehearsed. -/
theorem rehearses_of_ends {s : EventLoop.State (P × Site W)} (htrace : EventLoop.Free trace)
    (h : Transition.Ends (EventLoop.step (C.host V) A.context) (EventLoop.shows C)
      (A.opened trace captured g (p, site)) events (.finished o s)) :
    ∃ o', Rehearses C g p site.items events o' ∧
      EventLoop.Concludes captured trace events o' o s := by
  obtain ⟨u, htrail, hsteady, hstage⟩ := EventLoop.opening C V A.context (p, site)
    A.number A.earlier g trace captured
  obtain ⟨ms, rfl, hends⟩ := htrail.rest h
  rcases EventLoop.plays_of_ends V hends hsteady hstage htrace with
    ⟨o', o'', t, hfinished, hplays, hconcludes⟩ | ⟨t, ht⟩
  · cases hfinished
    cases hplays with
    | telling _ _ _ _ p' n ends => exact ⟨o', ⟨p', n, ends⟩, hconcludes⟩
  · cases ht

/-- A rehearsed computation is driven to its end, if its effects have the rehearsed outcomes
in turn. -/
theorem ends_of_rehearses (h : Rehearses C g p site.items events o)
    (turn : EventLoop.ResolvesInTurn C V A.context false (A.opened none false g (p, site))
      ((exchanges events).map Prod.snd)) :
    ∃ s, Transition.Ends (EventLoop.step (C.host V) A.context) (EventLoop.shows C)
      (A.opened none false g (p, site)) events (.finished o s) := by
  obtain ⟨p', n, hends⟩ := h
  obtain ⟨u, htrail, hsteady, hstage⟩ := EventLoop.opening C V A.context (p, site)
    A.number A.earlier g none false
  have hfree : EventLoop.Free none := fun t ht => by cases ht
  obtain ⟨t, ht⟩ :=
    EventLoop.ends_of_dialogue V hends rfl hsteady hfree hstage (turn.later V htrail)
  exact ⟨t, htrail.ends ht⟩

variable {matchArgs : Bool}

/-- A rehearsed computation is tested, if the effects meet the expectations and these say
the rehearsed outcomes. -/
theorem tested_of_rehearses {E : List Expectation} (h : Rehearses C g p site.items events o)
    (calm : Calm events) {V' : World W'} {site' : Site W'} (sameItems : site'.items = site.items)
    (scripted : Scripted V' matchArgs E site'.world (exchanges events)) :
    ∃ r₀, Transition.Ends (Harness.step (C.host V') matchArgs) (Harness.shows C V' matchArgs)
        (Harness.start (p, site') g E) events r₀ ∧
      r₀.outcome = o ∧ r₀.consumed = (exchanges events).length ∧
      r₀.pending = E.drop (exchanges events).length := by
  obtain ⟨p', n, hends⟩ := h
  have hahead : Harness.Ahead V' matchArgs (exchanges events).length
      (E.drop (exchanges events).length) (exchanges events)
      ⟨site.items, (exchanges events).map Prod.snd⟩ ⟨site', E, 0, []⟩ :=
    ⟨sameItems.symm, scripted, rfl, Nat.zero_add _⟩
  obtain ⟨k', hdialogue, hend⟩ :=
    Dialogue.ends_of_agree (Harness.script_agrees V' matchArgs _ _) hends rfl hahead
  obtain ⟨p'', htest⟩ :=
    Harness.ends_of_dialogue C V' hdialogue calm (List.cons_ne_nil _ _) rfl
  exact ⟨Harness.ending o p'' k', htest, rfl, hend.total, hend.left⟩

/-- A computation whose test is calm has rehearsed. -/
theorem rehearses_of_tested {E : List Expectation} {r₀ : Harness.Ending (P × Site W)}
    (h : Transition.Ends (Harness.step (C.host V) matchArgs) (Harness.shows C V matchArgs)
      (Harness.start (p, site) g E) events r₀) (calm : Calm events) :
    Rehearses C g p site.items events r₀.outcome := by
  obtain ⟨o, p', p'', k', rfl, hdialogue⟩ := Harness.dialogue_of_ends C V
    (q := ⟨p, [g], .send .null⟩) (k := ⟨site, E, 0, []⟩) h calm (List.cons_ne_nil _ _)
  obtain ⟨⟨n, outcomes⟩, hends, hitems, houtcomes⟩ :=
    Dialogue.ends_of_agree (Harness.desk_agrees V matchArgs) hdialogue rfl
      (y := ⟨site.items, (exchanges events).map Prod.snd⟩) ⟨rfl, rfl⟩
  obtain rfl : outcomes = [] := houtcomes
  exact ⟨p', n, hends⟩

/-- Nothing that a test shows disturbs a rehearsal. -/
theorem calm_of_tested {E : List Expectation} {host : P × Site W}
    {r₀ : Harness.Ending (P × Site W)}
    (h : Transition.Ends (Harness.step (C.host V) matchArgs) (Harness.shows C V matchArgs)
      (Harness.start host g E) events r₀) {items : Nat} (hr : Rehearses C g p items events o) :
    Calm events := by
  have hspared : Spared events := Harness.spared_of_ends h fun e he => by cases he
  obtain ⟨p', n, hends⟩ := hr
  exact Dialogue.calm_of_told hends (List.cons_ne_nil _ _) rfl hspared

end

/-! ## Replaying a trace -/

/-- The expectation that replays a record: a function that returns the recorded value
whatever it is called with, or the recorded exception. -/
def Record.expected (constant : Value → Value) (r : Record) : Expectation :=
  match r.outcome with
  | .ok v => ⟨.descriptor r.descriptor, constant v, none⟩
  | .error e => ⟨.descriptor r.descriptor, .null, some e⟩

/-- The expectations that replay a trace. -/
def Trace.replayed (constant : Value → Value) (t : Trace) : List Expectation :=
  t.log.entries.map (Record.expected constant)

/-- The effects of a trace, with their outcomes. -/
def Trace.exchanges (t : Trace) : List (Descriptor × Outcome) :=
  t.log.entries.map fun r => (r.descriptor, r.outcome)

/-- Expectations are entries as they are. -/
theorem mapM_coerce (E : List Expectation) :
    (E.map Value.expectation).mapM ExpectationOf.coerce = .ok E := by
  induction E with
  | nil => rfl
  | cons x E ih =>
    rw [List.map_cons, List.mapM_cons, ih]
    rfl

/-- A descriptor is the expected one if it is the very same. -/
theorem ExpectationOf.compare_self {d : Descriptor} {matchArgs : Bool}
    (shaped : matchArgs = false → ∃ s, DescriptorOf.shape d = .ok s) :
    ExpectationOf.compare d d matchArgs = .ok true := by
  unfold ExpectationOf.compare
  cases matchArgs with
  | true => simp [DescriptorOf.same_self]
  | false =>
    obtain ⟨s, hs⟩ := shaped rfl
    rw [hs]
    exact congrArg Except.ok (DescriptorOf.same_self s)

/-- A recorded value is what the function that stands for it returns, whatever it is called
with. -/
def Record.Constant (V : World W) (constant : Value → Value) (r : Record) : Prop :=
  ∀ v, r.outcome = .ok v →
    (constant v).isCallable = true ∧ ∀ args w, (V.call (constant v) args w).1 = .ok v

/-- **The records of a trace, as expectations, are a script of it.** -/
theorem scripted_of_records {V : World W} {matchArgs : Bool} {constant : Value → Value}
    (rs : List Record) (constantly : ∀ r ∈ rs, r.Constant V constant)
    (shaped : matchArgs = false → ∀ r ∈ rs, ∃ s, DescriptorOf.shape r.descriptor = .ok s) (w : W) :
    Scripted V matchArgs (rs.map (Record.expected constant)) w
      (rs.map fun r => (r.descriptor, r.outcome)) := by
  induction rs generalizing w with
  | nil => exact .none [] w
  | cons r rs ih =>
    have hmeets := ExpectationOf.compare_self fun h => shaped h r (List.mem_cons_self ..)
    have hrest := ih (fun r hr => constantly r (List.mem_cons_of_mem _ hr))
      fun h r hr => shaped h r (List.mem_cons_of_mem _ hr)
    have hconstant := constantly r (List.mem_cons_self ..)
    obtain ⟨d, v | v⟩ := r
    · exact .met rfl hmeets rfl (hrest w)
    · obtain ⟨callable, returns⟩ := hconstant v rfl
      have hcall : (Record.expected constant ⟨d, .ok v⟩).response V d w =
          (.ok v, (V.call (constant v) d.args w).2) := by
        have hanswer : ExpectationOf.answer (Record.expected constant ⟨d, .ok v⟩) d =
            .call (constant v) d.args := by
          unfold ExpectationOf.answer Record.expected
          dsimp only
          rw [if_pos callable]
        unfold ExpectationOf.response
        rw [hanswer]
        exact Prod.ext (returns d.args w) rfl
      exact .met rfl hmeets hcall (hrest _)

/-- Without a bound every recorded effect is kept. -/
theorem foldl_keep {xs : List (Descriptor × Outcome)} (hxs : ∀ x ∈ xs, Recordable x.2)
    {t : Trace} (ht : t.log.bound = none) :
    ∃ t', xs.foldl (fun t x => EventLoop.keep t x.1 x.2) (some t) = some t' ∧
      t'.exchanges = t.exchanges ++ xs := by
  induction xs generalizing t with
  | nil => exact ⟨t, rfl, (List.append_nil _).symm⟩
  | cons x xs ih =>
    obtain ⟨d, o⟩ := x
    have hkeep : EventLoop.keep (some t) d o = some (t.add ⟨d, o⟩) := by
      cases o with
      | ok v => rfl
      | error e => exact if_pos (hxs _ (List.mem_cons_self ..) e rfl)
    obtain ⟨t', ht', hall⟩ := ih (fun x hx => hxs x (List.mem_cons_of_mem _ hx))
      (t := t.add ⟨d, o⟩) ht
    refine ⟨t', ?_, ?_⟩
    · rw [List.foldl_cons]
      exact hkeep.symm ▸ ht'
    · rw [hall]
      simp [Trace.exchanges, ht]

section

variable {C : Programs P} {V : World W} {A : Arena} {g : Nat} {p : P} {site : Site W}
  {events : List Event}

/-- An interpretation comes to a result when the loop has ended and recorded it. -/
theorem Interprets.result {result : RunResult} {I : Interpreter} {o : Outcome}
    {s : EventLoop.State (P × Site W)} (h : Interprets C V I A g (p, site) events result)
    (hends : Transition.Ends (EventLoop.step (C.host V) A.context) (EventLoop.shows C)
      (A.opened (some I.newTrace) true g (p, site)) events (.finished o s)) :
    ∃ v, o = .ok v ∧ result = (s.result? 0).getD ⟨.ok v, I.newTrace⟩ := by
  have hverdict := h.verdict
  unfold Interpreter.run at hverdict
  cases hrun : A.run (C.host V) (.drive (.computation g) (some I.newTrace) true) (p, site) with
  | none => rw [hrun] at hverdict; cases hverdict
  | some r =>
    obtain ⟨ls, hls⟩ := (Transition.exists_ends_iff (EventLoop.shows C)).1 ⟨A.fuel, hrun⟩
    obtain ⟨-, rfl⟩ := hls.unique hends
    rw [hrun] at hverdict
    cases o with
    | ok v => exact ⟨v, rfl, (Except.ok.inj hverdict).symm⟩
    | error e => cases hverdict

/-- **The trace of an unbounded interpretation is what its rehearsal showed.** -/
theorem Interprets.rehearses {result : RunResult}
    (h : Interprets C V ⟨.unbounded⟩ A g (p, site) events result) :
    Rehearses C g p site.items events result.outcome ∧
      result.trace.exchanges = exchanges events := by
  obtain ⟨o, s, hends⟩ := h.run
  have hfree : EventLoop.Free (some (Interpreter.newTrace ⟨.unbounded⟩)) := by
    intro t ht
    cases ht
    rfl
  obtain ⟨o', hrehearses, hconcludes⟩ := rehearses_of_ends hfree hends
  obtain ⟨v, rfl, hresult⟩ := h.result hends
  have hrecordable : Recordable o' := by
    rintro e rfl
    have hcaptured : EventLoop.captureOutcome (.error e) = .ok v := hconcludes.result.symm
    by_contra he
    rw [EventLoop.captureOutcome, if_neg he] at hcaptured
    cases hcaptured
  obtain ⟨p', n, hdialogue⟩ := hrehearses
  have hall := Dialogue.recordable_of_ends hdialogue rfl hrecordable
  obtain ⟨t, hfold, ht⟩ := foldl_keep hall (t := Interpreter.newTrace ⟨.unbounded⟩) rfl
  have hreport := hconcludes.report
  rw [hfold] at hreport
  have hs : s.result? 0 = some ⟨o', t⟩ := by
    unfold EventLoop.State.result?
    rw [hreport]
  rw [hs] at hresult
  subst hresult
  refine ⟨⟨p', n, hdialogue⟩, ?_⟩
  show t.exchanges = exchanges events
  rw [ht]
  rfl

end

/-! ## The driver and the harness agree -/

section

variable {C : Programs P} {V : World W} {V' : World W'} {A : Arena} {g : Nat} {p : P}
  {site : Site W} {site' : Site W'} {matchArgs : Bool} {events : List Event}

/-- What a strict test makes of a run that met all its expectations. -/
theorem judge_of_met {σ : Type} {H : Host σ} {strict : Bool} {r : Harness.Ending σ}
    (h : strict = true → r.pending = []) : Harness.judge H strict r = r := by
  unfold Harness.judge
  split
  · rfl
  · refine if_neg ?_
    cases strict with
    | false => simp
    | true => simp [h rfl]

/-- A judged run shows what it showed before. -/
theorem Tests.ends {fuel : Nat} {entries : Value} {strict : Bool} {host host' : P × Site W'}
    {E : List Expectation} {r : Harness.Ending (P × Site W')}
    (h : Tests C V' fuel entries g strict matchArgs host events r)
    (gathered : Harness.Gathers (C.host V') entries host E host') :
    ∃ r₀, Transition.Ends (Harness.step (C.host V') matchArgs) (Harness.shows C V' matchArgs)
      (Harness.start host' g E) events r₀ ∧ r = Harness.judge (C.host V') strict r₀ := by
  obtain ⟨F, host'', r₀, hgathered, hends⟩ := h.run
  obtain ⟨rfl, rfl⟩ := hgathered.unique gathered
  obtain ⟨n, r₁, hr₁, rfl⟩ := (Harness.exists_runTest_iff gathered).1 ⟨fuel, h.answer⟩
  obtain ⟨ls, hls⟩ := (Transition.exists_ends_iff (Harness.shows C V' matchArgs)).1 ⟨n, hr₁⟩
  obtain ⟨-, rfl⟩ := hls.unique hends
  exact ⟨r₁, hends, rfl⟩

/-- **A computation is tested as it was rehearsed exactly when the rehearsal is calm.** -/
theorem calm_iff_tests (strict : Bool) {o : Outcome} (h : Rehearses C g p site.items events o)
    (sameItems : site'.items = site.items) {entries : Value} {host' : P × Site W'}
    {E : List Expectation} (gathered : Harness.Gathers (C.host V') entries host' E (p, site'))
    (scripted : Scripted V' matchArgs E site'.world (exchanges events))
    (whole : strict = true → E.length = (exchanges events).length) :
    Calm events ↔ ∃ fuel r, Tests C V' fuel entries g strict matchArgs host' events r ∧
      r.outcome = o ∧ r.consumed = (exchanges events).length ∧
      r.pending = E.drop (exchanges events).length := by
  constructor
  · intro calm
    obtain ⟨r₀, hends, hall⟩ := tested_of_rehearses h calm sameItems scripted
    obtain ⟨fuel, htests⟩ := exists_tests strict gathered hends
    have hjudge : Harness.judge (C.host V') strict r₀ = r₀ := by
      refine judge_of_met fun hstrict => ?_
      rw [hall.2.2, ← whole hstrict, List.drop_length]
    rw [hjudge] at htests
    exact ⟨fuel, r₀, htests, hall⟩
  · rintro ⟨fuel, r, htests, -⟩
    obtain ⟨r₀, hends, -⟩ := htests.ends gathered
    exact calm_of_tested hends h

/-- **A computation is driven as it was tested exactly when the test is calm**, if its effects
have the outcomes of the test in turn. -/
theorem calm_iff_drives {fuel : Nat} {entries : Value} {host' : P × Site W'}
    {E : List Expectation} {r : Harness.Ending (P × Site W')}
    (h : Tests C V' fuel entries g false matchArgs host' events r)
    (gathered : Harness.Gathers (C.host V') entries host' E (p, site'))
    (sameItems : site'.items = site.items)
    (turn : EventLoop.ResolvesInTurn C V A.context false (A.opened none false g (p, site))
      ((exchanges events).map Prod.snd)) :
    Calm events ↔ ∃ fuel, Drives C V { A with fuel } g (p, site) events r.outcome := by
  obtain ⟨r₀, hends, rfl⟩ := h.ends gathered
  rw [judge_of_met fun hstrict => by cases hstrict]
  constructor
  · intro calm
    have hrehearses := rehearses_of_tested hends calm
    rw [sameItems] at hrehearses
    obtain ⟨s, hs⟩ := ends_of_rehearses hrehearses turn
    exact exists_drives hs
  · rintro ⟨fuel, hdrives⟩
    obtain ⟨s, hs⟩ := hdrives.run
    obtain ⟨o, hrehearses, -⟩ := rehearses_of_ends (fun t ht => by cases ht) hs
    exact calm_of_tested hends hrehearses

/-- **The harness and the driver are one machine, as long as no verdict comes up.**  For any
computations, whatever the worlds that their effects are performed in:

* a drive that comes to an outcome is reproduced by a test whose expectations say the same of
  the same effects, and the test meets as many of them;
* a test is reproduced by a drive in which the effects have the same outcomes, in turn;
* the trace of an unbounded interpretation, as expectations, reproduces the interpretation;

each of them exactly when no verdict is the outcome of an effect or is left by an inner
computation to an outer one. -/
theorem runs_agree_iff_calm (C : Programs P) (V : World W) (V' : World W') (A : Arena) (g : Nat)
    (p : P) (site : Site W) (site' : Site W') (sameItems : site'.items = site.items)
    (matchArgs : Bool) :
    (∀ events o, Drives C V A g (p, site) events o → ∀ entries host' E strict,
      Harness.Gathers (C.host V') entries host' E (p, site') →
      Scripted V' matchArgs E site'.world (exchanges events) →
      (strict = true → E.length = (exchanges events).length) →
      (Calm events ↔ ∃ fuel r, Tests C V' fuel entries g strict matchArgs host' events r ∧
        r.outcome = o ∧ r.consumed = (exchanges events).length ∧
        r.pending = E.drop (exchanges events).length)) ∧
    (∀ fuel entries host' E events r,
      Tests C V' fuel entries g false matchArgs host' events r →
      Harness.Gathers (C.host V') entries host' E (p, site') →
      EventLoop.ResolvesInTurn C V A.context false (A.opened none false g (p, site))
        ((exchanges events).map Prod.snd) →
      (Calm events ↔ ∃ fuel, Drives C V { A with fuel } g (p, site) events r.outcome)) ∧
    ∀ events result, Interprets C V ⟨.unbounded⟩ A g (p, site) events result →
      ∀ constant : Value → Value, (∀ r ∈ result.trace.log.entries, r.Constant V' constant) →
      (matchArgs = false → ∀ r ∈ result.trace.log.entries,
        ∃ s, DescriptorOf.shape r.descriptor = .ok s) →
      ∀ strict, (Calm events ↔ ∃ fuel r,
        Tests C V' fuel (.list ((result.trace.replayed constant).map .expectation)) g strict
          matchArgs (p, site') events r ∧
        r.outcome = result.outcome ∧ r.consumed = result.trace.log.entries.length ∧
        r.pending = []) := by
  refine ⟨?_, ?_, ?_⟩
  · intro events o hdrives entries host' E strict gathered scripted whole
    obtain ⟨s, hs⟩ := hdrives.run
    obtain ⟨o', hrehearses, hconcludes⟩ := rehearses_of_ends (fun t ht => by cases ht) hs
    obtain rfl : o = o' := hconcludes.result
    exact calm_iff_tests strict hrehearses sameItems gathered scripted whole
  · intro fuel entries host' E events r htests gathered turn
    exact calm_iff_drives htests gathered sameItems turn
  · intro events result hinterprets constant constantly shaped strict
    obtain ⟨hrehearses, htrace⟩ := hinterprets.rehearses
    have hlength : (exchanges events).length = result.trace.log.entries.length := by
      rw [← htrace, Trace.exchanges, List.length_map]
    have hscripted : Scripted V' matchArgs (result.trace.replayed constant) site'.world
        result.trace.exchanges :=
      scripted_of_records _ constantly shaped site'.world
    rw [htrace] at hscripted
    have hgathered := Harness.gathers_list (H := C.host V') (p, site')
      (mapM_coerce (result.trace.replayed constant))
    have hreplay := calm_iff_tests strict hrehearses sameItems hgathered
      hscripted fun _ => by rw [hlength, Trace.replayed, List.length_map]
    have hdrop : (result.trace.replayed constant).drop (exchanges events).length = [] := by
      rw [hlength, Trace.replayed, ← List.length_map (Record.expected constant), List.drop_length]
    rwa [hdrop, hlength] at hreplay

end

/-! ## A failure that is caught -/

/-- A world in which every call fails with one exception. -/
def World.failing (e : Exn) : World Unit := { World.barren with call _ _ w := (.error e, w) }

/-- A loop that calls a function for the effect of the cautious computation. -/
def cautiousArena : Arena := ⟨9, 0, [], .record [(.text "a", .function "f")]⟩

/-- What the cautious computation shows when its effect fails. -/
def cautiousEvents (e : Exn) : List Event :=
  [.told 0 (.send .null), .answered ⟨.direct, [.text "a"], [], none⟩ (.error e),
    .told 0 (.throw e)]

/-- An exception of no verdict's kind. -/
def refusal : Exn := ⟨0, .plain .value [.text "no"]⟩

/-- The effect of the cautious computation is refused whenever it is performed. -/
theorem resolvesInTurn_refusal :
    EventLoop.ResolvesInTurn cautious.programs (.failing refusal) cautiousArena.context false
      (cautiousArena.opened none false 0 cautiousStart) [.error refusal] := by
  intro ls a j d htrail hc r hr
  obtain rfl := List.mem_singleton.1 (List.mem_of_getElem? hr)
  -- The loop is followed step by step; only in its fourth state is an effect performed.
  have hreach := htrail.reaches
  rcases hreach.cases_of_next rfl with rfl | hreach
  · cases hc
  rcases hreach.cases_of_next rfl with rfl | hreach
  · cases hc
  rcases hreach.cases_of_next rfl with rfl | hreach
  · cases hc
  rcases hreach.cases_of_next rfl with rfl | hreach
  · cases hc
    exact ⟨_, .single rfl, rfl⟩
  rcases hreach.cases_of_next rfl with rfl | hreach
  · cases hc
  rcases hreach.cases_of_next rfl with rfl | hreach
  · cases hc
  rcases hreach.cases_of_next rfl with rfl | hreach
  · cases hc
  rcases hreach.cases_of_next rfl with rfl | hreach
  · cases hc
  obtain rfl := hreach.eq_of_done rfl
  cases hc

/-- A refusal is caught by the cautious computation in the loop and under test alike, and so it
is when its trace is replayed. -/
theorem caught_refusal_agrees :
    Calm (cautiousEvents refusal) ∧
      Drives cautious.programs (.failing refusal) cautiousArena 0 cautiousStart
        (cautiousEvents refusal) (.ok (.text "caught")) ∧
      (∃ fuel r, Tests cautious.programs .barren fuel
          (.list ((failing refusal).map .expectation)) 0 true true cautiousStart
          (cautiousEvents refusal) r ∧ r.outcome = .ok (.text "caught") ∧ r.consumed = 1) ∧
      (∃ fuel, Drives cautious.programs (.failing refusal) { cautiousArena with fuel } 0
        cautiousStart (cautiousEvents refusal) (.ok (.text "caught"))) ∧
      ∃ fuel r, Tests cautious.programs .barren fuel
          (.list [.expectation ⟨.descriptor ⟨.direct, [.text "a"], [], none⟩, .null, some refusal⟩])
          0 true true cautiousStart (cautiousEvents refusal) r ∧
        r.outcome = .ok (.text "caught") ∧ r.pending = [] := by
  have hcalm : Calm (cautiousEvents refusal) :=
    calm_cons.2 ⟨rfl, calm_cons.2 ⟨rfl, calm_cons.2 ⟨rfl, calm_nil⟩⟩⟩
  have hdrives : Drives cautious.programs (.failing refusal) cautiousArena 0 cautiousStart
      (cautiousEvents refusal) (.ok (.text "caught")) :=
    ⟨rfl, _, .more rfl (.more rfl (.more rfl (.more rfl (.more rfl (.more rfl (.more rfl
      (.more rfl (.last rfl))))))))⟩
  let trace : Trace :=
    ⟨.unbounded, BoundedLog.ofList [⟨⟨.direct, [.text "a"], [], none⟩, .error refusal⟩] none⟩
  have hinterprets : Interprets cautious.programs (.failing refusal) ⟨.unbounded⟩ cautiousArena 0
      cautiousStart (cautiousEvents refusal) ⟨.ok (.text "caught"), trace⟩ :=
    ⟨rfl, _, _, .more rfl (.more rfl (.more rfl (.more rfl (.more rfl (.more rfl (.more rfl
      (.more rfl (.last rfl))))))))⟩
  have hgathers := Harness.gathers_list (H := cautiousHost) cautiousStart
    (show ((failing refusal).map .expectation).mapM ExpectationOf.coerce = .ok (failing refusal)
      from rfl)
  have hscripted : Scripted World.barren true (failing refusal) ()
      (exchanges (cautiousEvents refusal)) := .met rfl rfl rfl (.none [] ())
  obtain ⟨hreplay, hback, htrace⟩ := runs_agree_iff_calm cautious.programs (.failing refusal)
    .barren cautiousArena 0 (Computations.single .begun) ⟨(), 0, 0⟩ ⟨(), 0, 0⟩ rfl true
  have htested := fun strict =>
    (hreplay _ _ hdrives _ _ _ strict hgathers hscripted fun _ => rfl).1 hcalm
  obtain ⟨fuel, r, htests, houtcome, -⟩ := htested false
  have hdriven := (hback fuel _ _ _ _ r htests hgathers resolvesInTurn_refusal).1 hcalm
  rw [houtcome] at hdriven
  have hreplayed := (htrace _ _ hinterprets id (fun r hr v hv => by
    obtain rfl := List.mem_singleton.1 hr
    cases hv) (fun h => by cases h) true).1 hcalm
  obtain ⟨fuel₁, r₁, htests₁, houtcome₁, hconsumed₁, -⟩ := htested true
  obtain ⟨fuel₂, r₂, htests₂, houtcome₂, -, hpending₂⟩ := hreplayed
  exact ⟨hcalm, hdrives, ⟨fuel₁, r₁, htests₁, houtcome₁, hconsumed₁⟩, hdriven,
    fuel₂, r₂, htests₂, houtcome₂, hpending₂⟩

/-- **A failure of a verdict's kind tells the loop and the test apart.**  The expectation is
met by the only effect and says what the effect has for an outcome in the loop, but the
computation catches the failure in the loop alone. -/
theorem caught_verdict_differs :
    ∃ (e : Exn) (d : Descriptor),
      Drives cautious.programs (.failing e) cautiousArena 0 cautiousStart (cautiousEvents e)
        (.ok (.text "caught")) ∧
      exchanges (cautiousEvents e) = [(d, .error e)] ∧
      Scripted World.barren true (failing e) () [(d, .error e)] ∧
      ∃ r, Harness.runTest cautiousHost 5 (.list ((failing e).map .expectation)) (.computation 0)
        false true cautiousStart = some r ∧ r.outcome = .error e :=
  ⟨⟨0, .unexpected (.int 1) (.int 2) (.int 0)⟩, ⟨.direct, [.text "a"], [], none⟩,
    ⟨rfl, _, .more rfl (.more rfl (.more rfl (.more rfl (.more rfl (.more rfl (.more rfl
      (.more rfl (.last rfl))))))))⟩,
    rfl, .met rfl rfl rfl (.none [] ()), _, rfl, rfl⟩

end DescribedEffects
