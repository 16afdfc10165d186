import DescribedEffects.Proofs.EventLoop.Returns
import DescribedEffects.Proofs.EventLoop.Completions
import DescribedEffects.Proofs.Harness.Returns

/-!
# Failures are no returns

A computation marks its end by raising an exception that carries what it returned.  Both drivers
throw the failures of effects into computations, at the very place where they look for this mark.
A failure may be an exception of the same kind: an effect can fail with one, a stub can raise one,
a body can let one escape.  A driver that took it for the mark would make a return value out of a
failure.

`Arena.Faithful` and `Harness.Faithful` say of a drive and of a test that this does not happen.
The measure of what is a return and what is not is the turn that a body takes: a body that returns
and one that raises take different turns, whatever is returned or raised.

* Each turn is followed by one that it gives occasion for (`Bodies.Follows`).  So what is sent to
  a computation that has yielded another one is what the body of that other one has returned.
* The last turn accounts for the outcome (`Bodies.Concludes`).  If the outcome is a value, the
  body of the program has returned it in that turn, and nobody else was active.
* What an effect or a stub fails with is thrown into the computation that has yielded the effect.
* A mark that a body lets escape, or that a function raises when it is called directly, comes up as
  an error that has the mark as its cause (`Surfaces`).
* A mark that is reported by a completion callback is not thrown into anybody.  The promise of the
  effect does not take it, and stays open for good (`Arena.Faithful.refusals`).

A computation that somebody else could step would spoil all of this, since it might have ended when
the driver comes to it.  Those of `Bodies` are stepped by the driver alone.
-/

namespace DescribedEffects

open Bodies

variable {S σ : Type}

namespace Arena

/-- The loop that is to drive a computation. -/
def loop (A : Arena) (program : Nat) (host : σ) : EventLoop.State σ :=
  .start host A.number A.earlier (.drive (.computation program) none false)

/-- The loop that drives a computation takes nothing for a return but a return. -/
structure Faithful (A : Arena) (B : Bodies S σ) (K : Host σ) (program : Nat)
    (host : Running S σ) : Prop where
  /-- Each turn gives occasion for the next. -/
  turns : ∀ ms s,
    Transition.Trail (EventLoop.step (B.host K) A.context) EventLoop.moments
      (A.loop program host) ms s → ms.IsChain B.Follows
  /-- The last turn accounts for the outcome. -/
  outcome : ∀ o : Outcome,
    (A.drive (B.host K) (.computation program) host).verdict = o.mapError .raised →
    ∃ ms r m, Transition.Ends (EventLoop.step (B.host K) A.context) EventLoop.moments
        (A.loop program host) ms r ∧ ms.getLast? = some m ∧
      B.Concludes program m (A.drive (B.host K) (.computation program) host).host.causes o
  /-- What comes of an effect is what the computation is told that has yielded it. -/
  answers : ∀ ms s goal (o : Outcome),
    Transition.Trail (EventLoop.step (B.host K) A.context) EventLoop.moments
      (A.loop program host) ms s →
    s.control = .outcome 0 goal o → (∀ e, o = .error e → e.isOrdinary = true) →
    ∃ m u, ms.getLast? = some m ∧ EventLoop.step (B.host K) A.context s = .next u ∧
      EventLoop.moments u = [⟨m.active, .ofOutcome o, u.host⟩]
  /-- What a function raises that is called directly surfaces. -/
  functions : ∀ (s : EventLoop.State (Running S σ)) t goal (d : Descriptor) f e,
    s.control = .perform t goal d → d.mode = .direct → Context.lookup A.context d.path = .ok f →
    f.isCallable = true → (K.call f d.args s.host.world).1 = .error e →
    ∃ u surfaced, EventLoop.step (B.host K) A.context s = .next u ∧
      u.control = .outcome t goal (.error surfaced) ∧
      Surfaces "coroutine raised StopIteration" e surfaced u.host.causes
  /-- An effect that is reported to have failed with a mark never comes to an outcome. -/
  refusals : ∀ s i (error value : Value) n rest,
    Transition.Reaches (EventLoop.step (B.host K) A.context) (A.loop program host) s →
    s.control = .idle → s.batch = n + 1 → s.ready = .settle i error value :: rest →
    error.isMark = true →
    ∃ e, s.effects[i]? = some e ∧
      ∀ u, Transition.Reaches (EventLoop.step (B.host K) A.context) s u →
        u.outcome? e.promise = none

/-- **A drive takes nothing for a return but a return.** -/
theorem faithful (A : Arena) (B : Bodies S σ) (K : Host σ) {program : Nat} {host : Running S σ}
    {x : S} (fresh : host.made.standings[program]? = some (.unstarted x)) :
    A.Faithful B K program host where
  turns _ _ h := (EventLoop.driving_of_trail fresh h).1
  answers _ _ _ _ h control ordinary := EventLoop.hears_of_trail fresh h control ordinary
  outcome o h := by
    unfold drive at h ⊢
    cases hrun : A.run (B.host K) (.drive (.computation program) none false) host with
    | none =>
      rw [hrun] at h
      cases o <;> cases h
    | some r =>
      rw [hrun] at h
      obtain ⟨ms, hends⟩ := (Transition.exists_ends_iff EventLoop.moments).1 ⟨_, hrun⟩
      obtain ⟨m, hlast, haccounts⟩ := EventLoop.turns_of_ends fresh hends
      refine ⟨ms, r, m, hends, hlast, ?_⟩
      cases haccounts with
      | @finished o' s concludes =>
        cases o' with
        | ok v =>
          cases o with
          | ok w =>
            obtain rfl : v = w := Except.ok.inj h
            exact concludes
          | error e => cases h
        | error e =>
          cases o with
          | ok w => cases h
          | error e' =>
            obtain rfl : e = e' := Halt.raised.inj (Except.error.inj h)
            exact concludes
      | deadlock s => cases o <;> cases h
  functions _ _ _ _ _ _ control direct found callable fails :=
    EventLoop.direct_failure_surfaces control direct found callable fails
  refusals _ _ _ _ _ _ reached idle batch ready mark :=
    EventLoop.refused_stays_open reached idle batch ready mark

end Arena

namespace Harness

/-- The test of a computation takes nothing for a return but a return. -/
structure Faithful (B : Bodies S σ) (K : Host σ) (expectations : Value) (program : Nat)
    (strict matchArgs : Bool) (host : Running S σ) : Prop where
  /-- Each turn gives occasion for the next, or computations are given up. -/
  turns : ∀ xs host', Gathers (B.host K) expectations host xs host' → ∀ ms s,
    Transition.Trail (step (B.host K) matchArgs) moments (start host' program xs) ms s →
    ms.IsChain (Proceeds B)
  /-- The last turn accounts for the outcome; if that is a failure, it is the test's. -/
  outcome : ∀ xs host', Gathers (B.host K) expectations host xs host' → ∀ ms r,
    Transition.Ends (step (B.host K) matchArgs) moments (start host' program xs) ms r →
    (∃ m, ms.getLast? = some m ∧ B.Concludes program m r.host.causes r.outcome) ∧
      ∀ e, r.outcome = .error e →
        ∃ fuel, runTest (B.host K) fuel expectations (.computation program) strict matchArgs host =
          some r
  /-- What a stub fails with is thrown into the computation that waits for the answer, before
  anybody else is resumed. -/
  failures : ∀ s e stack, Fails (B.host K) matchArgs s e stack → e.isOrdinary = true →
    e.isVerdict = false →
    ∃ g t, s.active.head? = some g ∧
      Transition.Trail (step (B.host K) matchArgs) resumed s [g] t ∧
      t.active = stack ∧ t.control = .deliver (.throw e)
  /-- What a test comes to was returned by its program. -/
  returned : ∀ fuel r v,
    runTest (B.host K) fuel expectations (.computation program) strict matchArgs host = some r →
    r.outcome = .ok v →
    ∃ xs host' ms r' m, Gathers (B.host K) expectations host xs host' ∧
      Transition.Ends (step (B.host K) matchArgs) moments (start host' program xs) ms r' ∧
      ms.getLast? = some m ∧ B.Concludes program m r'.host.causes (.ok v)

/-- A test that comes to a value has read its entries. -/
theorem gathers_of_ok {H : Host σ} {fuel program : Nat} {expectations v : Value}
    {strict matchArgs : Bool} {host : σ} {r : Ending σ}
    (h : runTest H fuel expectations (.computation program) strict matchArgs host = some r)
    (ok : r.outcome = .ok v) : ∃ xs host', Gathers H expectations host xs host' := by
  cases hsource : sourceOf expectations with
  | error f =>
    simp only [runTest, hsource] at h
    cases h
    cases ok
  | ok source =>
    simp only [runTest, hsource] at h
    obtain ⟨⟨read, host'⟩, hread, hrun⟩ := Option.bind_eq_some_iff.1 h
    cases read with
    | ok xs => exact ⟨xs, host', source, fuel, hsource, hread⟩
    | error e =>
      cases hrun
      cases ok

/-- **A test takes nothing for a return but a return.** -/
theorem faithful (B : Bodies S σ) (K : Host σ) {expectations : Value} {program : Nat}
    (strict matchArgs : Bool) {host : Running S σ} {x : S}
    (fresh : host.made.standings[program]? = some (.unstarted x))
    (unshared : expectations ≠ .computation program) :
    Faithful B K expectations program strict matchArgs host where
  turns _ _ gathered _ _ h := turns_of_trail (standing_of_gathers gathered unshared fresh) h
  outcome xs host' gathered ms r h := by
    refine ⟨turns_of_ends (standing_of_gathers gathered unshared fresh) h, fun e he => ?_⟩
    obtain ⟨n, hn⟩ := (Transition.exists_ends_iff moments).2 ⟨ms, h⟩
    exact (exists_runTest_iff gathered).2 ⟨n, r, hn, (judge_of_error he).symm⟩
  failures s e stack h ordinary spared := by
    obtain ⟨g, t, hg, htrail, hactive, hcontrol⟩ := thrown_of_fails h ordinary
    exact ⟨g, t, hg, htrail, hactive, hcontrol.2 spared⟩
  returned fuel r v h ok := by
    obtain ⟨xs, host', gathered⟩ := gathers_of_ok h ok
    obtain ⟨n, r', hn, rfl⟩ := (exists_runTest_iff gathered).1 ⟨fuel, h⟩
    obtain ⟨ms, hends⟩ := (Transition.exists_ends_iff moments).1 ⟨n, hn⟩
    obtain ⟨m, hlast, haccounts⟩ := turns_of_ends (standing_of_gathers gathered unshared fresh) hends
    have hok : r'.outcome = .ok v := by
      cases ho : r'.outcome with
      | error e =>
        rw [judge_of_error ho, ho] at ok
        cases ok
      | ok w =>
        unfold judge at ok
        rw [ho] at ok
        dsimp only at ok
        split at ok
        · cases ok
        · exact ho.symm.trans ok
    exact ⟨xs, host', ms, r', m, gathered, hends, hlast, hok ▸ haccounts⟩

end Harness

/-- **A failure is never mistaken for a return**, by a drive or by a test, whatever the bodies of
the computations do, and whatever effects and stubs come to. -/
theorem failures_are_no_returns (B : Bodies S σ) (K : Host σ) {program : Nat}
    {host : Running S σ} {x : S} (fresh : host.made.standings[program]? = some (.unstarted x)) :
    (∀ A : Arena, A.Faithful B K program host) ∧
      ∀ expectations strict matchArgs, expectations ≠ .computation program →
        Harness.Faithful B K expectations program strict matchArgs host :=
  ⟨fun A => A.faithful B K fresh, fun _ strict matchArgs unshared =>
    Harness.faithful B K strict matchArgs fresh unshared⟩

/-! ## Runs with nothing but such failures -/

/-- Where two computations stand, of which the outer one yields the inner one. -/
inductive Sceptic where
  | outer
  | inner
  | warned
  | asked

/-- An exception that would mark the end of a computation, with a value to return. -/
def mark (n : Nat) : Exn := ⟨n, .plain .exhausted [.int n]⟩

/-- The inner computation lets such an exception escape.  The outer one handles what that comes
to, yields an effect, and handles what the effect comes to as well. -/
def sceptics : Bodies Sceptic Nat where
  run
    | .outer, _, n => (.nested .inner .warned, n)
    | .inner, _, n => (.raised (mark 5), n)
    | .warned, .throw _, n => (.yielded (.list [.text "f"]) rfl .asked, n)
    | .asked, .throw _, n => (.returned (.text "caught"), n)
    | _, _, n => (.returned .null, n)

/-- All functions raise such an exception. -/
def marker : Host Nat where
  resume _ _ n := (.returned .null, n)
  close _ _ n := (none, n)
  call _ _ n := (.error (mark 6), n)
  start _ n := (.finished (.ok .null), n)
  wake _ n := (.finished (.ok .null), n)
  fresh n := (n, n + 1)
  blame _ _ n := n
  drain n := ([], n)

/-- The outer computation before it is resumed. -/
def doubt : Running Sceptic Nat := ⟨Computations.single .outer, 0, []⟩

/-- A loop that finds a function under the path of the effect. -/
def doubtArena : Arena := ⟨40, 0, [], .record [(.text "f", .function "f")]⟩

/-- The effect is expected, and a function that raises is to answer it. -/
def doubted : Value := .list [.tuple [.list [.text "f"], .function "f"]]

/-- All functions report such an exception to their completion callbacks. -/
def reporter : World (List Request) :=
  EventLoop.hasty.withCalls fun _ args w =>
    match args with
    | [.done run effect] => (.ok .null, w ++ [.complete run effect (.exn (mark 6)) .null])
    | _ => (.ok .null, w)

/-- The computation performs a callback-style effect, and would handle whatever it came to. -/
def hopeful : Bodies Sceptic (Site (List Request)) where
  run
    | .outer, _, w => (.yielded (.list [.mode .callback, .text "f"]) rfl .asked, w)
    | _, _, w => (.returned (.text "caught"), w)

/-- That computation before it is resumed. -/
def hope : Running Sceptic (Site (List Request)) := ⟨Computations.single .outer, ⟨[], 0, 0⟩, []⟩

/-- Neither value is taken for one that was returned.  The drive and the test come to what the
outer computation returns, and each of the marks that left some code is a cause.  The computation
whose effect is reported with a mark is never resumed: the loop has nothing left to do. -/
theorem marks_are_failures :
    let drive := doubtArena.drive (sceptics.host marker) (.computation 0) doubt
    let test := Harness.runTest (sceptics.host marker) 20 doubted (.computation 0) true true doubt
    let reported := doubtArena.drive (hopeful.host reporter.still) (.computation 0) hope
    doubt.made.standings[0]? = some (.unstarted .outer) ∧
      drive.verdict = .ok (.text "caught") ∧ drive.host.causes = [(0, mark 5), (1, mark 6)] ∧
      test.map (·.outcome) = some (.ok (.text "caught")) ∧
      test.map (·.host.causes) = some [(0, mark 5)] ∧
      (∀ A : Arena, A.Faithful sceptics marker 0 doubt) ∧
      (∀ expectations strict matchArgs, expectations ≠ .computation 0 →
        Harness.Faithful sceptics marker expectations 0 strict matchArgs doubt) ∧
      reported.verdict = .error .deadlock ∧
      ∀ A : Arena, A.Faithful hopeful reporter.still 0 hope :=
  have hdoubt : doubt.made.standings[0]? = some (.unstarted .outer) := rfl
  have hhope : hope.made.standings[0]? = some (.unstarted .outer) := rfl
  have hmarks := failures_are_no_returns sceptics marker hdoubt
  have hreported := failures_are_no_returns hopeful reporter.still hhope
  ⟨hdoubt, rfl, rfl, rfl, rfl, hmarks.1, hmarks.2, rfl, hreported.1⟩

end DescribedEffects
