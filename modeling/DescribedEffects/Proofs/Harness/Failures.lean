import DescribedEffects.Proofs.Harness.Consumption

/-!
# What becomes of a failure under test

A failure of the program under test comes from one of two sides: an expectation that was met
feeds it back, or an inner computation raises it and leaves it to the one that yielded it.
Either way there is a computation that waits for an answer, and the failure should be thrown
into it, whatever it is: the computation may handle it and go on.

The harness tells failures of the program from its own verdicts by their kind.  So a failure
is thrown into the waiting computation exactly when it is not of a verdict's kind
(`failure_is_thrown_iff`).  From there on it goes from one active computation to the next as
long as none handles it, and it leaves the test only if the outermost computation raises it.

`verdict_is_kept_from_handler` is a computation that handles everything, and whose test fails
all the same: an expectation is written with a failure of a verdict's kind.
-/

namespace DescribedEffects
namespace Harness

variable {σ : Type} {H : Host σ} {matchArgs : Bool}

/-! ## Where failures come from -/

/-- What an expectation that is met feeds back, and the host after that. -/
def fedBack (H : Host σ) (x : Expectation) (d : Descriptor) (host : σ) : Outcome × σ :=
  match x.answer d with
  | .value v => (.ok v, host)
  | .raise e => (.error e, host)
  | .call f args => H.call f args host

theorem produce_eq (x : Expectation) (d : Descriptor) (s : State σ) :
    produce H x d s = answer { s with host := (fedBack H x d s.host).2 } (fedBack H x d s.host).1 := by
  unfold produce fedBack
  cases x.answer d <;> rfl

/-- The next step brings about a failure, and these are the computations that wait for an
answer then, innermost first. -/
inductive Fails (H : Host σ) (matchArgs : Bool) (s : State σ) (e : Exn) : List Nat → Prop
  /-- An effect meets the next expectation, and what is fed back is a failure. -/
  | fed {item : Value} {host host' : σ} {d : Descriptor} {x : Expectation}
      {rest : List Expectation} (yields : offered H s = some (item, host))
      (reads : Descriptor.parse item = .ok d) (head : s.pending = x :: rest)
      (meets : Meets matchArgs x d) (outcome : fedBack H x d host = (.error e, host')) :
      Fails H matchArgs s e s.active
  /-- An inner computation raises an exception. -/
  | left {signal : Signal} {inner : Nat} {outer : List Nat} (delivers : s.control = .deliver signal)
      (active : s.active = inner :: outer) (nested : outer ≠ [])
      (raises : Host.settle (H.resume inner signal s.host).1 = .raised e) :
      Fails H matchArgs s e outer

/-- The computation that is resumed in a state, if any. -/
def resumed (s : State σ) : List Nat :=
  match s.control with
  | .deliver _ => s.active.take 1
  | .escape _ => []

theorem resumed_of_deliver {s : State σ} {signal : Signal} {g : Nat} {outer : List Nat}
    (hc : s.control = .deliver signal) (ha : s.active = g :: outer) : resumed s = [g] := by
  unfold resumed
  rw [hc, ha]
  rfl

/-- Whoever is offered something by a computation has resumed it. -/
theorem active_of_offered {s : State σ} {item : Value} {host : σ}
    (h : offered H s = some (item, host)) :
    ∃ signal g outer, s.control = .deliver signal ∧ s.active = g :: outer := by
  unfold offered at h
  split at h
  · next hc ha => exact ⟨_, _, _, hc, ha⟩
  · cases h

/-- An effect that meets the head of the queue is answered from it. -/
theorem examine_of_meets {s : State σ} {x : Expectation} {rest : List Expectation}
    {d : Descriptor} (hs : s.pending = x :: rest) (h : Meets matchArgs x d) :
    examine H matchArgs d s = consume H x rest d s := by
  obtain ⟨expected, hreads, hcompare⟩ := h
  unfold examine
  rw [hs]
  dsimp only
  rw [hreads]
  dsimp only
  rw [hcompare]

/-! ## Thrown or kept -/

/-- A failure is thrown into the waiting computation unless it is of a verdict's kind. -/
theorem control_fail_iff {e : Exn} (he : e.isOrdinary = true) (s : State σ) :
    (s.fail e).control = .deliver (.throw e) ↔ e.isVerdict = false := by
  cases hv : e.isVerdict with
  | true =>
    rw [fail_of_verdict hv]
    exact ⟨fun h => (by cases h), fun h => (by cases h)⟩
  | false =>
    rw [fail_of_ordinary hv he]
    exact ⟨fun _ => rfl, fun _ => rfl⟩

@[simp] theorem active_fail (s : State σ) (e : Exn) : (s.fail e).active = s.active := by
  unfold State.fail
  split <;> rfl

/-- What is thrown into a computation after another one was left is what was raised there. -/
theorem control_closeFor_iff {e : Exn} (he : e.isOrdinary = true) (g : Nat) (host : σ)
    (s : State σ) :
    (s.fail (closeFor H e g host).1).control = .deliver (.throw e) ↔ e.isVerdict = false := by
  cases hv : e.isVerdict with
  | false =>
    rw [closeFor_of_not_verdict hv]
    exact (control_fail_iff he s).trans (by rw [hv])
  | true =>
    refine ⟨fun h => ?_, fun h => (by cases h)⟩
    have hthrown : (closeFor H e g host).1 = e := by
      unfold State.fail at h
      split at h
      · cases h
      · exact Signal.throw.inj (Control.deliver.inj h)
    rw [hthrown, fail_of_verdict hv] at h
    cases h

/-- **A failure is thrown into the computation that waits for an answer**, before anybody else
is resumed, unless it is of a verdict's kind. -/
theorem thrown_of_fails {s : State σ} {e : Exn} {stack : List Nat}
    (h : Fails H matchArgs s e stack) (he : e.isOrdinary = true) :
    ∃ g t, s.active.head? = some g ∧ Transition.Trail (step H matchArgs) resumed s [g] t ∧
      t.active = stack ∧ (t.control = .deliver (.throw e) ↔ e.isVerdict = false) := by
  cases h with
  | @fed item host host' d x rest yields reads head meets outcome =>
    obtain ⟨signal, g, outer, hc, ha⟩ := active_of_offered yields
    have hplain : item.isComputation = false := by
      cases item with
      | computation inner => cases reads
      | _ => rfl
    let u : State σ := { s with
      host := host', pending := rest, consumed := s.consumed + 1
      notes := s.notes ++ [.matched s.consumed d] }
    have hstep : step H matchArgs s = .next (u.fail e) := by
      rw [step_of_offered yields, receive_of_plain hplain, reads]
      dsimp only
      rw [examine_of_meets (s := { s with host }) head meets, consume, produce_eq]
      dsimp only
      rw [outcome]
      rfl
    refine ⟨g, u.fail e, by rw [ha]; rfl, ?_, active_fail u e, control_fail_iff he u⟩
    rw [← resumed_of_deliver hc ha]
    exact .single hstep
  | @left signal inner _ delivers active nested raises =>
    obtain ⟨host, all, pending, consumed, notes, control⟩ := s
    obtain rfl : control = .deliver signal := delivers
    obtain rfl : all = inner :: stack := active
    let host' := (H.resume inner signal host).2
    have hraised : step H matchArgs
        ⟨host, inner :: stack, pending, consumed, notes, .deliver signal⟩ =
        .next ⟨host', inner :: stack, pending, consumed, notes, .escape e⟩ := by
      show react H matchArgs _ (Host.settle (H.resume inner signal host).1) = _
      rw [raises]
      rfl
    have hleft := step_escape (H := H) matchArgs e host' inner stack pending consumed notes
    rw [if_neg (by simpa using nested)] at hleft
    exact ⟨inner, _, rfl, .head hraised (.single hleft), active_fail .., control_closeFor_iff he ..⟩

/-! ## Along the active computations -/

/-- Each of some computations, the innermost first, raises an exception again when it is
thrown in. -/
inductive Unhandled (H : Host σ) (e : Exn) : List Nat → σ → σ → Prop
  | nil (host : σ) : Unhandled H e [] host host
  | cons {g : Nat} {outer : List Nat} {host host' : σ}
      (raises : Host.settle (H.resume g (.throw e) host).1 = .raised e)
      (rest : Unhandled H e outer (H.resume g (.throw e) host).2 host') :
      Unhandled H e (g :: outer) host host'

section

variable {e : Exn} (he : e.isOrdinary = true) (hv : e.isVerdict = false) (matchArgs : Bool)
  (pending : List Expectation) (consumed : Nat) (notes : List Note)

include hv

/-- An exception that is thrown in and raised again leaves the computation. -/
theorem step_unhandled {g : Nat} (outer : List Nat) {host : σ}
    (raises : Host.settle (H.resume g (.throw e) host).1 = .raised e) :
    step H matchArgs ⟨host, g :: outer, pending, consumed, notes, .deliver (.throw e)⟩ =
        .next ⟨(H.resume g (.throw e) host).2, g :: outer, pending, consumed, notes, .escape e⟩ ∧
      step H matchArgs
        ⟨(H.resume g (.throw e) host).2, g :: outer, pending, consumed, notes, .escape e⟩ =
        if outer.isEmpty then
          .done ⟨.error e, (H.resume g (.throw e) host).2, pending, consumed, notes⟩
        else
          .next (State.fail
            ⟨(H.resume g (.throw e) host).2, outer, pending, consumed, notes, .escape e⟩ e) := by
  constructor
  · show react H matchArgs _ (Host.settle (H.resume g (.throw e) host).1) = _
    rw [raises]
    rfl
  · rw [step_escape, closeFor_of_not_verdict hv]

include he

/-- **A failure that is not handled goes on to the next computation.** -/
theorem trail_of_unhandled {inner outer : List Nat} {host host' : σ} (ho : outer ≠ [])
    (h : Unhandled H e inner host host') :
    Transition.Trail (step H matchArgs) resumed
      ⟨host, inner ++ outer, pending, consumed, notes, .deliver (.throw e)⟩ inner
      ⟨host', outer, pending, consumed, notes, .deliver (.throw e)⟩ := by
  induction h with
  | nil host => exact .refl _
  | @cons g inner host host' raises rest ih =>
    obtain ⟨hraised, hleft⟩ :=
      step_unhandled hv matchArgs pending consumed notes (inner ++ outer) raises
    rw [if_neg (by simp [ho]), fail_of_ordinary hv he] at hleft
    exact .head hraised (.head hleft ih)

/-- A failure that nobody handles ends the test. -/
theorem ends_of_unhandled {stack : List Nat} {host host' : σ} (hs : stack ≠ [])
    (h : Unhandled H e stack host host') :
    Transition.Ends (step H matchArgs) resumed
      ⟨host, stack, pending, consumed, notes, .deliver (.throw e)⟩ stack
      ⟨.error e, host', pending, consumed, notes⟩ := by
  induction h with
  | nil host => exact absurd rfl hs
  | @cons g outer host host' raises rest ih =>
    obtain ⟨hraised, hleft⟩ := step_unhandled hv matchArgs pending consumed notes outer raises
    cases outer with
    | nil =>
      cases rest
      exact .more hraised (.last hleft)
    | cons g' outer =>
      rw [if_neg (by simp), fail_of_ordinary hv he] at hleft
      exact .more hraised (.more hleft (ih (List.cons_ne_nil g' outer)))

end

/-! ## Who lets an exception out of a test -/

/-- Whatever leaves the innermost computation is a verdict or nothing that ordinary handlers
take. -/
def Harsh (s : State σ) : Prop :=
  ∀ e, s.control = .escape e → e.isOrdinary = true → e.isVerdict = true

theorem harsh_of_deliver {s : State σ} {signal : Signal} (h : s.control = .deliver signal) :
    Harsh s :=
  fun e he => by rw [h] at he; cases he

theorem harsh_fail (s : State σ) (e : Exn) : Harsh (s.fail e) := by
  intro e' hescape hordinary
  by_contra hv
  have hv := Bool.eq_false_iff.2 hv
  unfold State.fail at hescape
  split at hescape
  · next hharsh =>
    cases hescape
    simp [hordinary, hv] at hharsh
  · cases hescape

theorem harsh_answer (s : State σ) (o : Outcome) : Harsh (answer s o) := by
  cases o with
  | ok v => exact harsh_of_deliver rfl
  | error e => exact harsh_fail s e

@[simp] theorem active_answer (s : State σ) (o : Outcome) : (answer s o).active = s.active := by
  cases o with
  | ok v => rfl
  | error e => exact active_fail s e

variable (H matchArgs) in
/-- Nobody is left while an item is answered, and only a harsh exception takes anybody out. -/
theorem harsh_receive {item : Value} (h : item.isComputation = false) (s : State σ) :
    Harsh (receive H matchArgs item s) ∧ (receive H matchArgs item s).active = s.active := by
  have hfail : ∀ body, Harsh (failWith H body s) ∧ (failWith H body s).active = s.active :=
    fun body => ⟨harsh_fail _ _, active_fail ..⟩
  rw [receive_of_plain h]
  cases Descriptor.parse item with
  | error m => exact hfail m.body
  | ok d =>
    dsimp only
    unfold examine
    split
    · exact hfail _
    · split
      · exact hfail _
      · split
        · exact hfail _
        · exact hfail _
        · rw [consume, produce_eq]
          exact ⟨harsh_answer _ _, active_answer ..⟩

/-- An exception that ordinary handlers take, and that is no verdict, was raised by the
computation that it leaves. -/
def Justified (H : Host σ) (first : State σ) (matchArgs : Bool) (s : State σ) : Prop :=
  ∀ e, s.control = .escape e → e.isOrdinary = true → e.isVerdict = false →
    ∃ u signal g outer, Transition.Reaches (step H matchArgs) first u ∧
      u.control = .deliver signal ∧ u.active = g :: outer ∧ u.active = s.active ∧
      Host.settle (H.resume g signal u.host).1 = .raised e

theorem Harsh.justified {first s : State σ} (h : Harsh s) : Justified H first matchArgs s :=
  fun e he ho hv => by rw [h e he ho] at hv; cases hv

/-- **The outermost computation stays where it is**, and only a computation lets an exception
of the program out of itself. -/
theorem justified_of_reaches {program : Nat} {host : σ} {E : List Expectation} {s : State σ}
    (h : Transition.Reaches (step H matchArgs) (start host program E) s) :
    s.active.getLast? = some program ∧ Justified H (start host program E) matchArgs s := by
  let first := start host program E
  suffices hall : ∀ s, (Transition.Reaches (step H matchArgs) first s ∧
      s.active.getLast? = some program ∧ Justified H first matchArgs s) → ∀ t,
      step H matchArgs s = .next t → (Transition.Reaches (step H matchArgs) first t ∧
        t.active.getLast? = some program ∧ Justified H first matchArgs t) from
    (h.invariant (fun s t hs hst => hall s hs t hst)
      ⟨.refl _, rfl, (harsh_of_deliver rfl).justified⟩).2
  rintro s ⟨hreach, hlast, hjustified⟩ t hst
  refine ⟨hreach.tail hst, ?_⟩
  obtain ⟨host', active, pending, consumed, notes, signal | e⟩ := s
  · cases active with
    | nil => cases hlast
    | cons g outer =>
      have hstep : react H matchArgs
          ⟨(H.resume g signal host').2, g :: outer, pending, consumed, notes, .deliver signal⟩
          (Host.settle (H.resume g signal host').1) = .next t := hst
      cases hreply : Host.settle (H.resume g signal host').1 with
      | yielded item =>
        rw [hreply] at hstep
        cases hstep
        cases hitem : item.isComputation with
        | true =>
          cases item with
          | computation inner => exact ⟨hlast, (harsh_of_deliver rfl).justified⟩
          | _ => cases hitem
        | false =>
          obtain ⟨hharsh, hactive⟩ := harsh_receive H matchArgs hitem
            ⟨(H.resume g signal host').2, g :: outer, pending, consumed, notes, .deliver signal⟩
          exact ⟨hactive ▸ hlast, hharsh.justified⟩
      | returned v =>
        rw [hreply] at hstep
        cases outer with
        | nil => cases hstep
        | cons g' outer =>
          cases hstep
          exact ⟨hlast, (harsh_of_deliver rfl).justified⟩
      | raised e =>
        rw [hreply] at hstep
        cases hstep
        refine ⟨hlast, fun e' he' _ _ => ?_⟩
        cases he'
        exact ⟨_, signal, g, outer, hreach, rfl, rfl, rfl, hreply⟩
  · cases active with
    | nil => cases hlast
    | cons g outer =>
      rw [step_escape] at hst
      cases outer with
      | nil => cases hst
      | cons g' outer =>
        cases hst
        exact ⟨(active_fail ..).symm ▸ hlast, (harsh_fail _ _).justified⟩

/-- The outermost computation, alone, lets an exception out: it raises it, or its cleanup does
while a verdict leaves it. -/
def Surrenders (H : Host σ) (matchArgs : Bool) (first : State σ) (program : Nat) (e : Exn) :
    Prop :=
  ∃ u, Transition.Reaches (step H matchArgs) first u ∧ u.active = [program] ∧
    ((∃ signal, u.control = .deliver signal ∧
        Host.settle (H.resume program signal u.host).1 = .raised e) ∨
      ∃ because, u.control = .escape because ∧ because.isVerdict = true ∧
        (H.close program because u.host).1 = some e)

/-- **No exception of the program leaves a test unless the outermost computation lets it
out.** -/
theorem surrenders_of_ends {program n : Nat} {host : σ} {E : List Expectation} {e : Exn}
    (he : e.isOrdinary = true) (hv : e.isVerdict = false) {r : Ending σ}
    (h : Transition.runFor (step H matchArgs) n (start host program E) = some r)
    (hr : r.outcome = .error e) : Surrenders H matchArgs (start host program E) program e := by
  obtain ⟨s, hs, hend⟩ := Transition.exists_runFor_iff.1 ⟨n, h⟩
  obtain ⟨hlast, hjustified⟩ := justified_of_reaches hs
  obtain ⟨host', active, pending, consumed, notes, signal | x⟩ := s
  · cases active with
    | nil => cases hlast
    | cons g outer =>
      have hstep : react H matchArgs
          ⟨(H.resume g signal host').2, g :: outer, pending, consumed, notes, .deliver signal⟩
          (Host.settle (H.resume g signal host').1) = .done r := hend
      cases hreply : Host.settle (H.resume g signal host').1 with
      | yielded item => rw [hreply] at hstep; cases hstep
      | returned v =>
        rw [hreply] at hstep
        cases outer with
        | nil => cases hstep; cases hr
        | cons g' outer => cases hstep
      | raised x => rw [hreply] at hstep; cases hstep
  · cases active with
    | nil => cases hlast
    | cons g outer =>
      rw [step_escape] at hend
      cases outer with
      | cons g' outer => cases hend
      | nil =>
        obtain rfl : g = program := Option.some.inj hlast
        cases hend
        have hx : (closeFor H x g host').1 = e := Except.error.inj hr
        cases hxv : x.isVerdict with
        | true =>
          rw [closeFor_of_verdict hxv] at hx
          refine ⟨_, hs, rfl, .inr ⟨x, rfl, hxv, ?_⟩⟩
          cases hclose : (H.close g x host').1 with
          | none =>
            rw [hclose] at hx
            obtain rfl : x = e := hx
            rw [hv] at hxv
            cases hxv
          | some e' =>
            rw [hclose] at hx
            exact congrArg some hx
        | false =>
          rw [closeFor_of_not_verdict hxv] at hx
          obtain rfl : x = e := hx
          obtain ⟨u, signal, g', outer, hu, hc, ha, hactive, hraises⟩ :=
            hjustified x rfl he hv
          obtain ⟨rfl, rfl⟩ := List.cons.inj (ha.symm.trans hactive)
          exact ⟨u, hu, ha, .inl ⟨signal, hc, hraises⟩⟩

variable (matchArgs) in
/-- **A failure is thrown into the program exactly when it is of no verdict's kind.**  Let
the expectations of a test be read, and let a failure come up that ordinary handlers take:
an expectation that is met feeds it back, or an inner computation raises it.

* The computation that waits for an answer is the next to be resumed with it, exactly when
  the failure is of no verdict's kind; and then it goes from one active computation to the
  next as long as none handles it, and out of the test if none does.
* A failure of no verdict's kind leaves the test only if the outermost computation lets it
  out. -/
theorem failure_is_thrown_iff {entries : Value} (program : Nat) (strict : Bool) {host₀ host : σ}
    {E : List Expectation} (gathered : Gathers H entries host₀ E host) {e : Exn}
    (ordinary : e.isOrdinary = true) :
    (∀ s stack, Transition.Reaches (step H matchArgs) (start host program E) s →
      Fails H matchArgs s e stack →
      ∃ g t, s.active.head? = some g ∧ Transition.Trail (step H matchArgs) resumed s [g] t ∧
        t.active = stack ∧ (t.control = .deliver (.throw e) ↔ e.isVerdict = false) ∧
        (e.isVerdict = false → ∀ inner outer host', stack = inner ++ outer →
          Unhandled H e inner t.host host' →
          (outer ≠ [] → ∃ u, Transition.Trail (step H matchArgs) resumed t inner u ∧
            u.active = outer ∧ u.control = .deliver (.throw e)) ∧
          (outer = [] → ∃ fuel r,
            runTest H fuel entries (.computation program) strict matchArgs host₀ = some r ∧
            r.outcome = .error e))) ∧
    (e.isVerdict = false → ∀ fuel r,
      runTest H fuel entries (.computation program) strict matchArgs host₀ = some r →
      r.outcome = .error e → Surrenders H matchArgs (start host program E) program e) := by
  refine ⟨fun s stack reached fails => ?_, fun hv fuel r hrun hr => ?_⟩
  · obtain ⟨g, t, hg, htrail, hactive, hcontrol⟩ := thrown_of_fails fails ordinary
    refine ⟨g, t, hg, htrail, hactive, hcontrol, fun hv inner outer host' hstack hunhandled => ?_⟩
    have hreached := reached.trans htrail.reaches
    have hthrown := hcontrol.2 hv
    obtain ⟨hostt, active, pending, consumed, notes, control⟩ := t
    obtain rfl : control = .deliver (.throw e) := hthrown
    obtain rfl : active = inner ++ outer := hactive.trans hstack
    refine ⟨fun houter => ⟨_, trail_of_unhandled ordinary hv matchArgs pending consumed notes houter
        hunhandled, rfl, rfl⟩,
      fun houter => ?_⟩
    subst houter
    rw [List.append_nil] at hreached
    have hnonempty : inner ≠ [] := by
      rintro rfl
      have hlast := (justified_of_reaches hreached).1
      cases hlast
    obtain ⟨n, hn⟩ := (Transition.exists_ends_iff resumed).2
      ⟨_, ends_of_unhandled ordinary hv matchArgs pending consumed notes hnonempty hunhandled⟩
    obtain ⟨m, hm⟩ := (Transition.exists_runFor_iff_of_reaches hreached).2 ⟨n, hn⟩
    have hjudge : judge H strict ⟨.error e, host', pending, consumed, notes⟩ = _ :=
      judge_of_error rfl
    obtain ⟨fuel, hfuel⟩ := (exists_runTest_iff gathered).2 ⟨m, _, hm, hjudge.symm⟩
    exact ⟨fuel, _, hfuel, rfl⟩
  · obtain ⟨n, r₀, hr₀, rfl⟩ := (exists_runTest_iff gathered).1 ⟨fuel, hrun⟩
    have hkind : e.kind ≠ .unused := by
      intro hkind
      rw [show e.isVerdict = ExnKind.unused.isVerdict from congrArg ExnKind.isVerdict hkind] at hv
      cases hv
    rw [eq_of_judge hkind hr] at hr
    exact surrenders_of_ends ordinary hv hr₀ hr

/-! ## A computation that handles everything -/

/-- Where a cautious computation stands. -/
inductive Cautious where
  | begun
  | waiting

/-- It yields one effect and handles whatever comes back. -/
def cautious : Behaviour Cautious where
  resume
    | .begun, .send _ => .listed [.text "a"] .waiting
    | .waiting, .throw _ => .returned (.text "caught")
    | .waiting, .send v => .returned v
    | .begun, .throw _ => .returned .null

/-- The cautious computation in a world where nothing happens. -/
abbrev cautiousHost : Host (Computations Cautious × Site Unit) := cautious.programs.host World.barren

/-- The cautious computation before it is resumed. -/
def cautiousStart : Computations Cautious × Site Unit := (Computations.single .begun, ⟨(), 0, 0⟩)

/-- Its effect is expected, and is to fail. -/
def failing (e : Exn) : List Expectation := [⟨.list [.text "a"], .null, some e⟩]

/-- The failure comes up as soon as the computation is resumed. -/
theorem fails_cautious (e : Exn) :
    Fails cautiousHost true (start cautiousStart 0 (failing e)) e [0] :=
  .fed rfl rfl rfl ⟨_, rfl, rfl⟩ rfl

/-- A failure of its own is thrown into the computation. -/
theorem failure_reaches_handler :
    let e : Exn := ⟨0, .plain .value [.text "no"]⟩
    Gathers cautiousHost (.list ((failing e).map .expectation)) cautiousStart (failing e)
        cautiousStart ∧
      e.isOrdinary = true ∧
      ∃ t, Transition.Reaches (step cautiousHost true) (start cautiousStart 0 (failing e)) t ∧
        t.active = [0] ∧ t.control = .deliver (.throw e) := by
  intro e
  have hgathers := gathers_list (H := cautiousHost) cautiousStart
    (show ((failing e).map .expectation).mapM ExpectationOf.coerce = .ok (failing e) from rfl)
  have hordinary : e.isOrdinary = true := by decide
  obtain ⟨hthrown, -⟩ := failure_is_thrown_iff true 0 true hgathers hordinary
  obtain ⟨g, t, -, htrail, hactive, hcontrol, -⟩ := hthrown _ _ (.refl _) (fails_cautious e)
  exact ⟨hgathers, hordinary, t, htrail.reaches, hactive, hcontrol.2 (by decide)⟩

/-- **A failure of a verdict's kind is kept from the computation.**  An expectation may be
written with it, and the computation handles everything, but the test fails. -/
theorem verdict_is_kept_from_handler :
    ∃ e : Exn, ExpectationOf.make (.list [.text "a"]) .null (.exn e) =
        .ok ⟨.list [.text "a"], .null, some e⟩ ∧
      Fails cautiousHost true (start cautiousStart 0 (failing e)) e [0] ∧
      cautious.resume .waiting (.throw e) = .returned (.text "caught") ∧
      ∃ r, runTest cautiousHost 5 (.list ((failing e).map .expectation)) (.computation 0) true true
        cautiousStart = some r ∧ r.outcome = .error e :=
  ⟨⟨0, .unexpected (.int 1) (.int 2) (.int 0)⟩, rfl, fails_cautious _, rfl, _, rfl, rfl⟩

end Harness
end DescribedEffects
