import DescribedEffects.Harness.Seen
import DescribedEffects.Proofs.Computation.Behaviour
import DescribedEffects.Proofs.Harness.Runs

/-!
# When a mismatch fails the test

A computation under test yields an effect that does not meet the next expectation.
The harness makes a verdict of it, and the verdict is to leave the test at once: the
active computations are closed, innermost first, nothing is thrown into any of them and
no further expectation is consumed.

Closing a computation runs its cleanup, and cleanup can end in an exception of its own.
What then leaves the computation is no longer the verdict.  The harness judges it by its
kind alone: another verdict goes on unwinding in the place of the first, an exception
that ordinary handlers do not take leaves the test without closing anything more, and
an ordinary exception is *thrown into the next computation*, which may catch it and go
on as if nothing had happened.

## What is proved

`unwinding` follows the exception that is in flight while a stack of computations is
closed, and gives up as soon as something else than a verdict is in flight and
computations are left.  `mismatch_fails_test_iff` says that this is the whole story: the
test fails with the verdict, and does nothing but close computations from the mismatch
on, exactly when the unwinding ends with the very verdict it began with.  In particular
this is so when every cleanup ends quietly.

`cleanup_hides_mismatch` is a test that passes although its only effect was not
expected: the cleanup of an inner computation fails, and the outer one handles that.
-/

namespace DescribedEffects

/-- The harness closed a computation. -/
def Act.isClosing : Act → Bool
  | .closed .. => true
  | _ => false

namespace Harness

variable {σ : Type} {H : Host σ} {matchArgs : Bool}

/-! ## The mismatch -/

/-- An effect does not meet the next expectation; the value is what was expected. -/
inductive Unmet (matchArgs : Bool) (d : Descriptor) : List Expectation → Value → Prop
  /-- No expectation is left. -/
  | exhausted : Unmet matchArgs d [] .null
  /-- The next expectation is of another effect. -/
  | different {x : Expectation} {rest : List Expectation} {expected : Descriptor}
      (reads : x.descriptor = .ok expected)
      (differs : ExpectationOf.compare expected d matchArgs = .ok false) :
      Unmet matchArgs d (x :: rest) (.descriptor expected)

/-- The innermost computation, about to be resumed, yields an effect that does not meet
the next expectation. -/
structure Mismatch (H : Host σ) (matchArgs : Bool) (s : State σ) where
  signal : Signal
  innermost : Nat
  outer : List Nat
  item : Value
  /-- The host once the effect has been yielded. -/
  host : σ
  effect : Descriptor
  expected : Value
  delivers : s.control = .deliver signal
  active : s.active = innermost :: outer
  yields : H.resume innermost signal s.host = (.yielded item, host)
  plain : item.isComputation = false
  reads : Descriptor.parse item = .ok effect
  unmet : Unmet matchArgs effect s.pending expected

/-- The verdict that a mismatch leads to, and the host once it has been made. -/
def Mismatch.verdict {s : State σ} (m : Mismatch H matchArgs s) : Exn × σ :=
  H.raise (.unexpected (.descriptor m.effect) m.expected (.int s.consumed)) m.host

/-- An item that is no computation is read as a descriptor. -/
theorem receive_of_plain {item : Value} (h : item.isComputation = false) (s : State σ) :
    receive H matchArgs item s =
      match Descriptor.parse item with
      | .error m => failWith H m.body s
      | .ok d => examine H matchArgs d s := by
  cases item with
  | computation g => cases h
  | _ => rfl

theorem examine_of_unmet {d : Descriptor} {s : State σ} {expected : Value}
    (h : Unmet matchArgs d s.pending expected) :
    examine H matchArgs d s = reject H d expected s := by
  unfold examine
  generalize s.pending = pending at h ⊢
  cases h with
  | exhausted => rfl
  | different reads differs =>
    dsimp only
    rw [reads]
    dsimp only
    rw [differs]

namespace Mismatch

variable {s : State σ} (m : Mismatch H matchArgs s)

theorem isVerdict : m.verdict.1.isVerdict = true := by
  show ExnKind.unexpected.isVerdict = true
  decide

/-- A mismatch takes its verdict out of the innermost computation. -/
theorem step_eq :
    step H matchArgs s = .next { s with host := m.verdict.2, control := .escape m.verdict.1 } := by
  have hfail : ∀ t : State σ, t.fail m.verdict.1 = t.escape m.verdict.1 := by
    intro t
    simp [State.fail, m.isVerdict]
  have hreject : reject H m.effect m.expected { s with host := m.host } =
      { s with host := m.verdict.2, control := .escape m.verdict.1 } := hfail _
  have hexamine : examine H matchArgs m.effect { s with host := m.host } =
      reject H m.effect m.expected { s with host := m.host } := examine_of_unmet m.unmet
  rw [← hreject, ← hexamine]
  simp only [step, m.delivers, stepDeliver, m.active, m.yields, Host.settle, react,
    receive_of_plain m.plain, m.reads]

end Mismatch

/-! ## Unwinding -/

/-- What becomes of an exception while a stack of computations is closed on account of
it, innermost first.  There is no answer if something else than a verdict is in flight
before the last of them is closed. -/
def unwinding (H : Host σ) (e : Exn) : List Nat → σ → Option (Exn × σ)
  | [], host => some (e, host)
  | g :: outer, host =>
    if e.isVerdict then
      unwinding H ((H.close g e host).1.getD e) outer (H.close g e host).2
    else none

theorem unwinding_cons {e : Exn} (h : e.isVerdict = true) (g : Nat) (outer : List Nat)
    (host : σ) :
    unwinding H e (g :: outer) host =
      unwinding H ((H.close g e host).1.getD e) outer (H.close g e host).2 :=
  if_pos h

theorem unwinding_of_not_verdict {e : Exn} (h : e.isVerdict = false) (g : Nat)
    (outer : List Nat) (host : σ) : unwinding H e (g :: outer) host = none :=
  if_neg (by rw [h]; exact Bool.false_ne_true)

/-- Unwinding with a transcript closes the computations and does nothing else. -/
theorem unwinding_recorded (H : Host σ) (e : Exn) (stack : List Nat) (host : σ)
    (acts : List Act) :
    (unwinding H.recorded e stack (host, acts)).map (fun r => (r.1, r.2.1)) =
        unwinding H e stack host ∧
      ∀ r, unwinding H.recorded e stack (host, acts) = some r →
        ∃ closings, r.2.2 = acts ++ closings ∧ ∀ a ∈ closings, a.isClosing = true := by
  induction stack generalizing e host acts with
  | nil => exact ⟨rfl, fun r hr => ⟨[], by cases hr; simp, by simp⟩⟩
  | cons g outer ih =>
    cases he : e.isVerdict with
    | false =>
      rw [unwinding_of_not_verdict he, unwinding_of_not_verdict he]
      exact ⟨rfl, fun r hr => by cases hr⟩
    | true =>
      rw [unwinding_cons he, unwinding_cons he]
      refine ⟨(ih ..).1, fun r hr => ?_⟩
      obtain ⟨closings, hc, hall⟩ := (ih ..).2 r hr
      refine ⟨.closed g e (H.close g e host).1 :: closings, ?_, ?_⟩
      · rw [hc]
        simp
      · simpa [Act.isClosing] using hall

variable (matchArgs) in
/-- One computation is left by an exception. -/
theorem step_escape (e : Exn) (host : σ) (g : Nat) (outer : List Nat)
    (pending : List Expectation) (consumed : Nat) (notes : List Note) :
    step H matchArgs ⟨host, g :: outer, pending, consumed, notes, .escape e⟩ =
      if outer.isEmpty then
        .done ⟨.error (closeFor H e g host).1, (closeFor H e g host).2, pending, consumed, notes⟩
      else
        .next (State.fail ⟨(closeFor H e g host).2, outer, pending, consumed, notes, .escape e⟩
          (closeFor H e g host).1) := rfl

theorem closeFor_of_verdict {e : Exn} (h : e.isVerdict = true) (g : Nat) (host : σ) :
    closeFor H e g host = ((H.close g e host).1.getD e, (H.close g e host).2) :=
  if_pos h

theorem closeFor_of_not_verdict {e : Exn} (h : e.isVerdict = false) (g : Nat) (host : σ) :
    closeFor H e g host = (e, host) :=
  if_neg (by rw [h]; exact Bool.false_ne_true)

theorem fail_of_verdict {e : Exn} (h : e.isVerdict = true) (s : State σ) :
    s.fail e = s.escape e := by
  simp [State.fail, h]

/-- An exception that ordinary handlers do not take leaves every computation. -/
theorem fail_of_not_ordinary {e : Exn} (h : e.isOrdinary = false) (s : State σ) :
    s.fail e = s.escape e := by
  simp [State.fail, h]

theorem fail_of_ordinary {e : Exn} (h : e.isVerdict = false) (ho : e.isOrdinary = true)
    (s : State σ) : s.fail e = s.deliver (.throw e) := by
  simp [State.fail, h, ho]

/-- A verdict is an ordinary exception. -/
theorem isOrdinary_of_verdict {e : Exn} (h : e.isVerdict = true) : e.isOrdinary = true :=
  ExnKind.isOrdinary_of_isVerdict e.kind h

section

variable {pending : List Expectation} {consumed : Nat} {notes : List Note}

/-- An unwinding that has an answer is what the machine does, and it consumes nothing. -/
theorem runs_of_unwinding {e e' : Exn} {stack : List Nat} {host host' : σ} (hs : stack ≠ [])
    (h : unwinding H e stack host = some (e', host')) :
    ∃ n, Transition.runFor (step H matchArgs) n
        ⟨host, stack, pending, consumed, notes, .escape e⟩ =
      some ⟨.error e', host', pending, consumed, notes⟩ := by
  induction stack generalizing e host with
  | nil => exact absurd rfl hs
  | cons g outer ih =>
    cases he : e.isVerdict with
    | false => rw [unwinding_of_not_verdict he] at h; cases h
    | true =>
      rw [unwinding_cons he] at h
      have hstep := step_escape (H := H) matchArgs e host g outer pending consumed notes
      rw [closeFor_of_verdict he] at hstep
      cases outer with
      | nil =>
        cases h
        exact ⟨1, Transition.runFor_succ_of_done hstep 0⟩
      | cons g' rest =>
        -- Were it no verdict any more, the unwinding would have stopped here.
        have hx : ((H.close g e host).1.getD e).isVerdict = true := by
          by_contra hx
          rw [unwinding_of_not_verdict (Bool.eq_false_iff.2 hx)] at h
          cases h
        rw [fail_of_verdict hx] at hstep
        obtain ⟨n, hn⟩ := ih (List.cons_ne_nil g' rest) h
        exact ⟨n + 1, (Transition.runFor_succ_of_next hstep n).trans hn⟩

/-- An unwinding without an answer leaves computations behind.  What is in flight is
thrown into the innermost of them, or it is nothing that ordinary handlers take. -/
theorem broken_of_unwinding {e : Exn} {stack : List Nat} {host : σ}
    (he : e.isVerdict = true) (h : unwinding H e stack host = none) :
    ∃ x host' g outer control,
      Transition.Reaches (step H matchArgs) ⟨host, stack, pending, consumed, notes, .escape e⟩
        ⟨host', g :: outer, pending, consumed, notes, control⟩ ∧
      (control = .deliver (.throw x) ∨ control = .escape x ∧ x.isOrdinary = false) := by
  induction stack generalizing e host with
  | nil => cases h
  | cons g outer ih =>
    rw [unwinding_cons he] at h
    have hstep := step_escape (H := H) matchArgs e host g outer pending consumed notes
    rw [closeFor_of_verdict he] at hstep
    cases outer with
    | nil => cases h
    | cons g' rest =>
      rw [if_neg (by simp)] at hstep
      cases hx : ((H.close g e host).1.getD e).isVerdict with
      | true =>
        rw [fail_of_verdict hx] at hstep
        obtain ⟨x, host', i, inner, control, hreach, hc⟩ := ih hx h
        exact ⟨x, host', i, inner, control, .head hstep hreach, hc⟩
      | false =>
        cases ho : ((H.close g e host).1.getD e).isOrdinary with
        | true =>
          rw [fail_of_ordinary hx ho] at hstep
          exact ⟨_, _, _, _, _, .head hstep (.refl _), .inl rfl⟩
        | false =>
          rw [fail_of_not_ordinary ho] at hstep
          exact ⟨_, _, _, _, _, .head hstep (.refl _), .inr ⟨rfl, ho⟩⟩

/-- An exception that ordinary handlers do not take leaves the test as it is.  Nothing is
shown of a machine while an exception leaves it. -/
theorem ends_of_not_ordinary {L : Type} {shows : State σ → List L}
    (silent : ∀ (s : State σ) (e : Exn), s.control = .escape e → shows s = []) {e : Exn}
    (he : e.isOrdinary = false) (stack : List Nat) (host : σ) :
    Transition.Ends (step H matchArgs) shows
      ⟨host, stack, pending, consumed, notes, .escape e⟩ []
      ⟨.error e, host, pending, consumed, notes⟩ := by
  have hv : e.isVerdict = false := by
    by_contra hv
    rw [isOrdinary_of_verdict (Bool.not_eq_false _ ▸ hv)] at he
    cases he
  have hnothing := fun stack => silent ⟨host, stack, pending, consumed, notes, .escape e⟩ e rfl
  induction stack with
  | nil =>
    have hlast : Transition.Ends (step H matchArgs) shows
        ⟨host, [], pending, consumed, notes, .escape e⟩ _ _ := .last rfl
    rwa [hnothing] at hlast
  | cons g outer ih =>
    have hstep := step_escape (H := H) matchArgs e host g outer pending consumed notes
    rw [closeFor_of_not_verdict hv, fail_of_not_ordinary he] at hstep
    cases outer with
    | nil =>
      have hlast : Transition.Ends _ shows _ _ _ := .last hstep
      rwa [hnothing] at hlast
    | cons g' rest =>
      have hmore : Transition.Ends _ shows _ _ _ := .more hstep ih
      rwa [hnothing] at hmore

end

/-! ## Transcripts only grow -/

/-- Whatever a driver asks, a transcript that begins in some way goes on to do so. -/
theorem keeps_beginning (H : Host σ) (acts : List Act) :
    H.recorded.Keeps (fun s => acts <+: s.2) where
  call _ _ _ h := h.trans (List.prefix_append ..)
  start _ _ h := h.trans (List.prefix_append ..)
  wake _ _ h := h.trans (List.prefix_append ..)
  fresh _ h := h
  blame _ _ _ h := h
  drain _ h := h.trans (List.prefix_append ..)

theorem beginning_of_reaches {acts : List Act} {s t : State (σ × List Act)}
    (h : acts <+: s.host.2) (ht : Transition.Reaches (step H.recorded matchArgs) s t) :
    acts <+: t.host.2 :=
  kept_of_reaches (keeps_beginning H acts) (fun _ _ _ h => h.trans (List.prefix_append ..))
    (fun _ _ _ h => h.trans (List.prefix_append ..)) h ht

theorem beginning_of_runFor {acts : List Act} {s : State (σ × List Act)} {n : Nat}
    {r : Ending (σ × List Act)} (h : acts <+: s.host.2)
    (hr : Transition.runFor (step H.recorded matchArgs) n s = some r) : acts <+: r.host.2 :=
  kept_of_runFor (keeps_beginning H acts) (fun _ _ _ h => h.trans (List.prefix_append ..))
    (fun _ _ _ h => h.trans (List.prefix_append ..)) h hr

/-- A test that resumes a computation next goes on with this act. -/
theorem resumed_next {host : σ × List Act} {g : Nat} {outer : List Nat}
    {pending : List Expectation} {consumed : Nat} {notes : List Note} {signal : Signal} {n : Nat}
    {r : Ending (σ × List Act)}
    (hr : Transition.runFor (step H.recorded matchArgs) n
      ⟨host, g :: outer, pending, consumed, notes, .deliver signal⟩ = some r) :
    host.2 ++ [.resumed g signal (H.resume g signal host.1).1] <+: r.host.2 := by
  cases n with
  | zero => cases hr
  | succ n =>
    have hstep : (step H.recorded matchArgs
        ⟨host, g :: outer, pending, consumed, notes, .deliver signal⟩).Leads _ _ :=
      kept_of_react (keeps_beginning H _) _ _ (List.prefix_refl _)
    cases ht : step H.recorded matchArgs
        ⟨host, g :: outer, pending, consumed, notes, .deliver signal⟩ with
    | next t =>
      rw [ht] at hstep
      rw [Transition.runFor_succ_of_next ht] at hr
      exact beginning_of_runFor hstep hr
    | done q =>
      rw [ht] at hstep
      rw [Transition.runFor_succ_of_done ht] at hr
      cases hr
      exact hstep

/-- A test in which a computation is resumed does not just go on closing. -/
theorem resumes_of_deliver {acts : List Act} {host : σ × List Act} {g : Nat}
    {outer : List Nat} {pending : List Expectation} {consumed : Nat} {notes : List Note}
    {signal : Signal} {n : Nat} {r : Ending (σ × List Act)} (h : acts <+: host.2)
    (hr : Transition.runFor (step H.recorded matchArgs) n
      ⟨host, g :: outer, pending, consumed, notes, .deliver signal⟩ = some r) :
    ¬ ∃ closings, r.host.2 = acts ++ closings ∧ ∀ a ∈ closings, a.isClosing = true := by
  rintro ⟨closings, hrest, hall⟩
  obtain ⟨earlier, hearlier⟩ := h
  have hbegin := resumed_next hr
  rw [hrest, ← hearlier, List.append_assoc] at hbegin
  have hresumed := (List.prefix_append_right_inj acts).1 hbegin
  have hmem : Act.resumed g signal (H.resume g signal host.1).1 ∈ closings :=
    hresumed.subset (by simp)
  cases hall _ hmem

/-! ## The test fails with the verdict -/

/-- If nothing is raised while computations are closed, the unwinding ends with the
exception it began with. -/
theorem unwinding_of_quiet {e : Exn} (he : e.isVerdict = true) {stack : List Nat}
    (quiet : ∀ g ∈ stack, ∀ host, (H.close g e host).1 = none) (host : σ) :
    (unwinding H e stack host).map Prod.fst = some e := by
  induction stack generalizing host with
  | nil => rfl
  | cons g outer ih =>
    rw [unwinding_cons he, quiet g (List.mem_cons_self ..) host]
    exact ih (fun i hi => quiet i (List.mem_cons_of_mem g hi)) _

/-- Only a run that fails is judged a failure with a verdict of the run. -/
theorem eq_of_judge {strict : Bool} {r : Ending σ} {e : Exn} (he : e.kind ≠ .unused)
    (h : (judge H strict r).outcome = .error e) : judge H strict r = r := by
  cases ho : r.outcome with
  | error x => exact judge_of_error ho
  | ok v =>
    unfold judge at h ⊢
    rw [ho] at h ⊢
    dsimp only at h ⊢
    split
    · next hleft =>
      rw [if_pos hleft] at h
      cases h
      exact absurd rfl he
    · rfl

section

variable {expectations : Value} {program : Nat} {strict : Bool} {host₀ : σ}
  {host' : σ × List Act} {xs : List Expectation} {s : State (σ × List Act)}

/-- An unwinding that has an answer is what a test in which an effect is not met comes to, and
it consumes nothing. -/
theorem runTest_of_unwinding (gathered : Gathers H.recorded expectations (host₀, []) xs host')
    (reached : Transition.Reaches (step H.recorded matchArgs) (start host' program xs) s)
    (m : Mismatch H.recorded matchArgs s) {q : Exn × σ × List Act}
    (h : unwinding H.recorded m.verdict.1 s.active m.verdict.2 = some q) :
    ∃ fuel, runTest H.recorded fuel expectations (.computation program) strict matchArgs
      (host₀, []) = some ⟨.error q.1, q.2, s.pending, s.consumed, s.notes⟩ := by
  have hactive : s.active ≠ [] := by
    rw [m.active]
    simp
  obtain ⟨n, hn⟩ := runs_of_unwinding hactive h
  obtain ⟨n₀, hn₀⟩ :=
    (Transition.exists_runFor_iff_of_reaches (reached.tail m.step_eq)).2 ⟨n, hn⟩
  exact (exists_runTest_iff gathered).2 ⟨n₀, _, hn₀, (judge_of_error rfl).symm⟩

/-- A test that fails with the verdict and only closes computations on the way has unwound
them. -/
theorem unwinding_of_closings (gathered : Gathers H.recorded expectations (host₀, []) xs host')
    (reached : Transition.Reaches (step H.recorded matchArgs) (start host' program xs) s)
    (m : Mismatch H.recorded matchArgs s) {fuel : Nat} {r : Ending (σ × List Act)}
    (run : runTest H.recorded fuel expectations (.computation program) strict matchArgs
      (host₀, []) = some r) (raised : r.outcome = .error m.verdict.1)
    (closings : ∃ closings, r.host.2 = m.verdict.2.2 ++ closings ∧
      ∀ a ∈ closings, a.isClosing = true) :
    unwinding H.recorded m.verdict.1 s.active m.verdict.2 = some (m.verdict.1, r.host) := by
  have hactive : s.active ≠ [] := by
    rw [m.active]
    simp
  obtain ⟨n₀, r₀, hr₀, rfl⟩ := (exists_runTest_iff gathered).1 ⟨fuel, run⟩
  have hkind : m.verdict.1.kind ≠ .unused := fun h => by cases h
  have hjudge := eq_of_judge hkind raised
  rw [hjudge] at raised closings ⊢
  obtain ⟨n, hn⟩ := (Transition.exists_runFor_iff_of_reaches (reached.tail m.step_eq)).1 ⟨n₀, hr₀⟩
  cases hu : unwinding H.recorded m.verdict.1 s.active m.verdict.2 with
  | some q =>
    obtain ⟨n', hn'⟩ := runs_of_unwinding hactive hu
    obtain rfl := Transition.runFor_unique hn' hn
    have hq : q.1 = m.verdict.1 := Except.error.inj raised
    rw [← hq]
  | none =>
    exfalso
    obtain ⟨x, hostx, g, outer, control, hreach, hcontrol⟩ := broken_of_unwinding m.isVerdict hu
    obtain ⟨k, hk⟩ := (Transition.exists_runFor_iff_of_reaches hreach).1 ⟨n, hn⟩
    rcases hcontrol with rfl | ⟨rfl, hx⟩
    · exact resumes_of_deliver (beginning_of_reaches (List.prefix_refl _) hreach) hk closings
    · obtain ⟨k', hk'⟩ := (Transition.exists_ends_iff (fun _ => ([] : List Unit))).2
        ⟨_, ends_of_not_ordinary (fun _ _ _ => rfl) hx (g :: outer) hostx⟩
      obtain rfl := Transition.runFor_unique hk' hk
      have hxe : x = m.verdict.1 := Except.error.inj raised
      rw [hxe, isOrdinary_of_verdict m.isVerdict] at hx
      cases hx

end

/-- **When a mismatch fails the test.**  A test comes to a state in which an effect does
not meet the next expectation.  It fails with the verdict on that effect, consumes no
further expectation and does nothing to any computation but close it, exactly when the
unwinding of the active computations ends with that very verdict. -/
theorem mismatch_fails_test_iff {expectations : Value} {program : Nat} {strict : Bool}
    {host₀ : σ} {host' : σ × List Act} {xs : List Expectation}
    (gathered : Gathers H.recorded expectations (host₀, []) xs host')
    {s : State (σ × List Act)}
    (reached : Transition.Reaches (step H.recorded matchArgs) (start host' program xs) s)
    (m : Mismatch H.recorded matchArgs s) :
    (∃ fuel r,
        runTest H.recorded fuel expectations (.computation program) strict matchArgs
          (host₀, []) = some r ∧
        r.outcome = .error m.verdict.1 ∧ r.pending = s.pending ∧ r.consumed = s.consumed ∧
        ∃ closings, r.host.2 = m.verdict.2.2 ++ closings ∧
          ∀ a ∈ closings, a.isClosing = true) ↔
      (unwinding H m.verdict.1 s.active m.verdict.2.1).map Prod.fst = some m.verdict.1 := by
  obtain ⟨hplain, hrecorded⟩ :=
    unwinding_recorded H m.verdict.1 s.active m.verdict.2.1 m.verdict.2.2
  rw [← hplain]
  constructor
  · rintro ⟨fuel, r, hrun, houtcome, -, -, hclosings⟩
    rw [unwinding_of_closings gathered reached m hrun houtcome hclosings]
    rfl
  · intro h
    obtain ⟨q, hseen, hq⟩ := Option.map_eq_some_iff.1 h
    obtain ⟨p, hu, rfl⟩ := Option.map_eq_some_iff.1 hseen
    obtain ⟨fuel, hfuel⟩ := runTest_of_unwinding gathered reached m hu
    exact ⟨fuel, _, hfuel, congrArg Except.error hq, rfl, rfl, hrecorded p hu⟩

/-! ## A mismatch that is hidden -/

/-- Where two computations stand, one of which is nested in the other. -/
inductive Guarded where
  | outer
  | waiting
  | inner
  | effect

/-- The outer computation handles whatever comes out of the inner one.  The inner one
yields one effect, and when it is closed its cleanup fails or is quiet. -/
def guarded (fails : Bool) : Behaviour Guarded where
  resume
    | .outer, .send _ => .nested .inner .waiting
    | .inner, .send _ => .listed [.text "b"] .effect
    | .effect, .throw _ =>
      if fails then .raised ⟨0, .plain .value [.text "cleanup"]⟩ (by decide) else .returned .null
    | _, _ => .returned (.text "passed")

/-- The two computations in a world where nothing happens. -/
abbrev guardedHost (fails : Bool) : Host (Computations Guarded × Site Unit) :=
  (guarded fails).programs.host World.barren

/-- The computations before anything is resumed. -/
def guardedStart : Computations Guarded × Site Unit := (Computations.single .outer, ⟨(), 0, 0⟩)

/-- The inner computation is about to yield its effect, which nobody expects. -/
def guardedState : State ((Computations Guarded × Site Unit) × List Act) where
  host := ((⟨[.suspended .waiting, .unstarted .inner], 0⟩, ⟨(), 0, 0⟩),
    [.resumed 0 (.send .null) (.yielded (.computation 1))])
  active := [1, 0]
  pending := []
  consumed := 0
  notes := []
  control := .deliver (.send .null)

/-- The host once the inner computation has yielded its effect. -/
def guardedYield : (Computations Guarded × Site Unit) × List Act :=
  ((⟨[.suspended .waiting, .suspended .effect], 0⟩, ⟨(), 1, 0⟩),
    [.resumed 0 (.send .null) (.yielded (.computation 1)),
      .resumed 1 (.send .null) (.yielded (.list [.text "b"]))])

/-- Its effect is a mismatch, whatever the computations do later. -/
def Mismatch.guarded {H : Host ((Computations Guarded × Site Unit) × List Act)}
    (yields : H.resume 1 (.send .null) guardedState.host =
      (.yielded (.list [.text "b"]), guardedYield)) :
    Mismatch H true guardedState where
  signal := .send .null
  innermost := 1
  outer := [0]
  item := .list [.text "b"]
  host := guardedYield
  effect := ⟨.direct, [.text "b"], [], none⟩
  expected := .null
  delivers := rfl
  active := rfl
  yields := yields
  plain := rfl
  reads := rfl
  unmet := .exhausted

/-- The mismatch of the guarded computations. -/
def guardedMismatch (fails : Bool) : Mismatch (guardedHost fails).recorded true guardedState :=
  .guarded rfl

/-- A quiet cleanup does not save the test. -/
theorem quiet_cleanup_fails_test :
    ∃ fuel r,
      runTest (guardedHost false).recorded fuel (.list []) (.computation 0) true true
        (guardedStart, []) = some r ∧
      r.outcome = .error (guardedMismatch false).verdict.1 ∧
      r.pending = [] ∧ r.consumed = 0 ∧
      ∃ closings, r.host.2 = (guardedMismatch false).verdict.2.2 ++ closings ∧
        ∀ a ∈ closings, a.isClosing = true :=
  (mismatch_fails_test_iff (gathers_list _ rfl) (.head rfl (.refl guardedState))
    (guardedMismatch false)).2 rfl

/-- **A cleanup that fails hides the mismatch.**  The only effect of the test is not
expected, and the test passes. -/
theorem cleanup_hides_mismatch :
    Transition.Reaches (step (guardedHost true).recorded true)
        (start (guardedStart, []) 0 []) guardedState ∧
      Nonempty (Mismatch (guardedHost true).recorded true guardedState) ∧
      ∃ r, runTest (guardedHost true).recorded 5 (.list []) (.computation 0) true true
        (guardedStart, []) = some r ∧ r.outcome = .ok (.text "passed") :=
  ⟨.head rfl (.refl guardedState), ⟨guardedMismatch true⟩, _, rfl, rfl⟩

end Harness
end DescribedEffects
