import DescribedEffects.Interpreter
import DescribedEffects.Proofs.Computation.Behaviour
import DescribedEffects.Proofs.Computation.Keeping
import DescribedEffects.Proofs.Computation.Yields
import DescribedEffects.Proofs.EventLoop.Stages

/-!
# The trace as a transcript

An interpreter without a bound writes into its trace what happened between it and the
computations that it drove.  The host's own transcript says the same: which effects were
yielded, and what each of the computations was resumed with next.  Here the two are shown
to agree, for any host (`Interpreter.trace_transcribes`).

The loop yields nothing and answers nothing by itself, so a step that resumes no
computation leaves the effects of the transcript alone (`kept_of_step`).  What is left are
the steps of the driver.  `Recording` is the state of the books between them: an effect on
its way is the only one without a record, whatever the depth at which it was yielded, since
nothing is resumed before it has its outcome.  `recording_of_step` says that every step
keeps the books.
-/

namespace DescribedEffects

/-- A host with the same answers, whose computations do nothing. -/
def Host.muted {σ : Type} (H : Host σ) : Host σ :=
  { H with
    resume := fun _ _ s => (.returned .null, s)
    close := fun _ _ s => (none, s) }

namespace EventLoop

/-! ## Steps that resume nothing -/

section

variable {σ : Type} {H : Host σ} {context : Value} {I : σ → Prop} {s u : State σ}

theorem kept_of_asked (K : H.Keeps I) {a b : σ} (h : H.muted.Asked a b) (ha : I a) : I b := by
  cases h with
  | resume g signal _ => exact ha
  | call f args _ => exact K.call f args _ ha
  | start k _ => exact K.start k _ ha
  | wake k _ => exact K.wake k _ ha
  | fresh _ => exact K.fresh _ ha
  | blame id cause _ => exact K.blame id cause _ ha

theorem kept_of_change (K : H.Keeps I) {t : Nat} {claims completes : Nat → Prop}
    (h : Change H.muted t claims completes s u) (hs : I s.host) : I u.host := by
  cases h with
  | asked h => exact kept_of_asked K h hs
  | granted =>
    rw [host_grantAll]
    exact K.drain _ hs
  | moved phase => rwa [host_setPhase]
  | subscribed p _ _ => rwa [host_subscribe]
  | claimed _ => rwa [host_claim]
  | completed _ o => rwa [host_complete]
  | _ => exact hs

/-- Whether computations can be resumed makes no difference as long as none is. -/
theorem step_muted (h : ∀ t j captured signal, s.control ≠ .deliver t j captured signal) :
    step H.muted context s = step H context s := by
  unfold step
  cases hc : s.control with
  | deliver t j captured signal => exact absurd hc (h t j captured signal)
  | idle => rfl
  | perform t goal d => rfl
  | outcome t goal o => rfl

/-- **A step that resumes no computation** keeps what all other questions keep. -/
theorem kept_of_step (K : H.Keeps I)
    (quiet : ∀ t j captured signal, s.control ≠ .deliver t j captured signal)
    (h : step H context s = .next u) (hs : I s.host) : I u.host := by
  rw [← step_muted quiet] at h
  exact kept_of_changes (P := fun u => I u.host)
    (fun hchanges hx => hchanges.kept (P := fun u => I u.host) (kept_of_change K) hx)
    (fun _ _ hhost _ hx => by rwa [hhost]) h hs

/-- A question about anything but a computation leaves no effect behind. -/
theorem keeps_yields (ys : List Yield) : H.recorded.Keeps fun s => yields s.2 = ys where
  call _ _ _ h := (yields_concat_of_quiet _ fun _ _ _ h => by cases h).trans h
  start _ _ h := (yields_concat_of_quiet _ fun _ _ _ h => by cases h).trans h
  wake _ _ h := (yields_concat_of_quiet _ fun _ _ _ h => by cases h).trans h
  fresh _ h := h
  blame _ _ _ h := h
  drain _ h := (yields_concat_of_quiet _ fun _ _ _ h => by cases h).trans h

end

/-! ## The books of a driven computation -/

section

variable {σ : Type} {H : Host σ} {context : Value} {s u : State (σ × List Act)}

/-- Where the records stand of a loop that drives a computation and keeps a trace without a
bound.  While an effect is on its way it is the only one without a record; it gets one when
the computation is about to hear of its outcome. -/
inductive Recording (s : State (σ × List Act)) : Prop
  | telling (j : Journey) (g : Nat) (rest : List Nat) (t : Trace) (signal : Signal)
      (control : s.control = .deliver 0 j true signal) (active : j.active = g :: rest)
      (traced : j.trace = some t)
      (recorded : Recorded t ((yields s.host.2).map (.hear g signal)))
  | pending (j : Journey) (g : Nat) (rest : List Nat) (t : Trace) (item : Value)
      (d : Descriptor) (ys : List Yield)
      (busy : s.control = .perform 0 (.drive j true) d ∨ Engaged 0 (.drive j true) s)
      (active : j.active = g :: rest) (traced : j.trace = some t) (current : j.current = some d)
      (parsed : Descriptor.parse item = .ok d) (yielded : yields s.host.2 = ys ++ [⟨g, item, none⟩])
      (recorded : Recorded t ys)
  | finished (o : Outcome) (t : Trace) (hover : Over (some ⟨o, some t⟩) s)
      (outcome : s.outcome? 0 = some (result true o))
      (recorded : ∀ v, result true o = .ok v → Recorded t (yields s.host.2))

variable {y : State (σ × List Act)} {j : Journey} {g : Nat} {rest : List Nat} {t : Trace}

/-- The end of the driven computation. -/
theorem recording_finishDrive (hy : Main y) (hgoing : Ongoing y) {o : Outcome}
    (traced : j.trace = some t)
    (recorded : ∀ v, result true o = .ok v → Recorded t (yields y.host.2)) :
    Recording (finishDrive y 0 j true o) := by
  have hover : Over (some ⟨o, j.trace⟩) (finishDrive y 0 j true o) :=
    over_finish hgoing.present ..
  rw [traced] at hover
  refine .finished o t hover (outcome_finish hy hgoing _ _) fun v hv => ?_
  have hhost : (finishDrive y 0 j true o).host = y.host := host_finish ..
  rw [hhost]
  exact recorded v hv

/-- The innermost computation ends: the one below it hears of that, or the run is over. -/
theorem recording_leave (hy : Main y) (hgoing : Ongoing y) (traced : j.trace = some t)
    (recorded : Recorded t (yields y.host.2)) (o : Outcome) :
    Recording (leave y 0 j true o) := by
  have hfinish : ∀ o, Recording (finishDrive y 0 j true o) := fun o =>
    recording_finishDrive hy hgoing traced fun _ _ => recorded
  have hturn : ∀ g' rest' signal, Recording
      { y with control := .deliver 0 { j with active := g' :: rest' } true signal } :=
    fun g' rest' signal => by
      refine .telling _ g' rest' t signal rfl rfl traced ?_
      show Recorded t ((yields y.host.2).map _)
      rwa [recorded.hear]
  unfold leave
  split
  · exact hfinish o
  · next hrest =>
    obtain ⟨g', rest', hactive⟩ := List.exists_cons_of_ne_nil hrest
    rw [hactive]
    cases o with
    | ok v => exact hturn ..
    | error e =>
      dsimp only
      split
      · exact hturn ..
      · exact hfinish _

/-- The innermost computation yields something. -/
theorem recording_receive {item : Value} {ys : List Yield} (active : j.active = g :: rest)
    (traced : j.trace = some t) (recorded : Recorded t ys)
    (yielded : yields y.host.2 =
      ys ++ ((Reply.yielded item).effect?.map fun item => (⟨g, item, none⟩ : Yield)).toList) :
    Recording (receive H.recorded y 0 j true item) := by
  have hturn : (Reply.yielded item).effect? = none → ∀ u : State (σ × List Act),
      u.host.2 = y.host.2 → ∀ j' g' rest' signal, j'.active = g' :: rest' → j'.trace = some t →
      u.control = .deliver 0 j' true signal → Recording u := by
    intro hnone u hu j' g' rest' signal hactive htrace hcontrol
    refine .telling j' g' rest' t signal hcontrol hactive htrace ?_
    rw [hu, yielded, hnone, Option.map_none, Option.toList_none, List.append_nil, recorded.hear]
    exact recorded
  cases hitem : item.isComputation with
  | true =>
    cases item with
    | computation inner =>
      exact hturn rfl _ rfl { j with active := inner :: j.active } inner j.active (.send .null) rfl
        traced rfl
    | _ => cases hitem
  | false =>
    rw [receive_of_plain _ _ _ _ hitem]
    cases hparse : Descriptor.parse item with
    | error m =>
      have hnone : (Reply.yielded item).effect? = none := by
        simp [Reply.effect?, hparse, Except.isOk, Except.toBool]
      exact hturn hnone _ rfl j g rest _ active traced rfl
    | ok d =>
      have hsome : (Reply.yielded item).effect? = some item := by
        simp [Reply.effect?, hitem, hparse, Except.isOk, Except.toBool]
      rw [hsome] at yielded
      exact .pending _ g rest t item d ys (.inl rfl) active traced rfl hparse yielded recorded

/-- The innermost computation is resumed. -/
theorem recording_deliver (sound : Sound y) (hy : Main y) (hgoing : Ongoing y)
    (active : j.active = g :: rest) (traced : j.trace = some t) {signal : Signal}
    (recorded : Recorded t ((yields y.host.2).map (.hear g signal))) :
    Recording (deliver H.recorded y 0 j true signal) := by
  let reply := (H.resume g signal y.host.1).1
  let host := (H.recorded.resume g signal y.host).2
  have hchanges : Changes H.recorded 0 (fun _ => True) (· ≠ 0) y (y.resuming H.recorded g signal) :=
    changes_resuming ..
  have hmain := main_of_changes hchanges sound hy
  have hongoing := hgoing.changes hchanges
  have hyields : yields (y.resuming H.recorded g signal).host.2 =
      (yields y.host.2).map (.hear g signal) ++
        (reply.effect?.map fun item => (⟨g, item, none⟩ : Yield)).toList := by
    rw [State.resuming, host_grantAll, (keeps_yields _).drain host (yields_concat ..)]
    rfl
  have hleave : reply.effect? = none → ∀ o,
      Recording (leave (y.resuming H.recorded g signal) 0 j true o) := by
    intro hnone o
    rw [hnone, Option.map_none, Option.toList_none, List.append_nil] at hyields
    exact recording_leave hmain hongoing traced (hyields ▸ recorded) o
  rw [deliver_of_active y active, show (H.recorded.resume g signal y.host).1 = reply from rfl]
  cases hreply : reply with
  | yielded item =>
    rw [hreply] at hyields
    exact recording_receive active traced recorded hyields
  | returned v => exact hleave (by rw [hreply]; rfl) _
  | raised e =>
    have hnone : reply.effect? = none := by rw [hreply]; rfl
    unfold Host.settle
    by_cases he : e.isExhausted = true
    · simp only [he]
      exact hleave hnone _
    · simp only [he]
      exact hleave hnone _

/-- The driven computation is about to hear of the outcome of its effect. -/
theorem recording_answerDrive (hy : Main y) (hgoing : Ongoing y) (active : j.active = g :: rest)
    (traced : j.trace = some t) {d : Descriptor} {item : Value} {ys : List Yield}
    (current : j.current = some d) (parsed : Descriptor.parse item = .ok d)
    (yielded : yields y.host.2 = ys ++ [⟨g, item, none⟩]) (recorded : Recorded t ys)
    (o : Outcome) : Recording (answerDrive H.recorded y 0 j true o) := by
  have hdeliver : ∀ o, Recording
      (deliverRecorded H.recorded y 0 (j.record o) true (.ofOutcome o)) := by
    intro o
    have hadded : Recorded (t.add ⟨d, o⟩) ((yields y.host.2).map (.hear g (.ofOutcome o))) := by
      rw [yielded]
      exact recorded.add g parsed o
    have htrace : (j.record o).trace = some (t.add ⟨d, o⟩) := by
      simp [Journey.record, current, traced]
    have hactive : (j.record o).active = g :: rest := by
      simp [Journey.record, current, active]
    have hfree : (j.record o).isStrained = false := by
      simp [Journey.isStrained, htrace, Trace.isStrained_of_unbounded hadded.bound]
    unfold deliverRecorded
    rw [hfree]
    exact .telling _ g rest _ _ rfl hactive htrace hadded
  unfold answerDrive
  cases o with
  | ok v => exact hdeliver (.ok v)
  | error e =>
    dsimp only
    split
    · exact hdeliver (.error e)
    · next he =>
      refine recording_finishDrive hy hgoing traced fun v hv => ?_
      simp [result, captureOutcome, he] at hv

/-- **Every step keeps the books.** -/
theorem recording_of_step (hs : Steady s) (hr : Recording s)
    (h : step H.recorded context s = .next u) : Recording u := by
  have hyields : (∀ t j captured signal, s.control ≠ .deliver t j captured signal) →
      yields u.host.2 = yields s.host.2 := fun quiet =>
    kept_of_step (keeps_yields _) quiet h rfl
  cases hr with
  | telling j g rest t signal control active traced recorded =>
    obtain rfl := Transition.next.inj (h.symm.trans (step_of_deliver _ context control))
    have hbusy : s.control.task? = some 0 := by rw [control]; rfl
    exact recording_deliver hs.sound_toIdle hs.main_toIdle (hs.ongoing_toIdle hbusy) active traced
      recorded
  | pending j g rest t item d ys busy active traced current parsed yielded recorded =>
    have hwaiting : Engaged 0 (.drive j true) u →
        (∀ t j captured signal, s.control ≠ .deliver t j captured signal) → Recording u :=
      fun hengaged quiet => by
        have hsame := (hyields quiet).trans yielded
        exact .pending j g rest t item d ys (.inr hengaged) active traced current parsed hsame
          recorded
    rcases busy with control | ⟨phase, hphase, hgoal, elsewhere⟩ | ⟨o, control⟩
    · refine hwaiting (engaged_of_perform hs.main.present control h) fun _ _ _ _ hc => ?_
      rw [control] at hc
      cases hc
    · exact hwaiting (engaged_of_step hphase hgoal elsewhere h) (hs.lone.not_deliver elsewhere)
    · obtain rfl := Transition.next.inj (h.symm.trans (step_of_answer _ context control))
      have hbusy : s.control.task? = some 0 := by rw [control]; rfl
      exact recording_answerDrive hs.main_toIdle (hs.ongoing_toIdle hbusy) active traced current
        parsed yielded recorded o
  | finished o t hover outcome recorded =>
    refine .finished o t (over_of_step hover h) (outcome_of_step outcome h) ?_
    rwa [hyields (hs.lone.not_deliver hover.elsewhere)]

variable (H context) in
/-- Whatever is to be driven, the books are in order once the loop has looked at it. -/
theorem recording_begin (host : σ) (run : Nat) (earlier : List (Nat × Outcome))
    (program : Value) :
    ∃ u, step H.recorded context
        { State.start (host, []) run earlier (.drive program (some (.empty .unbounded)) true) with
          batch := 1 } = .next u ∧ Lone u ∧ Recording u := by
  have hstep : ∀ program, step H.recorded context
      { State.start (host, []) run earlier (.drive program (some (.empty .unbounded)) true) with
        batch := 1 } =
      .next (beginDrive H.recorded
        { State.start (host, []) run earlier (.drive program (some (.empty .unbounded)) true) with
          ready := []
          tasks := [⟨.running, 0⟩] } 0 program (some (.empty .unbounded)) true) := fun _ => rfl
  refine ⟨_, hstep program, ?_⟩
  unfold beginDrive
  split
  · next g =>
    refine ⟨lone_of_single rfl (fun errand h => by cases h) fun k hk => ?_, ?_⟩
    · cases hk
      exact ⟨rfl, rfl⟩
    · exact .telling ⟨[g], none, some (.empty .unbounded)⟩ g [] _ _ rfl rfl rfl recorded_empty
  · refine ⟨lone_of_single rfl (fun errand h => by cases h) fun k hk => (by cases hk), ?_⟩
    exact .finished _ _ ⟨rfl, fun h => by cases h⟩ rfl fun _ _ => recorded_empty

/-- The books are in order when the loop ends. -/
theorem recording_of_done {host : σ} {run : Nat} {earlier : List (Nat × Outcome)}
    {program : Value} {r : Ending (σ × List Act)}
    (h : Transition.Reaches (step H.recorded context)
      (State.start (host, []) run earlier (.drive program (some (.empty .unbounded)) true)) s)
    (hdone : step H.recorded context s = .done r) : Recording s := by
  let start : State (σ × List Act) :=
    State.start (host, []) run earlier (.drive program (some (.empty .unbounded)) true)
  have hfirst : step H.recorded context start = .next { start with batch := 1 } := rfl
  obtain ⟨u, hsecond, hlone, hrecording⟩ := recording_begin H context host run earlier program
  rcases h.cases_of_next hfirst with rfl | hlater
  · rw [hfirst] at hdone
    cases hdone
  rcases hlater.cases_of_next hsecond with rfl | hlatest
  · rw [hsecond] at hdone
    cases hdone
  have hsteady : Steady u := steady_of_reaches (.head hfirst (.head hsecond (.refl u))) hlone
  have hall : Steady s ∧ Recording s :=
    hlatest.invariant (P := fun s => Steady s ∧ Recording s)
      (fun _ _ hs hstep => ⟨hs.1.next hstep, recording_of_step hs.1 hs.2 hstep⟩)
      ⟨hsteady, hrecording⟩
  exact hall.2

/-- Once the main task has an outcome and the loop is idle the driven computation is over. -/
theorem Recording.report (hr : Recording s) (timely : Timely s) (idle : s.control = .idle)
    {o : Outcome} (ho : s.outcome? 0 = some o) :
    ∃ o' t, s.result? 0 = some ⟨o', t⟩ ∧ (∀ v, o = .ok v → Recorded t (yields s.host.2)) := by
  cases hr with
  | telling j g rest t signal control =>
    rw [idle] at control
    cases control
  | pending j g rest t item d ys busy =>
    exfalso
    rcases busy with control | ⟨phase, hphase, hgoal, -⟩ | ⟨o, control⟩
    · rw [idle] at control
      cases control
    · rcases timely with hgoing | ⟨report, hover⟩
      · rw [hgoing.outcome] at ho
        cases ho
      · rw [hover.finished] at hphase
        cases hphase
        cases hgoal
    · rw [idle] at control
      cases control
  | finished o' t hover outcome recorded =>
    obtain rfl := Option.some.inj (outcome.symm.trans ho)
    refine ⟨o', t, ?_, recorded⟩
    simp only [State.result?, hover.finished]

end

end EventLoop

open EventLoop in
/-- The books of an interpreter without a bound are whole when its run returns. -/
theorem Interpreter.recorded_of_run {σ : Type} (A : Arena) (H : Host σ) (program : Value)
    (host : σ) {result : RunResult}
    (returns : (Interpreter.run ⟨.unbounded⟩ A H.recorded program (host, [])).verdict =
      .ok result) :
    Recorded result.trace
      (yields (Interpreter.run ⟨.unbounded⟩ A H.recorded program (host, [])).host.2) := by
  unfold Interpreter.run at returns ⊢
  cases hrun : A.run H.recorded (.drive program (some (Interpreter.newTrace ⟨.unbounded⟩)) true)
      (host, []) with
  | none =>
    rw [hrun] at returns
    cases returns
  | some r =>
    rw [hrun] at returns
    obtain ⟨s, hreach, hdone⟩ := Transition.exists_runFor_iff.1 ⟨_, hrun⟩
    have hr := recording_of_done hreach hdone
    obtain ⟨idle, ⟨o, rfl, ho⟩ | ⟨rfl, -⟩⟩ := ends_of_main (main_of_reaches hreach) hdone
    · obtain ⟨o', t, hresult, hrecorded⟩ := hr.report (timely_of_reaches hreach) idle ho
      cases o with
      | error e => cases returns
      | ok v =>
        have hreturned : (s.result? 0).getD ⟨.ok v, Interpreter.newTrace ⟨.unbounded⟩⟩ = result :=
          Except.ok.inj returns
        rw [hresult, Option.getD_some] at hreturned
        subst hreturned
        exact hrecorded v rfl
    · cases returns

/-- **The trace is a faithful transcript.**  Whatever an interpreter without a bound drives, if
the run returns then there is one record for every effect that was yielded, at whatever depth
of nesting, and in the same order: the record has its descriptor, and a value or an exception
exactly if the computation that yielded it was resumed next by sending that value or by
throwing that exception. -/
theorem Interpreter.trace_transcribes {σ : Type} (A : Arena) (H : Host σ) (program : Value)
    (host : σ) {result : RunResult}
    (returns : (Interpreter.run ⟨.unbounded⟩ A H.recorded program (host, [])).verdict =
      .ok result) :
    List.Forall₂ Transcribes result.trace.log.entries
      (yields (Interpreter.run ⟨.unbounded⟩ A H.recorded program (host, [])).host.2) :=
  (Interpreter.recorded_of_run A H program host returns).entries

/-! ## A run with a bit of everything -/

/-- Where two computations stand, of which the outer one yields the inner one. -/
inductive Traveller where
  | outer
  | inner
  | refused
  | failed
  | back
  | done

/-- The inner computation yields something malformed, then an effect that fails, and returns;
the outer one goes on with a group of effects. -/
def traveller : Behaviour Traveller where
  resume
    | .outer, _ => .nested .inner .back
    | .inner, _ => .yielded (.int 5) rfl .refused
    | .refused, .throw _ => .listed [.text "missing"] .failed
    | .failed, .throw _ => .returned (.text "caught")
    | .back, .send _ =>
      .yielded (.descriptor ⟨.parallel, [], [.list [.text "a"], .list [.text "a"]], none⟩) rfl .done
    | .done, .send v => .returned v
    | _, _ => .returned .null

/-- The outer computation before it is resumed. -/
def departure : Computations Traveller × Site Unit := (Computations.single .outer, ⟨(), 0, 0⟩)

/-- A loop that finds a number for the effects of the group, and nothing for the other one. -/
def travelArena : Arena := ⟨40, 0, [], .record [(.text "a", .int 7)]⟩

/-- The effect that failed and the group are recorded; the computation and the malformed item
are not. -/
theorem travel_is_transcribed :
    let run := Interpreter.run ⟨.unbounded⟩ travelArena (traveller.programs.host .barren).recorded
      (.computation 0) (departure, [])
    ∃ result, run.verdict = .ok result ∧
      result.outcome = .ok (.list [.int 7, .int 7]) ∧
      (yields run.host.2).map Yield.computation = [1, 0] ∧
      List.Forall₂ Transcribes result.trace.log.entries (yields run.host.2) :=
  ⟨_, rfl, rfl, rfl, Interpreter.trace_transcribes _ _ _ _ rfl⟩

end DescribedEffects
