import DescribedEffects.Proofs.Computation.Moments
import DescribedEffects.Proofs.EventLoop.Recording

/-!
# The turns of a driven computation

A loop that drives a computation resumes the innermost of a stack, again and again.  Here it is
shown what it may go on with after each turn, and what it may end with after the last one
(`driving_of_trail`, `turns_of_ends`).

`Driving` is what is known of the loop when the last moment at which it resumed a computation is
known.  It is about to resume one, and this moment follows the last; or an effect that was yielded
then is on its way, for the same stack; or the run is over, with an outcome that the last turn
accounts for.  Effects are performed in between, and may fail in any way.  That does not matter:
the stack stays as it is meanwhile, all computations on it are suspended, and one that is suspended
can have anything thrown into it.
-/

namespace DescribedEffects
namespace EventLoop

open Bodies

variable {S σ : Type} {B : Bodies S σ} {K : Host σ} {context : Value} {program : Nat}

/-- The loop is about to resume the innermost of the computations that it drives. -/
def moments (s : State (Running S σ)) : List (Moment S σ) :=
  match s.control with
  | .deliver _ j _ signal => [⟨j.active, signal, s.host⟩]
  | _ => []

/-- An effect that was yielded at that moment has no outcome yet, and the computations wait. -/
structure Unanswered (B : Bodies S σ) (program : Nat) (m : Moment S σ) (j : Journey)
    (c : Computations S) : Prop where
  untraced : j.trace = none
  yields : ∃ item plain y, B.Takes m (.yielded item plain y)
  active : j.active = m.active
  rests : Resting c j.active
  bottom : j.active.getLast? = some program

/-- Where a loop stands that has last resumed a computation at that moment. -/
inductive Driving (B : Bodies S σ) (program : Nat) (last : Option (Moment S σ))
    (s : State (Running S σ)) : Prop
  | telling (j : Journey) (signal : Signal) (control : s.control = .deliver 0 j false signal)
      (untraced : j.trace = none) (lined : Lined s.host.made j.active signal)
      (bottom : j.active.getLast? = some program)
      (follows : ∀ m ∈ last, B.Follows m ⟨j.active, signal, s.host⟩)
  | pending (m : Moment S σ) (before : last = some m) (j : Journey) (d : Descriptor)
      (busy : s.control = .perform 0 (.drive j false) d ∨ Engaged 0 (.drive j false) s)
      (waits : Unanswered B program m j s.host.made)
  | ended (m : Moment S σ) (before : last = some m) (o : Outcome) (report : Option Report)
      (hover : Over report s) (outcome : s.outcome? 0 = some o)
      (concludes : B.Concludes program m s.host.causes o)

/-- The last turn accounts for how the loop ends.  It can also end without an outcome, when
nothing will ever come of an effect. -/
inductive Accounts (B : Bodies S σ) (program : Nat) (m : Moment S σ) :
    Ending (Running S σ) → Prop
  | finished {o : Outcome} {s : State (Running S σ)}
      (concludes : B.Concludes program m s.host.causes o) :
      Accounts B program m (.finished o s)
  | deadlock (s : State (Running S σ)) : Accounts B program m (.deadlock s)

variable {s u y : State (Running S σ)} {m : Moment S σ} {j : Journey} {g : Nat}
  {outer : List Nat}

/-- The innermost computation can be told anything. -/
theorem Unanswered.lined {c : Computations S} (waits : Unanswered B program m j c)
    (signal : Signal) : Lined c j.active signal := by
  have hrests := waits.rests
  cases hactive : j.active with
  | nil =>
    have hbottom := waits.bottom
    rw [hactive] at hbottom
    cases hbottom
  | cons g outer =>
    rw [hactive] at hrests
    exact hrests.lined signal

/-- The end of the driven computation. -/
theorem driving_finishDrive (hy : Main y) (hgoing : Ongoing y) {o : Outcome}
    (concludes : B.Concludes program m y.host.causes o) :
    Driving B program (some m) (finishDrive y 0 j false o) := by
  have hhost : (finishDrive y 0 j false o).host = y.host := host_finish ..
  refine .ended m rfl o _ (over_finish hgoing.present ..) (outcome_finish hy hgoing _ _) ?_
  rwa [hhost]

/-- The innermost computation ends: the one below it hears of that, or the run is over. -/
theorem driving_leave (hy : Main y) (hgoing : Ongoing y) (untraced : j.trace = none)
    (active : j.active = g :: outer) (bottom : j.active.getLast? = some program)
    (rests : Resting y.host.made outer) {o : Outcome}
    (follows : B.Follows m ⟨outer, .ofOutcome o, y.host⟩)
    (alone : outer = [] → B.Concludes program m y.host.causes o)
    (passes : ∀ e, o = .error e → e.isOrdinary = false → B.Concludes program m y.host.causes o) :
    Driving B program (some m) (leave y 0 j false o) := by
  have hturn : outer ≠ [] → Driving B program (some m)
      { y with control := .deliver 0 { j with active := outer } false (.ofOutcome o) } := by
    intro hne
    obtain ⟨h, outer', rfl⟩ := List.exists_cons_of_ne_nil hne
    refine .telling { j with active := h :: outer' } _ rfl untraced (rests.lined _) ?_
      fun _ hm => ?_
    · rwa [active, List.getLast?_cons_cons] at bottom
    · obtain rfl := Option.some.inj hm
      exact follows
  unfold leave
  rw [active, List.tail_cons]
  split
  · exact driving_finishDrive hy hgoing (alone rfl)
  · next hne =>
    cases o with
    | ok v => exact hturn hne
    | error e =>
      dsimp only
      split
      · exact hturn hne
      · next he =>
        exact driving_finishDrive hy hgoing (passes e rfl (Bool.eq_false_iff.2 he))

/-- The innermost computation yields something. -/
theorem driving_receive (untraced : j.trace = none) (active : j.active = g :: outer)
    (same : m.active = j.active) (bottom : j.active.getLast? = some program) {item : Value}
    (resumed : B.Resumed m g outer (.yielded item) y.host) :
    Driving B program (some m) (receive (B.host K) y 0 j false item) := by
  cases resumed with
  | @yielded item plain z _ takes rests =>
    rw [receive_of_plain _ _ _ _ plain]
    cases Descriptor.parse item with
    | error fault =>
      refine .telling j _ rfl untraced ?_ bottom fun _ hm => ?_
      · rw [active]
        exact (made_raise B K fault.body y.host ▸ rests).lined _
      · obtain rfl := Option.some.inj hm
        exact .answered takes same.symm
    | ok d =>
      exact .pending m rfl _ d (.inl rfl)
        ⟨untraced, ⟨item, plain, z, takes⟩, same.symm, active ▸ rests, bottom⟩
  | @nested inner z n _ takes lined fresh =>
    refine .telling { j with active := n :: j.active } _ rfl untraced (active ▸ lined) ?_
      fun _ hm => ?_
    · rw [active, List.getLast?_cons_cons, ← active]
      exact bottom
    · obtain rfl := Option.some.inj hm
      exact .begun takes (congrArg (n :: ·) same.symm) rfl fresh

/-- The innermost computation is resumed. -/
theorem driving_deliver (sound : Sound y) (hy : Main y) (hgoing : Ongoing y)
    (untraced : j.trace = none) {signal : Signal} (lined : Lined y.host.made j.active signal)
    (bottom : j.active.getLast? = some program) :
    Driving B program (some ⟨j.active, signal, y.host⟩)
      (deliver (B.host K) y 0 j false signal) := by
  obtain ⟨g, outer, active⟩ := lined.exists_cons
  let v := y.resuming (B.host K) g signal
  have hchanges : Changes (B.host K) 0 (fun _ => True) (· ≠ 0) y v := changes_resuming ..
  have hmain := main_of_changes hchanges sound hy
  have hongoing := hgoing.changes hchanges
  have hhost : v.host = ((B.host K).drain ((B.host K).resume g signal y.host).2).2 :=
    host_grantAll _
  -- To grant what was asked for meanwhile moves no computation and forgets no cause.
  have hresumed : B.Resumed ⟨j.active, signal, y.host⟩ g outer
      (Host.settle ((B.host K).resume g signal y.host).1) v.host := by
    refine (resumed_of_lined K active (active ▸ lined)).later ?_ fun cause hcause => ?_
    · rw [hhost]
      exact (keeps_host (Running.keeps_made K _)).drain _ rfl
    · rw [hhost]
      exact (keeps_host (Running.keeps_causes K cause)).drain _ hcause
  have halone : outer = [] → j.active = [program] := fun h =>
    alone_of_bottom (h ▸ active) bottom
  rw [deliver_of_active y active]
  generalize Host.settle ((B.host K).resume g signal y.host).1 = reply at hresumed
  cases hresumed with
  | returned takes rests =>
    refine driving_leave hmain hongoing untraced active bottom rests ?_
      (fun h => .returned takes (halone h)) fun e he => by cases he
    exact .returned takes (congrArg List.tail active).symm rfl
  | @raised e surfaced _ takes surfaces _ rests =>
    refine driving_leave hmain hongoing untraced active bottom rests ?_
      (fun h => .raised takes (halone h) surfaces) fun e' he hpasses => ?_
    · exact .raised takes (congrArg List.tail active).symm surfaces rfl
    · cases he
      exact .escaped takes (surfaces.letsEscape (by rw [hpasses, Bool.not_false, Bool.or_true]))
  | yielded takes rests => exact driving_receive untraced active rfl bottom (.yielded takes rests)
  | nested takes lined fresh =>
    exact driving_receive untraced active rfl bottom (.nested takes lined fresh)

/-- What the computation hears of its effect is the outcome, as it is. -/
theorem answerDrive_of_untraced (H : Host σ) (y : State σ) (untraced : j.trace = none) (o : Outcome)
    (ordinary : ∀ e, o = .error e → e.isOrdinary = true) :
    answerDrive H y 0 j false o =
      { y with control := .deliver 0 { j with current := none } false (.ofOutcome o) } := by
  have hrecord : ∀ o, j.record o = { j with current := none } := fun o => by
    unfold Journey.record
    split
    · next hcurrent => rw [← hcurrent]
    · rw [untraced]
      rfl
  have hfree : ({ j with current := none } : Journey).isStrained = false := by
    show j.trace.any Trace.isStrained = false
    rw [untraced]
    rfl
  cases o with
  | ok v => simp only [answerDrive, deliverRecorded, hrecord, hfree]; rfl
  | error e =>
    simp only [answerDrive, deliverRecorded, hrecord, hfree, ordinary e rfl]
    rfl

/-- The driven computation is about to hear of the outcome of its effect. -/
theorem driving_answerDrive (hy : Main y) (hgoing : Ongoing y)
    (waits : Unanswered B program m j y.host.made) (o : Outcome) :
    Driving B program (some m) (answerDrive (B.host K) y 0 j false o) := by
  obtain ⟨item, plain, z, takes⟩ := waits.yields
  have hturn : (∀ e, o = .error e → e.isOrdinary = true) →
      Driving B program (some m) (answerDrive (B.host K) y 0 j false o) := by
    intro ordinary
    rw [answerDrive_of_untraced _ y waits.untraced o ordinary]
    refine .telling { j with current := none } _ rfl waits.untraced (waits.lined _) waits.bottom
      fun _ hm => ?_
    obtain rfl := Option.some.inj hm
    exact .answered takes waits.active
  cases o with
  | ok v => exact hturn fun e he => by cases he
  | error e =>
    by_cases he : e.isOrdinary = true
    · exact hturn fun e' he' => by cases he'; exact he
    · simp only [answerDrive, if_neg he]
      exact driving_finishDrive hy hgoing (.escaped takes rfl)

/-- **One step of the loop**: it resumes a computation, or nothing changes for those that it
drives. -/
theorem driving_of_step {last : Option (Moment S σ)} (hs : Steady s)
    (hd : Driving B program last s) (h : step (B.host K) context s = .next u) :
    moments s = [] ∧ Driving B program last u ∨
      ∃ now, moments s = [now] ∧ (∀ m ∈ last, B.Follows m now) ∧
        Driving B program (some now) u := by
  have hquiet : s.control.task? ≠ some 0 → moments s = [] := by
    intro elsewhere
    unfold moments
    split
    · next hc => exact absurd hc (hs.lone.not_deliver elsewhere _ _ _ _)
    · rfl
  cases hd with
  | telling j signal control untraced lined bottom follows =>
    obtain rfl := Transition.next.inj (h.symm.trans (step_of_deliver _ context control))
    have hbusy : s.control.task? = some 0 := by rw [control]; rfl
    refine .inr ⟨⟨j.active, signal, s.host⟩, by simp only [moments, control], follows, ?_⟩
    exact driving_deliver hs.sound_toIdle hs.main_toIdle (hs.ongoing_toIdle hbusy) untraced lined
      bottom
  | pending m before j d busy waits =>
    subst before
    -- Until the outcome is there the computations stand still, whatever other tasks do.
    have hwaiting : Engaged 0 (.drive j false) u →
        (∀ t j captured signal, s.control ≠ .deliver t j captured signal) →
        Driving B program (some m) u := fun hengaged quiet => by
      have hmade : u.host.made = s.host.made :=
        kept_of_step (keeps_host (Running.keeps_made K _)) quiet h rfl
      exact .pending m rfl j d (.inr hengaged) (hmade ▸ waits)
    rcases busy with control | ⟨phase, hphase, hgoal, elsewhere⟩ | ⟨o, control⟩
    · refine .inl ⟨by simp only [moments, control], hwaiting ?_ fun _ _ _ _ hc => ?_⟩
      · exact engaged_of_perform hs.main.present control h
      · rw [control] at hc
        cases hc
    · exact .inl ⟨hquiet elsewhere, hwaiting (engaged_of_step hphase hgoal elsewhere h)
        (hs.lone.not_deliver elsewhere)⟩
    · obtain rfl := Transition.next.inj (h.symm.trans (step_of_answer _ context control))
      have hbusy : s.control.task? = some 0 := by rw [control]; rfl
      refine .inl ⟨by simp only [moments, control], ?_⟩
      exact driving_answerDrive hs.main_toIdle (hs.ongoing_toIdle hbusy) waits o
  | ended m before o report hover outcome concludes =>
    refine .inl ⟨hquiet hover.elsewhere, .ended m before o report (over_of_step hover h)
      (outcome_of_step outcome h) (concludes.mono fun cause hcause => ?_)⟩
    exact kept_of_step (keeps_host (Running.keeps_causes K cause))
      (hs.lone.not_deliver hover.elsewhere) h hcause

/-- The last turn accounts for the outcome of the loop. -/
theorem driving_of_done {last : Option (Moment S σ)} {r : Ending (Running S σ)} (hs : Steady s)
    (hd : Driving B program last s) (h : step (B.host K) context s = .done r) :
    moments s = [] ∧ ∃ m, last = some m ∧ Accounts B program m r := by
  obtain ⟨idle, hends⟩ := ends_of_main hs.main h
  have hmoments : moments s = [] := by simp only [moments, idle]
  refine ⟨hmoments, ?_⟩
  have hdeadlock : ∀ m : Moment S σ, s.outcome? 0 = none → Accounts B program m r := by
    rintro m hnone
    obtain ⟨o, -, ho⟩ | ⟨rfl, -⟩ := hends
    · rw [hnone] at ho
      cases ho
    · exact .deadlock s
  cases hd with
  | telling j signal control =>
    rw [idle] at control
    cases control
  | pending m before j d busy =>
    refine ⟨m, before, hdeadlock m ?_⟩
    rcases busy with control | ⟨phase, hphase, hgoal, -⟩ | ⟨o, control⟩
    · rw [idle] at control
      cases control
    · rcases hs.timely with hgoing | ⟨report, hover⟩
      · exact hgoing.outcome
      · rw [hover.finished] at hphase
        cases hphase
        cases hgoal
    · rw [idle] at control
      cases control
  | ended m before o report hover outcome concludes =>
    refine ⟨m, before, ?_⟩
    obtain ⟨o', rfl, ho⟩ | ⟨-, hnone, -⟩ := hends
    · obtain rfl := Option.some.inj (outcome.symm.trans ho)
      exact .finished concludes
    · rw [outcome] at hnone
      cases hnone

variable (B K context program) in
theorem driving_linked :
    Transition.Linked (step (B.host K) context) moments
      (fun last s => Steady s ∧ Driving B program last s) B.Follows
      (Accounts B program) := by
  intro last s hs
  cases hstep : step (B.host K) context s with
  | next u =>
    refine (driving_of_step hs.1 hs.2 hstep).imp (fun h => ⟨h.1, hs.1.next hstep, h.2⟩) ?_
    exact fun ⟨now, hnow, hfollows, hu⟩ => ⟨now, hnow, hfollows, hs.1.next hstep, hu⟩
  | done r => exact .inl (driving_of_done hs.1 hs.2 hstep)

/-! ## Whole runs -/

section

variable {host : Running S σ} {x : S} (fresh : host.made.standings[program]? = some (.unstarted x))
  {run : Nat} {earlier : List (Nat × Outcome)} {ms : List (Moment S σ)}

include fresh

/-- Nothing is resumed before the loop begins to drive. -/
theorem driving_of_trail
    (h : Transition.Trail (step (B.host K) context) moments
      (State.start host run earlier (.drive (.computation program) none false)) ms s) :
    ms.IsChain B.Follows ∧
      ((∃ u, step (B.host K) context s = .next u) ∧ s.control = .idle ∨
        Steady s ∧ Driving B program ms.getLast? s) := by
  let start : State (Running S σ) :=
    State.start host run earlier (.drive (.computation program) none false)
  -- The first step forms a batch, and the second begins the task.
  let begun : State (Running S σ) :=
    { start with
      ready := []
      tasks := [⟨.running, 0⟩]
      control := .deliver 0 ⟨[program], none, none⟩ false (.send .null) }
  have hfirst : step (B.host K) context start = .next { start with batch := 1 } := rfl
  have hsecond : step (B.host K) context { start with batch := 1 } = .next begun := rfl
  have hsteady : Steady begun := by
    refine steady_of_reaches (.head hfirst (.head hsecond (.refl _))) ?_
    refine lone_of_single rfl (fun errand h => by cases h) fun k hk => ?_
    cases hk
    exact ⟨rfl, rfl⟩
  have hdriving : Driving B program none begun := by
    refine .telling ⟨[program], none, none⟩ _ rfl rfl ?_ rfl fun m hm => (by cases hm)
    exact .intro (.unstarted fresh) List.not_mem_nil ⟨.nil, fun h hh => (by cases hh)⟩
  rcases h.cases_of_next hfirst with ⟨rfl, rfl⟩ | ⟨later, rfl, h⟩
  · exact ⟨.nil, .inl ⟨⟨_, hfirst⟩, rfl⟩⟩
  rcases h.cases_of_next hsecond with ⟨rfl, rfl⟩ | ⟨later, rfl, h⟩
  · exact ⟨.nil, .inl ⟨⟨_, hsecond⟩, rfl⟩⟩
  have hchain := h.chain (driving_linked B K context program) ⟨hsteady, hdriving⟩
  exact ⟨hchain.1, .inr hchain.2⟩

/-- **The last turn of a driven computation accounts for the outcome.** -/
theorem turns_of_ends {r : Ending (Running S σ)}
    (h : Transition.Ends (step (B.host K) context) moments
      (State.start host run earlier (.drive (.computation program) none false)) ms r) :
    ∃ m, ms.getLast? = some m ∧ Accounts B program m r := by
  obtain ⟨t, before, htrail, hdone, rfl⟩ := h.exists_trail
  obtain ⟨⟨u, hu⟩, -⟩ | ⟨hsteady, hdriving⟩ := (driving_of_trail fresh htrail).2
  · rw [hdone] at hu
    cases hu
  · obtain ⟨hnone, haccounts⟩ := driving_of_done hsteady hdriving hdone
    rwa [hnone, List.append_nil]

/-- **What comes of an effect** is what the computation that has yielded it is told next: a value
is sent, and a failure is thrown. -/
theorem hears_of_trail
    (h : Transition.Trail (step (B.host K) context) moments
      (State.start host run earlier (.drive (.computation program) none false)) ms s)
    {goal : Goal} {o : Outcome} (control : s.control = .outcome 0 goal o)
    (ordinary : ∀ e, o = .error e → e.isOrdinary = true) :
    ∃ m u, ms.getLast? = some m ∧ step (B.host K) context s = .next u ∧
      moments u = [⟨m.active, .ofOutcome o, u.host⟩] := by
  obtain ⟨-, idle⟩ | ⟨hsteady, hdriving⟩ := (driving_of_trail fresh h).2
  · rw [control] at idle
    cases idle
  cases hdriving with
  | telling j signal deliver =>
    rw [control] at deliver
    cases deliver
  | pending m before j d busy waits =>
    rcases busy with performs | ⟨phase, -, -, elsewhere⟩ | ⟨o', answered⟩
    · rw [control] at performs
      cases performs
    · rw [control] at elsewhere
      exact absurd rfl elsewhere
    · rw [control] at answered
      cases answered
      have hnext := step_of_answer (B.host K) context control
      rw [answerDrive_of_untraced _ _ waits.untraced o ordinary] at hnext
      refine ⟨m, _, before, hnext, ?_⟩
      simp only [moments, waits.active]
  | ended m before o' report hover =>
    have helsewhere := hover.elsewhere
    rw [control] at helsewhere
    exact absurd rfl helsewhere

end

/-! ## What a function raises -/

/-- **What a function that is called directly raises** surfaces as the outcome of the effect, for
whichever task performs it. -/
theorem direct_failure_surfaces {t : Nat} {goal : Goal} {d : Descriptor} {f : Value} {e : Exn}
    (control : s.control = .perform t goal d) (direct : d.mode = .direct)
    (found : Context.lookup context d.path = .ok f) (callable : f.isCallable = true)
    (fails : (K.call f d.args s.host.world).1 = .error e) :
    ∃ u surfaced, step (B.host K) context s = .next u ∧
      u.control = .outcome t goal (.error surfaced) ∧
      Surfaces "coroutine raised StopIteration" e surfaced u.host.causes := by
  have hhow : Context.classify f .direct = .direct := by simp [Context.classify, callable]
  let x : State (Running S σ) := s.toIdle.note (.resolving d .direct)
  let v := grantAll (B.host K) { x with host := ((B.host K).call f d.args x.host).2 }
  have hcall : ((B.host K).call f d.args x.host).1 = .error e := fails
  have hnext : step (B.host K) context s =
      .next (arriveShielded (B.host K) v t goal "coroutine raised StopIteration" e) := by
    simp only [step, control, perform, direct, found, hhow, performDirect]
    show Transition.next (acceptDirect (B.host K) v t goal ((B.host K).call f d.args x.host).1) = _
    rw [hcall]
    rfl
  exact ⟨_, _, hnext, rfl, Running.surfaces_shield K _ e v.host⟩

end EventLoop
end DescribedEffects
