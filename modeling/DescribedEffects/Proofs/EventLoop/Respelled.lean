import DescribedEffects.Interpreter
import DescribedEffects.Proofs.EventLoop.Blurred
import DescribedEffects.Proofs.EventLoop.Delivery

/-!
# A loop over programs that spell in their own ways

A loop over one host, without creation sites, is a loop over any host into which that one blurs
(`step_blurred`): it asks the same questions, without creation sites, and makes the same of
the answers.  What a computation yields is the one thing that the loop gets to see without its
spelling, and all that it does with an item is to read it.

Every function of the loop that asks something of the host has its lemma here, down to the step
and to whole runs (`run_blurred`).
-/

namespace DescribedEffects
namespace EventLoop

variable {τ ρ : Type} {K : Host τ} {B : Host ρ} (V : K.Blur B) {context : Value}
  (x : State τ) (t : Nat) (goal : Goal)

/-! ## Questions to the host -/

theorem grantAll_blurred : grantAll B (x.blurred V.view) = (grantAll K x).blurred V.view := by
  have hall : ∀ (requests : List Request) (y : State τ),
      (requests.map Request.unsited).foldl grant (y.blurred V.view) =
        (requests.foldl grant y).blurred V.view := by
    intro requests
    induction requests with
    | nil => exact fun _ => rfl
    | cons r rest ih =>
      intro y
      rw [List.map_cons, List.foldl_cons, grant_blurred, ih]
      rfl
  unfold grantAll
  simp only [host_blurred, V.drain, Prod.map_fst, Prod.map_snd]
  exact hall _ { x with host := (K.drain x.host).2 }

theorem arriveWith_blurred (body : ExnBody Value) :
    arriveWith B (x.blurred V.view) t goal.unsited body.unsited =
      (arriveWith K x t goal body).blurred V.view := by
  simp only [arriveWith, host_blurred, V.raise]
  rfl

theorem arriveShielded_blurred (sentence : String) (e : Exn) :
    arriveShielded B (x.blurred V.view) t goal.unsited sentence e.unsited =
      (arriveShielded K x t goal sentence e).blurred V.view := by
  simp only [arriveShielded, host_blurred, V.shield]
  rfl

theorem refuseForeign_blurred :
    refuseForeign B (x.blurred V.view) t goal.unsited =
      (refuseForeign K x t goal).blurred V.view := by
  let asked : State τ := { x with host := (K.raise ValueFault.foreignFuture.body x.host).2 }
  let e := (K.raise ValueFault.foreignFuture.body x.host).1
  have hraise : B.raise ValueFault.foreignFuture.body (V.view x.host) =
      (e.unsited, V.view asked.host) := V.raise ValueFault.foreignFuture.body x.host
  have hcomplete := complete_blurred V.view asked.newPromise.2 x.promises.length (.error e)
  have hphase := setPhase_blurred V.view
    (asked.newPromise.2.complete x.promises.length (.error e)) t (.blocked goal x.promises.length)
  have hqueue := enqueue_blurred V.view
    ((asked.newPromise.2.complete x.promises.length (.error e)).setPhase t
      (.blocked goal x.promises.length)) (.step t)
  unfold refuseForeign
  simp only [host_blurred, hraise]
  rw [show ({ x.blurred V.view with host := V.view asked.host } : State ρ) =
    asked.blurred V.view from rfl, newPromise_blurred]
  exact congrArg State.toIdle
    ((congrArg (fun s => State.enqueue s (.step t))
      ((congrArg (fun s => State.setPhase s t _) hcomplete).trans hphase)).trans hqueue)

theorem lookup_map_snd {α β : Type} (f : α → β) (l : List (Nat × α)) (i : Nat) :
    (l.map (Prod.map id f)).lookup i = (l.lookup i).map f := by
  induction l with
  | nil => rfl
  | cons e rest ih =>
    obtain ⟨k, a⟩ := e
    simp only [List.map_cons, Prod.map_apply, id_eq, List.lookup_cons, ih]
    split <;> rfl

theorem await_blurred (w : Value) :
    await B (x.blurred V.view) t goal.unsited w.unsited = (await K x t goal w).blurred V.view := by
  cases w with
  | coroutine k =>
    let started : State τ := { x with host := (K.start k x.host).2 }
    have hgrant := grantAll_blurred V started
    have hadvance := advance_blurred V.view (grantAll K started) t goal k (K.start k x.host).1
    simp only [Value.unsited, await, host_blurred, V.start, Prod.map_fst, Prod.map_snd]
    rw [show ({ x.blurred V.view with host := V.view (K.start k x.host).2 } : State ρ) =
      started.blurred V.view from rfl, hgrant]
    exact hadvance
  | future i =>
    have hearlier : (x.blurred V.view).earlier.lookup i =
        (x.earlier.lookup i).map unsitedOutcome := lookup_map_snd unsitedOutcome x.earlier i
    simp only [Value.unsited, await, futures_blurred, hearlier]
    cases x.futures.lookup i with
    | some p => exact block_blurred V.view x t goal p
    | none =>
      cases x.earlier.lookup i with
      | some o => rfl
      | none => exact refuseForeign_blurred V x t goal
  | broken i e => exact arriveShielded_blurred V x t goal _ e
  | _ => rfl

theorem acceptDirect_blurred (o : Outcome) :
    acceptDirect B (x.blurred V.view) t goal.unsited (unsitedOutcome o) =
      (acceptDirect K x t goal o).blurred V.view := by
  cases o with
  | error e => exact arriveShielded_blurred V x t goal _ e
  | ok w =>
    simp only [mapBoth, acceptDirect, Value.isAwaitable_unsited]
    split
    · exact await_blurred V x t goal w
    · rfl

/-- A function is called, and what is asked for meanwhile is granted. -/
theorem call_blurred (f : Value) (args : List Value) :
    grantAll B { x.blurred V.view with
        host := (B.call f.unsited (args.map Value.unsited) (V.view x.host)).2 } =
      (grantAll K { x with host := (K.call f args x.host).2 }).blurred V.view := by
  rw [V.call]
  exact grantAll_blurred V { x with host := (K.call f args x.host).2 }

theorem args_unsited (d : Descriptor) : d.unsited.args = d.args.map Value.unsited := by
  obtain ⟨m, p, args, site⟩ := d
  exact Value.unsitedAll_eq_map args

theorem performDirect_blurred (f : Value) (d : Descriptor) :
    performDirect B (x.blurred V.view) t goal.unsited f.unsited d.unsited =
      (performDirect K x t goal f d).blurred V.view := by
  have hcalled : (B.call f.unsited (d.args.map Value.unsited) (V.view x.host)).1 =
      unsitedOutcome (K.call f d.args x.host).1 := by
    rw [V.call]
    rfl
  unfold performDirect
  simp only [args_unsited, host_blurred]
  rw [call_blurred, hcalled]
  exact acceptDirect_blurred V _ t goal _

theorem acceptCallback_blurred (effect p : Nat) (d : Descriptor) (o : Outcome) :
    acceptCallback B (x.blurred V.view) t goal.unsited effect p d.unsited (unsitedOutcome o) =
      (acceptCallback K x t goal effect p d o).blurred V.view := by
  cases o with
  | error e =>
    simp only [mapBoth, acceptCallback, ExnOf.isOrdinary_unsited, claim_blurred]
    split
    · split
      · exact arriveShielded_blurred V _ t goal _ e
      · exact (congrArg (fun s => block s t goal.unsited p)
          (note_blurred V.view _ (.ignoring e d))).trans (block_blurred V.view _ t goal p)
    · rfl
  | ok w =>
    simp only [mapBoth, acceptCallback, Value.isAwaitable_unsited]
    split
    · have htask := newTask_blurred V.view x (.watch effect w)
      exact (congrArg (fun s => block s.2 t goal.unsited p) htask).trans
        (block_blurred V.view _ t goal p)
    · exact block_blurred V.view x t goal p

theorem performCallback_blurred (f : Value) (d : Descriptor) :
    performCallback B (x.blurred V.view) t goal.unsited f.unsited d.unsited =
      (performCallback K x t goal f d).blurred V.view := by
  let args := d.args ++ [.done x.run x.effects.length]
  have hargs : d.unsited.args ++ [.done (x.blurred V.view).run (x.blurred V.view).effects.length] =
      args.map Value.unsited := by
    rw [args_unsited, length_effects_blurred, List.map_append]
    rfl
  have hcalled : (B.call f.unsited (args.map Value.unsited) (V.view x.host)).1 =
      unsitedOutcome (K.call f args x.host).1 := by
    rw [V.call]
    rfl
  have hcall := call_blurred V (x.pending d) f args
  rw [performCallback_eq, performCallback_eq, pending_blurred, hargs]
  simp only [host_blurred, length_promises_blurred, length_effects_blurred]
  rw [hcalled]
  exact (congrArg (fun s => acceptCallback B s t goal.unsited _ _ d.unsited _) hcall).trans
    (acceptCallback_blurred V _ t goal _ _ d _)

theorem mode_unsited (d : Descriptor) : d.unsited.mode = d.mode := by
  obtain ⟨m, p, args, site⟩ := d
  rfl

theorem path_unsited (d : Descriptor) : d.unsited.path = d.path.map Value.unsited := by
  obtain ⟨m, p, args, site⟩ := d
  exact Value.unsitedAll_eq_map p

/-- **An effect is performed without creation sites** as it is performed with them. -/
theorem perform_blurred (d : Descriptor) :
    perform B context.unsited (x.blurred V.view) t goal.unsited d.unsited =
      (perform K context x t goal d).blurred V.view := by
  have hnote : ∀ n : Note, (x.blurred V.view).note n.unsited = (x.note n).blurred V.view :=
    note_blurred V.view x
  unfold perform
  rw [mode_unsited, path_unsited, args_unsited, Context.lookup_unsited]
  split
  · have herrands : (d.args.map Value.unsited).map Errand.perform =
        (d.args.map Errand.perform).map Errand.unsited := by
      simp [Function.comp_def, Errand.unsited]
    rw [herrands, List.length_map]
    exact (congrArg (fun s => gather s t goal.unsited _) (hnote (.dispatching d.args.length))).trans
      (gather_blurred V.view _ t goal _)
  · cases Context.lookup context d.path with
    | error fault =>
      have hcomplaint : fault.unsited.complaint (.tuple (d.path.map Value.unsited))
          (d.path.map Value.unsited) = (fault.complaint (.tuple d.path) d.path).unsited := by
        rw [← LookupFault.complaint_unsited, Value.unsited, Value.unsitedAll_eq_map]
      simp only [mapBoth, hcomplaint, host_blurred, V.complain, Prod.map_fst, Prod.map_snd]
      exact arriveShielded_blurred V { x with host := _ } t goal _ _
    | ok w =>
      simp only [mapBoth, Context.classify_unsited]
      have hhow := hnote (.resolving d (Context.classify w d.mode))
      simp only [Note.unsited] at hhow
      rw [hhow]
      split
      · rfl
      · exact performDirect_blurred V _ t goal w d
      · exact performCallback_blurred V _ t goal w d

/-! ## Driving -/

theorem deliverRecorded_blurred (j : Journey) (captured : Bool) (signal : Signal) :
    deliverRecorded B (x.blurred V.view) t j.unsited captured signal.unsited =
      (deliverRecorded K x t j captured signal).blurred V.view := by
  have hraise : B.raise ValueFault.notCount.body (V.view x.host) =
      Prod.map ExnOf.unsited V.view (K.raise ValueFault.notCount.body x.host) :=
    V.raise ValueFault.notCount.body x.host
  simp only [deliverRecorded, Journey.isStrained_unsited, host_blurred, hraise]
  split <;> rfl

theorem answerDrive_blurred (j : Journey) (captured : Bool) (o : Outcome) :
    answerDrive B (x.blurred V.view) t j.unsited captured (unsitedOutcome o) =
      (answerDrive K x t j captured o).blurred V.view := by
  have hdeliver := fun o signal => deliverRecorded_blurred V x t (j.record o) captured signal
  simp only [Journey.record_unsited] at hdeliver
  cases o with
  | ok w => exact hdeliver (.ok w) (.send w)
  | error e =>
    simp only [mapBoth, answerDrive, ExnOf.isOrdinary_unsited]
    split
    · exact hdeliver (.error e) (.throw e)
    · exact finishDrive_blurred V.view x t j captured (.error e)

/-- **Only the gist of an item matters.** -/
theorem receive_blurred (j : Journey) (captured : Bool) (item : Value) :
    receive B (x.blurred V.view) t j.unsited captured item.gist =
      (receive K x t j captured item).blurred V.view := by
  cases hitem : item.isComputation with
  | true =>
    cases item with
    | computation g =>
      have hnote := note_blurred V.view x (.nested (.computation g))
      exact congrArg (fun s : State ρ => { s with
        control := .deliver t { j.unsited with active := g :: j.unsited.active } captured
          (.send .null) }) hnote
    | _ => cases hitem
  | false =>
    have hgist : item.gist.isComputation = false := by rw [Value.isComputation_gist, hitem]
    rw [receive_of_plain _ _ _ _ hgist, receive_of_plain _ _ _ _ hitem, parse_gist]
    cases Descriptor.parse item with
    | error m =>
      simp only [mapBoth, host_blurred, Malformed.body_unsited, V.raise]
      rfl
    | ok d =>
      have hnote := note_blurred V.view x (.effect d)
      exact congrArg (fun s : State ρ => { s with
        control := .perform t (.drive { j.unsited with current := some d.unsited } captured)
          d.unsited }) hnote

theorem resuming_blurred (g : Nat) (signal : Signal) :
    (x.blurred V.view).resuming B g signal.unsited =
      (x.resuming K g signal).blurred V.view := by
  let resumed : State τ := { noteSignal x signal with host := (K.resume g signal x.host).2 }
  unfold State.resuming
  rw [noteSignal_blurred, host_blurred, V.resume]
  exact grantAll_blurred V resumed

/-- **A computation is resumed without creation sites**, and what it yields is received without
its spelling. -/
theorem deliver_blurred (j : Journey) (captured : Bool) (signal : Signal) :
    deliver B (x.blurred V.view) t j.unsited captured signal.unsited =
      (deliver K x t j captured signal).blurred V.view := by
  cases hactive : j.active with
  | nil =>
    have hunsited : j.unsited.active = [] := hactive
    simp only [deliver, hactive, hunsited]
    exact finishDrive_blurred V.view x t j captured (.ok .null)
  | cons g outer =>
    have hunsited : j.unsited.active = g :: outer := hactive
    rw [deliver_of_active _ hunsited, deliver_of_active _ hactive, resuming_blurred, host_blurred,
      V.resume, Prod.map_fst, Host.settle_gist]
    cases Host.settle (K.resume g signal x.host).1 with
    | yielded item => exact receive_blurred V _ t j captured item
    | returned w => exact leave_blurred V.view _ t j captured (.ok w)
    | raised e => exact leave_blurred V.view _ t j captured (.error e)

theorem beginDrive_blurred (program : Value) (trace : Option Trace) (captured : Bool) :
    beginDrive B (x.blurred V.view) t program.unsited (trace.map Trace.unsited) captured =
      (beginDrive K x t program trace captured).blurred V.view := by
  cases hprogram : program.isComputation with
  | true =>
    cases program with
    | computation g => rfl
    | _ => cases hprogram
  | false =>
    have hrefused : ∀ (σ : Type) (H : Host σ) (y : State σ) (p : Value) trace,
        p.isComputation = false →
        beginDrive H y t p trace captured =
          finishDrive { y with host := (H.raise (Host.notComputation p) y.host).2 } t
            ⟨[], none, trace⟩ captured (.error (H.raise (Host.notComputation p) y.host).1) := by
      intro σ H y p trace hp
      cases p with
      | computation g => cases hp
      | _ => rfl
    have hunsited : program.unsited.isComputation = false := by
      rw [Value.isComputation_unsited, hprogram]
    let refused : State τ :=
      { x with host := (K.raise (Host.notComputation program) x.host).2 }
    rw [hrefused _ _ _ _ _ hunsited, hrefused _ _ _ _ _ hprogram, Host.notComputation_unsited,
      host_blurred, V.raise]
    exact finishDrive_blurred V.view refused t ⟨[], none, trace⟩ captured (.error _)

/-! ## Jobs -/

theorem begin_blurred (errand : Errand) :
    begin B (x.blurred V.view) t errand.unsited = (begin K x t errand).blurred V.view := by
  cases errand with
  | perform item =>
    have hparse : Descriptor.parse item.unsited = _ := parseValue_unsited item
    simp only [Errand.unsited, begin, hparse]
    cases hread : Descriptor.parse item with
    | error m =>
      rw [show parseValue item = .error m from hread]
      simp only [mapBoth, Malformed.body_unsited]
      exact arriveWith_blurred V x t .answer m.body
    | ok d =>
      rw [show parseValue item = .ok d from hread]
      rfl
  | watch effect awaited => exact await_blurred V x t (.watch effect) awaited
  | drive program trace captured => exact beginDrive_blurred V x t program trace captured
  | convene programs bound =>
    have herrands : (programs.map Value.unsited).map
        (fun p => Errand.drive p (some (.empty bound)) true) =
        (programs.map fun p => Errand.drive p (some (.empty bound)) true).map Errand.unsited := by
      simp [Function.comp_def, Errand.unsited]
    simp only [Errand.unsited, begin, herrands]
    rw [grantAll_blurred]
    exact gather_blurred V.view _ t .answer _

theorem stepTask_blurred : stepTask B (x.blurred V.view) t = (stepTask K x t).blurred V.view := by
  have hphase : (x.blurred V.view).tasks[t]?.map Task.phase =
      (x.tasks[t]?.map Task.phase).map Phase.unsited := by
    rw [getElem?_tasks_blurred]
    cases x.tasks[t]? <;> rfl
  have hrun : (x.blurred V.view).setPhase t .running = (x.setPhase t .running).blurred V.view :=
    setPhase_blurred V.view x t .running
  unfold stepTask
  rw [hphase]
  rcases x.tasks[t]?.map Task.phase with _ | errand | _ | ⟨goal, k⟩ | ⟨goal, p⟩ | report
  · rfl
  · exact (congrArg (fun s => begin B s t errand.unsited) hrun).trans
      (begin_blurred V _ t errand)
  · rfl
  · let woken : State τ := { x.setPhase t .running with host := (K.wake k x.host).2 }
    have hwoken : ({ (x.blurred V.view).setPhase t .running with
        host := V.view (K.wake k x.host).2 } : State ρ) = woken.blurred V.view := by
      rw [hrun]
      rfl
    simp only [Option.map_some, Phase.unsited, host_blurred, V.wake, Prod.map_fst, Prod.map_snd]
    rw [hwoken, grantAll_blurred]
    exact advance_blurred V.view _ t goal k _
  · simp only [Option.map_some, Phase.unsited, outcome_blurred]
    cases x.outcome? p with
    | none => rfl
    | some o => exact congrArg (fun s => State.arrive s t goal.unsited _) hrun
  · rfl

theorem settle_blurred (effect : Nat) (error value : Value) :
    settle B (x.blurred V.view) effect error.unsited value.unsited =
      (settle K x effect error value).blurred V.view := by
  unfold settle
  rw [getElem?_effects_blurred]
  cases x.effects[effect]? with
  | none => rfl
  | some e =>
    have hcomplete := complete_blurred V.view x e.promise
    have hfailed : State.complete
        { x.blurred V.view with
          host := (B.raise (.execution (.descriptor e.descriptor.unsited) error.unsited)
            (V.view x.host)).2 } e.promise
          (.error (B.raise (.execution (.descriptor e.descriptor.unsited) error.unsited)
            (V.view x.host)).1) =
        (State.complete
          { x with host := (K.raise (.execution (.descriptor e.descriptor) error) x.host).2 }
          e.promise (.error (K.raise (.execution (.descriptor e.descriptor) error)
            x.host).1)).blurred V.view := by
      have hraise := V.raise (.execution (.descriptor e.descriptor) error) x.host
      simp only [ExnBody.unsited, Value.unsited] at hraise
      rw [hraise]
      exact complete_blurred V.view
        { x with host := (K.raise (.execution (.descriptor e.descriptor) error) x.host).2 }
        e.promise (.error _)
    simp only [Option.map_some, Value.isMark_unsited]
    split
    · rfl
    · cases error with
      | null => exact hcomplete (.ok value)
      | exn y =>
        simp only [Value.unsited, ExnOf.isOrdinary_unsited]
        split
        · exact hcomplete (.error y)
        · exact hfailed
      | _ => exact hfailed

theorem runJob_blurred (j : Job) :
    runJob B (x.blurred V.view) j.unsited = (runJob K x j).blurred V.view := by
  cases j with
  | step t => exact stepTask_blurred V x t
  | notice group member => exact notice_blurred V.view x group member
  | settle effect error value => exact settle_blurred V x effect error value
  | fulfil p o => exact complete_blurred V.view x p o
  | invoke f args => exact call_blurred V x f args
  | stop => rfl

/-! ## Steps and runs -/

theorem stepIdle_blurred :
    stepIdle B (x.blurred V.view) =
      (stepIdle K x).map (State.blurred V.view) (Ending.blurred V.view) := by
  have hready : (x.blurred V.view).ready = x.ready.map Job.unsited := rfl
  have hbatch : (x.blurred V.view).batch = x.batch := rfl
  have htimers : (x.blurred V.view).timers = x.timers.map Timer.unsited := rfl
  have hstopping : (x.blurred V.view).stopping = x.stopping := rfl
  unfold stepIdle
  rw [hready, hbatch, htimers, hstopping, outcome_blurred]
  cases x.batch with
  | zero =>
    cases x.stopping with
    | true => cases x.outcome? 0 <;> rfl
    | false =>
      cases x.ready with
      | nil => cases x.timers <;> rfl
      | cons j rest => simp [Transition.map, State.blurred]
  | succ n =>
    cases x.ready with
    | nil => rfl
    | cons j rest =>
      exact congrArg Transition.next (runJob_blurred V { x with ready := rest, batch := n } j)

variable (context) in
/-- **Every step is made without creation sites** as it is made with them. -/
theorem step_blurred :
    step B context.unsited (x.blurred V.view) =
      (step K context x).map (State.blurred V.view) (Ending.blurred V.view) := by
  have hcontrol : (x.blurred V.view).control = x.control.unsited := rfl
  unfold step
  rw [hcontrol]
  cases x.control with
  | idle => exact stepIdle_blurred V x
  | perform t goal d => exact congrArg Transition.next (perform_blurred V x.toIdle t goal d)
  | outcome t goal o =>
    cases goal with
    | answer => exact congrArg Transition.next (finish_blurred V.view x.toIdle t none o)
    | watch effect =>
      exact congrArg Transition.next (finishWatch_blurred V.view x.toIdle t effect o)
    | drive j captured =>
      exact congrArg Transition.next (answerDrive_blurred V x.toIdle t j captured o)
  | deliver t j captured signal =>
    exact congrArg Transition.next (deliver_blurred V x.toIdle t j captured signal)

variable (context) in
/-- **Whole runs are made without creation sites** as they are made with them. -/
theorem run_blurred (fuel : Nat) (host : τ) (number : Nat) (earlier : List (Nat × Outcome))
    (errand : Errand) :
    run B context.unsited fuel (V.view host) number (earlier.map (Prod.map id unsitedOutcome))
        errand.unsited =
      (run K context fuel host number earlier errand).map (Ending.blurred V.view) :=
  Transition.runFor_map (step_blurred V context) fuel (State.start host number earlier errand)

end EventLoop
end DescribedEffects
