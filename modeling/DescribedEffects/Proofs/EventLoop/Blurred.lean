import DescribedEffects.Proofs.Computation.Blur
import DescribedEffects.Proofs.EventLoop.Disguise

/-!
# A loop without creation sites

What a loop keeps is full of values: outcomes in promises, arguments in jobs, the effects that
are being performed, the trace.  `State.blurred` forgets the creation sites in all of them, and
looks at the host in another way.

This module is about the functions of the loop that ask nothing of the host.  Each of them
commutes with forgetting: done to a loop without creation sites, it gives what it gives to
the loop, without creation sites.
-/

namespace DescribedEffects

/-- A record without creation sites. -/
def Record.unsited (r : Record) : Record := ⟨r.descriptor.unsited, unsitedOutcome r.outcome⟩

/-- A trace without creation sites. -/
def Trace.unsited (t : Trace) : Trace :=
  { t with log := ⟨t.log.entries.map Record.unsited, t.log.bound⟩ }

/-- A note without creation sites. -/
def Note.unsited : Note → Note
  | .nested item => .nested item.unsited
  | .effect d => .effect d.unsited
  | .throwing e => .throwing e.unsited
  | .resolving d how => .resolving d.unsited how
  | .dispatching members => .dispatching members
  | .ignoring e d => .ignoring e.unsited d.unsited
  | .matched i d => .matched i d.unsited

theorem keepLast_map {α β : Type} (f : α → β) (bound : Option Int) (xs : List α) :
    keepLast bound (xs.map f) = (keepLast bound xs).map f := by
  cases bound with
  | none => rfl
  | some n => simp only [keepLast, List.length_map, List.map_drop]

theorem Trace.add_unsited (t : Trace) (r : Record) :
    (t.add r).unsited = t.unsited.add r.unsited := by
  have hentries : keepLast t.log.bound (t.log.entries.map Record.unsited ++ [r.unsited]) =
      (keepLast t.log.bound (t.log.entries ++ [r])).map Record.unsited := by
    rw [← keepLast_map, List.map_append, List.map_singleton]
  simp only [add, unsited, BoundedLog.append, BoundedLog.trim, hentries]

@[simp] theorem Trace.isStrained_unsited (t : Trace) : t.unsited.isStrained = t.isStrained := by
  simp only [isStrained, unsited, List.length_map]

@[simp] theorem Trace.unsited_empty (b : TraceBound) : (Trace.empty b).unsited = .empty b := by
  cases b <;> simp [unsited, empty, BoundedLog.ofList, BoundedLog.trim, keepLast, TraceBound.ofLog]

namespace EventLoop

/-! ## What a loop keeps -/

def Job.unsited : Job → Job
  | .settle effect error value => .settle effect error.unsited value.unsited
  | .fulfil promise o => .fulfil promise (unsitedOutcome o)
  | .invoke f args => .invoke f.unsited (args.map Value.unsited)
  | j => j

def Promise.unsited (p : Promise) : Promise :=
  ⟨p.outcome.map unsitedOutcome, p.waiters.map Job.unsited⟩

def PendingEffect.unsited (e : PendingEffect) : PendingEffect :=
  { e with descriptor := e.descriptor.unsited }

def Timer.unsited (t : Timer) : Timer := { t with job := t.job.unsited }

def Journey.unsited (j : Journey) : Journey :=
  ⟨j.active, j.current.map DescriptorOf.unsited, j.trace.map Trace.unsited⟩

def Errand.unsited : Errand → Errand
  | .perform item => .perform item.unsited
  | .watch effect awaited => .watch effect awaited.unsited
  | .drive program trace captured => .drive program.unsited (trace.map Trace.unsited) captured
  | .convene programs bound => .convene (programs.map Value.unsited) bound

def Goal.unsited : Goal → Goal
  | .drive j captured => .drive j.unsited captured
  | goal => goal

def Report.unsited (r : Report) : Report := ⟨unsitedOutcome r.outcome, r.trace.map Trace.unsited⟩

def Phase.unsited : Phase → Phase
  | .fresh errand => .fresh errand.unsited
  | .running => .running
  | .asleep goal k => .asleep goal.unsited k
  | .blocked goal p => .blocked goal.unsited p
  | .finished report => .finished (report.map Report.unsited)

def Task.unsited (task : Task) : Task := { task with phase := task.phase.unsited }

def Control.unsited : Control → Control
  | .idle => .idle
  | .perform t goal d => .perform t goal.unsited d.unsited
  | .outcome t goal o => .outcome t goal.unsited (unsitedOutcome o)
  | .deliver t j captured signal => .deliver t j.unsited captured signal.unsited

variable {τ ρ : Type}

/-- A loop without creation sites, with another view of its host. -/
def State.blurred (v : τ → ρ) (x : State τ) : State ρ where
  host := v x.host
  run := x.run
  clock := x.clock
  ready := x.ready.map Job.unsited
  timers := x.timers.map Timer.unsited
  tasks := x.tasks.map Task.unsited
  promises := x.promises.map Promise.unsited
  effects := x.effects.map PendingEffect.unsited
  groups := x.groups
  futures := x.futures
  earlier := x.earlier.map (Prod.map id unsitedOutcome)
  batch := x.batch
  stopping := x.stopping
  notes := x.notes.map Note.unsited
  control := x.control.unsited

/-- An ending without creation sites. -/
def Ending.blurred (v : τ → ρ) : Ending τ → Ending ρ
  | .finished o x => .finished (unsitedOutcome o) (x.blurred v)
  | .deadlock x => .deadlock (x.blurred v)

section

variable (v : τ → ρ) (x : State τ) (t : Nat) (goal : Goal)

@[simp] theorem host_blurred : (x.blurred v).host = v x.host := rfl

@[simp] theorem length_promises_blurred :
    (x.blurred v).promises.length = x.promises.length := List.length_map ..

@[simp] theorem length_effects_blurred : (x.blurred v).effects.length = x.effects.length :=
  List.length_map ..

@[simp] theorem groups_blurred : (x.blurred v).groups = x.groups := rfl

@[simp] theorem futures_blurred : (x.blurred v).futures = x.futures := rfl

@[simp] theorem getElem?_tasks_blurred (k : Nat) :
    (x.blurred v).tasks[k]? = x.tasks[k]?.map Task.unsited := List.getElem?_map

@[simp] theorem getElem?_promises_blurred (p : Nat) :
    (x.blurred v).promises[p]? = x.promises[p]?.map Promise.unsited := List.getElem?_map

@[simp] theorem getElem?_effects_blurred (i : Nat) :
    (x.blurred v).effects[i]? = x.effects[i]?.map PendingEffect.unsited := List.getElem?_map

@[simp] theorem outcome_blurred (p : Nat) :
    (x.blurred v).outcome? p = (x.outcome? p).map unsitedOutcome := by
  unfold State.outcome?
  rw [getElem?_promises_blurred]
  cases x.promises[p]? <;> rfl

theorem enqueue_blurred (j : Job) :
    (x.blurred v).enqueue j.unsited = (x.enqueue j).blurred v := by
  simp [State.enqueue, State.blurred]

theorem note_blurred (n : Note) : (x.blurred v).note n.unsited = (x.note n).blurred v := by
  simp [State.note, State.blurred]

theorem setTimer_blurred (delay : Nat) (j : Job) :
    (x.blurred v).setTimer delay j.unsited = (x.setTimer delay j).blurred v := by
  simp only [State.setTimer, State.blurred, List.span_eq_takeWhile_dropWhile, List.takeWhile_map,
    List.dropWhile_map, List.map_append, List.map_cons]
  rfl

theorem newPromise_blurred :
    (x.blurred v).newPromise = (x.newPromise.1, x.newPromise.2.blurred v) := by
  simp [State.newPromise, State.blurred, Promise.unsited]

theorem complete_blurred (p : Nat) (o : Outcome) :
    (x.blurred v).complete p (unsitedOutcome o) = (x.complete p o).blurred v := by
  unfold State.complete
  rw [getElem?_promises_blurred]
  rcases hp : x.promises[p]? with _ | ⟨_ | o', waiters⟩
  · rfl
  · simp [State.blurred, Promise.unsited, List.map_set]
  · rfl

theorem subscribe_blurred (p : Nat) (j : Job) :
    (x.blurred v).subscribe p j.unsited = (x.subscribe p j).blurred v := by
  unfold State.subscribe
  rw [getElem?_promises_blurred]
  rcases hp : x.promises[p]? with _ | ⟨_ | o', waiters⟩
  · rfl
  · simp [State.blurred, Promise.unsited, List.map_set]
  · rfl

theorem claim_blurred (i : Nat) :
    (x.blurred v).claim i = ((x.claim i).1, (x.claim i).2.blurred v) := by
  unfold State.claim
  rw [getElem?_effects_blurred]
  cases he : x.effects[i]? with
  | none => rfl
  | some e =>
    obtain ⟨d, _ | _, p⟩ := e
    · simp [State.blurred, PendingEffect.unsited, List.map_set]
    · rfl

theorem setPhase_blurred (k : Nat) (phase : Phase) :
    (x.blurred v).setPhase k phase.unsited = (x.setPhase k phase).blurred v := by
  unfold State.setPhase
  rw [getElem?_tasks_blurred]
  cases x.tasks[k]? with
  | none => rfl
  | some task => simp [State.blurred, Task.unsited, List.map_set]

theorem newTask_blurred (errand : Errand) :
    (x.blurred v).newTask errand.unsited =
      ((x.newTask errand).1, (x.newTask errand).2.blurred v) := by
  simp [State.newTask, State.newPromise, State.enqueue, State.blurred, Task.unsited, Phase.unsited,
    Promise.unsited, Job.unsited]

theorem grant_blurred (r : Request) :
    grant (x.blurred v) r.unsited = (grant x r).blurred v := by
  cases r with
  | complete run i error value =>
    have hrun : (x.blurred v).run = x.run := rfl
    unfold grant Request.unsited
    dsimp only
    rw [hrun, claim_blurred]
    split
    · cases (x.claim i).1 with
      | true => exact enqueue_blurred v _ (.settle i error value)
      | false => rfl
    · rfl
  | callLater delay f args => exact setTimer_blurred v x delay (.invoke f args)
  | future id o delay =>
    let noted : State τ :=
      { x.newPromise.2 with futures := x.futures ++ [(id, x.promises.length)] }
    have hnoted : ({ (x.blurred v).newPromise.2 with
        futures := (x.blurred v).futures ++ [(id, (x.blurred v).promises.length)] } : State ρ) =
        noted.blurred v := by
      rw [newPromise_blurred, length_promises_blurred]
      rfl
    rcases o with _ | o
    · exact hnoted
    · rcases delay with _ | n
      · refine (congrArg (fun s => State.complete s (x.blurred v).promises.length _) hnoted).trans ?_
        rw [length_promises_blurred]
        exact complete_blurred v noted x.promises.length o
      · refine (congrArg (fun s => State.setTimer s n _) hnoted).trans ?_
        rw [length_promises_blurred]
        exact setTimer_blurred v noted n (.fulfil x.promises.length o)

theorem block_blurred (p : Nat) :
    block (x.blurred v) t goal.unsited p = (block x t goal p).blurred v := by
  unfold block
  rw [outcome_blurred]
  cases x.outcome? p with
  | some o => rfl
  | none =>
    have hsubscribe := subscribe_blurred v x p (.step t)
    have hphase := setPhase_blurred v (x.subscribe p (.step t)) t (.blocked goal p)
    exact congrArg State.toIdle ((congrArg (fun s => State.setPhase s t _) hsubscribe).trans hphase)

theorem advance_blurred (k : Nat) (progress : Progress) :
    advance (x.blurred v) t goal.unsited k progress.unsited =
      (advance x t goal k progress).blurred v := by
  have hphase := setPhase_blurred v x t (.asleep goal k)
  cases progress with
  | finished o => rfl
  | asleep units =>
    cases units with
    | zero =>
      exact congrArg State.toIdle ((congrArg (fun s => State.enqueue s (.step t)) hphase).trans
        (enqueue_blurred v _ (.step t)))
    | succ n =>
      exact congrArg State.toIdle ((congrArg (fun s => State.setTimer s _ (.step t)) hphase).trans
        (setTimer_blurred v _ _ (.step t)))

theorem launch_blurred (group : Nat) (errands : List Errand) :
    launch (x.blurred v) group (errands.map Errand.unsited) =
      ((launch x group errands).1, (launch x group errands).2.blurred v) := by
  induction errands generalizing x with
  | nil => rfl
  | cons errand rest ih =>
    have hpromise : ∀ (y : State τ) (k : Nat),
        (y.blurred v).tasks[k]?.map (·.promise) = y.tasks[k]?.map (·.promise) := by
      intro y k
      rw [getElem?_tasks_blurred]
      cases y.tasks[k]? <;> rfl
    have hsubscribe : ∀ (y : State τ) (p : Nat),
        (y.blurred v).subscribe p (.notice group p) = (y.subscribe p (.notice group p)).blurred v :=
      fun y p => subscribe_blurred v y p (.notice group p)
    simp only [List.map_cons, launch, newTask_blurred, hpromise, hsubscribe, ih]

theorem opened_blurred (n : Nat) : (x.blurred v).opened n = (x.opened n).blurred v := by
  simp [State.opened, State.newPromise, State.blurred, Promise.unsited]

theorem grouped_blurred (errands : List Errand) :
    (x.blurred v).grouped (errands.map Errand.unsited) = (x.grouped errands).blurred v := by
  unfold State.grouped
  rw [List.length_map, groups_blurred, opened_blurred, launch_blurred, length_promises_blurred]
  rfl

theorem gather_blurred (errands : List Errand) :
    gather (x.blurred v) t goal.unsited (errands.map Errand.unsited) =
      (gather x t goal errands).blurred v := by
  cases h : errands.isEmpty with
  | true =>
    obtain rfl := List.isEmpty_iff.1 h
    rfl
  | false =>
    have hmap : (errands.map Errand.unsited).isEmpty = false := by rw [List.isEmpty_map, h]
    rw [gather_of_errands h, gather_of_errands hmap, grouped_blurred, length_promises_blurred]
    exact block_blurred v (x.grouped errands) t goal _

theorem pending_blurred (d : Descriptor) :
    (x.blurred v).pending d.unsited = (x.pending d).blurred v := by
  simp [State.pending, State.newPromise, State.blurred, Promise.unsited, PendingEffect.unsited]

/-! ## The ends of tasks -/

theorem finish_blurred (report : Option Report) (o : Outcome) :
    finish (x.blurred v) t (report.map Report.unsited) (unsitedOutcome o) =
      (finish x t report o).blurred v := by
  unfold finish
  rw [getElem?_tasks_blurred]
  cases x.tasks[t]? with
  | none => rfl
  | some task =>
    have hphase := setPhase_blurred v x t (.finished report)
    have hcomplete := complete_blurred v (x.setPhase t (.finished report)) task.promise o
    exact congrArg State.toIdle
      ((congrArg (fun s => State.complete s task.promise _) hphase).trans hcomplete)

theorem captureOutcome_unsited (o : Outcome) :
    captureOutcome (unsitedOutcome o) = unsitedOutcome (captureOutcome o) := by
  cases o with
  | ok v => rfl
  | error e =>
    simp only [unsitedOutcome, mapBoth, captureOutcome, ExnOf.isOrdinary_unsited]
    split <;> rfl

theorem finishDrive_blurred (j : Journey) (captured : Bool) (o : Outcome) :
    finishDrive (x.blurred v) t j.unsited captured (unsitedOutcome o) =
      (finishDrive x t j captured o).blurred v := by
  have hfinish := fun o' => finish_blurred v x t (some ⟨o, j.trace⟩) o'
  cases captured with
  | true =>
    unfold finishDrive
    rw [if_pos rfl, if_pos rfl, captureOutcome_unsited]
    exact hfinish _
  | false => exact hfinish o

theorem finishWatch_blurred (effect : Nat) (o : Outcome) :
    finishWatch (x.blurred v) t effect (unsitedOutcome o) =
      (finishWatch x t effect o).blurred v := by
  have hfinish := fun (y : State τ) o' => finish_blurred v y t none o'
  cases o with
  | ok w => exact hfinish x (.ok .null)
  | error e =>
    simp only [mapBoth, finishWatch, ExnOf.isOrdinary_unsited]
    split
    · rw [getElem?_effects_blurred, claim_blurred]
      cases x.effects[effect]? with
      | none => exact hfinish x (.ok .null)
      | some pending =>
        dsimp only [Option.map_some]
        split
        · exact (congrArg (fun s => finish s t none (.ok .null))
            (complete_blurred v _ pending.promise (.error e))).trans (hfinish _ (.ok .null))
        · exact (congrArg (fun s => finish s t none (.ok .null))
            (note_blurred v _ (.ignoring e pending.descriptor))).trans (hfinish _ (.ok .null))
    · exact hfinish x (.error e)

/-! ## Driving -/

theorem Journey.record_unsited (j : Journey) (o : Outcome) :
    (j.record o).unsited = j.unsited.record (unsitedOutcome o) := by
  obtain ⟨active, _ | d, _ | trace⟩ := j
  · rfl
  · rfl
  · rfl
  · simp [Journey.record, Journey.unsited, Trace.add_unsited, Record.unsited]

theorem Journey.isStrained_unsited (j : Journey) : j.unsited.isStrained = j.isStrained := by
  obtain ⟨active, current, _ | trace⟩ := j
  · rfl
  · simp [Journey.isStrained, Journey.unsited]

theorem leave_blurred (j : Journey) (captured : Bool) (o : Outcome) :
    leave (x.blurred v) t j.unsited captured (unsitedOutcome o) =
      (leave x t j captured o).blurred v := by
  have hfinish := finishDrive_blurred v x t j captured
  have hactive : j.unsited.active.tail = j.active.tail := rfl
  unfold leave
  rw [hactive]
  cases j.active.tail with
  | nil => exact hfinish o
  | cons g rest =>
    cases o with
    | ok w => rfl
    | error e =>
      simp only [mapBoth, ExnOf.isOrdinary_unsited]
      split
      · rfl
      · exact hfinish (.error e)

theorem noteSignal_blurred (signal : Signal) :
    noteSignal (x.blurred v) signal.unsited = (noteSignal x signal).blurred v := by
  cases signal with
  | send w => rfl
  | throw e => exact note_blurred v x (.throwing e)

/-! ## Jobs -/

theorem collect_blurred (members : List Nat) :
    collect (x.blurred v) members = (collect x members).map (List.map Value.unsited) := by
  induction members with
  | nil => rfl
  | cons p ps ih =>
    unfold collect
    rw [outcome_blurred, ih]
    rcases x.outcome? p with _ | e | w
    · rfl
    · rfl
    · cases collect x ps <;> rfl

theorem notice_blurred (group member : Nat) :
    notice (x.blurred v) group member = (notice x group member).blurred v := by
  unfold notice
  rw [groups_blurred, outcome_blurred]
  cases x.groups[group]? with
  | none => rfl
  | some g =>
    rcases x.outcome? member with _ | e | w
    · rfl
    · exact complete_blurred v x g.promise (.error e)
    · dsimp only [Option.map_some, unsitedOutcome, mapBoth]
      split
      · let noticed : State τ :=
          { x with groups := x.groups.set group ⟨g.members, g.remaining - 1, g.promise⟩ }
        rw [show { x.blurred v with groups := noticed.groups } = noticed.blurred v from rfl,
          collect_blurred]
        cases collect noticed g.members with
        | some vs =>
          have hcomplete := complete_blurred v noticed g.promise (.ok (.list vs))
          simp only [mapBoth, Value.unsited, Value.unsitedAll_eq_map] at hcomplete
          exact hcomplete
        | none => rfl
      · rfl

end

end EventLoop
end DescribedEffects
