import DescribedEffects.Computation.Transcript
import DescribedEffects.Proofs.EventLoop.Turns
import DescribedEffects.Proofs.EventLoop.Unread

/-!
# A loop in disguise

Much of what a loop keeps makes no difference to how it moves: the stack and the trace of
whoever drives, whether an ending is captured, the notes that were made before, what is known
of the host beyond its answers, and the outcome of a promise that nobody reads.  A `Disguise`
replaces the books that are kept by others, and `State.disguised` puts a loop into it.

Every function of the loop commutes with that, as long as it reads no promise whose outcome
is disguised (`Disguise.Spares`); each lemma says which ones the function reads.  So a run and
the same run in disguise go through corresponding states (`step_disguised`).  Nothing here
resumes a computation unless the stack is left as it is (`deliver_disguised`).
-/

namespace DescribedEffects
namespace EventLoop

variable {σ τ : Type}

/-- Other books for a loop.  What is recorded and whether that was a strain does not depend on
which books are kept. -/
structure Disguise where
  journey : Journey → Journey
  captured : Bool → Bool
  report : Report → Report
  /-- What is found in a promise. -/
  outcome : Nat → Outcome → Outcome
  record : ∀ j o, journey (j.record o) = (journey j).record o
  strained : ∀ j, (journey j).isStrained = j.isStrained
  reported : ∀ j o, report ⟨o, j.trace⟩ = ⟨o, (journey j).trace⟩

namespace Disguise

variable (D : Disguise)

/-- The outcome of the promise is left as it is. -/
def Spares (p : Nat) : Prop := ∀ o, D.outcome p o = o

/-- The promise is found completed with the outcome that is captured as the disguise has it. -/
def Captures (p : Nat) : Prop :=
  ∀ captured o, D.outcome p (if captured = true then captureOutcome o else o) =
    if D.captured captured = true then captureOutcome o else o

/-- The stack and the effect being performed are left as they are. -/
structure KeepsStack : Prop where
  active : ∀ j, (D.journey j).active = j.active
  stacked : ∀ (j : Journey) active,
    D.journey { j with active := active } = { D.journey j with active := active }
  current : ∀ (j : Journey) d,
    D.journey { j with current := some d } = { D.journey j with current := some d }

end Disguise

/-- The loop with a group of new tasks. -/
def State.grouped (s : State σ) (errands : List Errand) : State σ :=
  let launched := launch (s.opened errands.length) s.groups.length errands
  { launched.2 with
    groups := launched.2.groups.set s.groups.length
      ⟨launched.1, errands.length, s.promises.length⟩ }

/-- A task waits for the group of its new tasks. -/
theorem gather_of_errands {s : State σ} {t : Nat} {goal : Goal} {errands : List Errand}
    (h : errands.isEmpty = false) :
    gather s t goal errands = block (s.grouped errands) t goal s.promises.length := by
  unfold gather
  rw [h]
  rfl

/-- The loop with another effect that is performed with a completion callback. -/
def State.pending (s : State σ) (d : Descriptor) : State σ :=
  { s.newPromise.2 with effects := s.effects ++ [⟨d, false, s.promises.length⟩] }

/-- A task waits for the completion of its new effect. -/
theorem performCallback_eq (H : Host σ) (s : State σ) (t : Nat) (goal : Goal) (f : Value)
    (d : Descriptor) :
    performCallback H s t goal f d =
      let (o, host) := H.call f (d.args ++ [.done s.run s.effects.length]) s.host
      acceptCallback H (grantAll H { s.pending d with host }) t goal s.effects.length
        s.promises.length d o := rfl

variable (D : Disguise)

def Goal.disguised : Goal → Goal
  | .drive j captured => .drive (D.journey j) (D.captured captured)
  | goal => goal

def Phase.disguised : Phase → Phase
  | .asleep goal k => .asleep (goal.disguised D) k
  | .blocked goal p => .blocked (goal.disguised D) p
  | .finished report => .finished (report.map D.report)
  | phase => phase

def Task.disguised (task : Task) : Task := { task with phase := task.phase.disguised D }

def Promise.disguised (p : Nat) (promise : Promise) : Promise :=
  { promise with outcome := promise.outcome.map (D.outcome p) }

def Control.disguised : Control → Control
  | .idle => .idle
  | .perform t goal d => .perform t (goal.disguised D) d
  | .outcome t goal o => .outcome t (goal.disguised D) o
  | .deliver t j captured signal => .deliver t (D.journey j) (D.captured captured) signal

/-- A loop with other books, other notes before its own, and another view of its host. -/
def State.disguised (v : τ → σ) (notes : List Note) (x : State τ) : State σ where
  host := v x.host
  run := x.run
  clock := x.clock
  ready := x.ready
  timers := x.timers
  tasks := x.tasks.map (Task.disguised D)
  promises := x.promises.mapIdx (Promise.disguised D)
  effects := x.effects
  groups := x.groups
  futures := x.futures
  earlier := x.earlier
  batch := x.batch
  stopping := x.stopping
  notes := notes ++ x.notes
  control := x.control.disguised D

/-- An ending in disguise. -/
def Ending.disguised (v : τ → σ) (notes : List Note) : Ending τ → Ending σ
  | .finished o x => .finished (D.outcome 0 o) (x.disguised D v notes)
  | .deadlock x => .deadlock (x.disguised D v notes)

variable {D} {K : Host τ} {H : Host σ} (V : K.Surroundings H) (notes : List Note)
  {context : Value} {t : Nat} {goal : Goal}

section

variable (v : τ → σ) (x : State τ)

@[simp] theorem host_disguised : (x.disguised D v notes).host = v x.host := rfl

@[simp] theorem effects_disguised : (x.disguised D v notes).effects = x.effects := rfl

@[simp] theorem groups_disguised : (x.disguised D v notes).groups = x.groups := rfl

@[simp] theorem futures_disguised : (x.disguised D v notes).futures = x.futures := rfl

@[simp] theorem earlier_disguised : (x.disguised D v notes).earlier = x.earlier := rfl

@[simp] theorem getElem?_tasks_disguised (k : Nat) :
    (x.disguised D v notes).tasks[k]? = x.tasks[k]?.map (Task.disguised D) := List.getElem?_map

@[simp] theorem getElem?_promises_disguised (p : Nat) :
    (x.disguised D v notes).promises[p]? = x.promises[p]?.map (Promise.disguised D p) :=
  List.getElem?_mapIdx

theorem length_promises_disguised :
    (x.disguised D v notes).promises.length = x.promises.length := List.length_mapIdx

theorem outcome_disguised (p : Nat) :
    (x.disguised D v notes).outcome? p = (x.outcome? p).map (D.outcome p) := by
  unfold State.outcome?
  rw [getElem?_promises_disguised]
  cases x.promises[p]? <;> rfl

/-- What is found in a promise that is spared. -/
theorem outcome_spared {p : Nat} (hp : D.Spares p) :
    (x.disguised D v notes).outcome? p = x.outcome? p := by
  rw [outcome_disguised, show D.outcome p = id from funext hp, Option.map_id]
  rfl

/-- A promise is completed with what will be found in it. -/
theorem complete_disguised (p : Nat) {o o' : Outcome} (ho : o' = D.outcome p o) :
    (x.disguised D v notes).complete p o' = (x.complete p o).disguised D v notes := by
  subst ho
  unfold State.complete
  rw [getElem?_promises_disguised]
  rcases hp : x.promises[p]? with _ | ⟨_ | o, waiters⟩
  · rfl
  · simp [State.disguised, Promise.disguised, List.mapIdx_set]
  · rfl

/-- A promise that is spared is completed with the same outcome. -/
theorem complete_spared {p : Nat} (hp : D.Spares p) (o : Outcome) :
    (x.disguised D v notes).complete p o = (x.complete p o).disguised D v notes :=
  complete_disguised notes v x p (hp o).symm

theorem subscribe_disguised (p : Nat) (j : Job) :
    (x.disguised D v notes).subscribe p j = (x.subscribe p j).disguised D v notes := by
  unfold State.subscribe
  rw [getElem?_promises_disguised]
  rcases x.promises[p]? with _ | ⟨_ | o, waiters⟩
  · rfl
  · simp [State.disguised, Promise.disguised, List.mapIdx_set]
  · rfl

theorem claim_disguised (i : Nat) :
    (x.disguised D v notes).claim i = ((x.claim i).1, (x.claim i).2.disguised D v notes) := by
  unfold State.claim
  rw [effects_disguised]
  cases x.effects[i]? with
  | none => rfl
  | some e =>
    dsimp only
    split <;> rfl

theorem setPhase_disguised (k : Nat) (phase : Phase) :
    (x.disguised D v notes).setPhase k (phase.disguised D) =
      (x.setPhase k phase).disguised D v notes := by
  unfold State.setPhase
  rw [getElem?_tasks_disguised]
  cases x.tasks[k]? with
  | none => rfl
  | some task => simp [State.disguised, Task.disguised, List.map_set]

theorem note_disguised (n : Note) :
    (x.disguised D v notes).note n = (x.note n).disguised D v notes := by
  simp [State.note, State.disguised, List.append_assoc]

/-- An open promise looks the same in every disguise. -/
theorem newPromise_disguised :
    (x.disguised D v notes).newPromise =
      (x.newPromise.1, x.newPromise.2.disguised D v notes) := by
  simp [State.newPromise, State.disguised, Promise.disguised, List.mapIdx_concat]

theorem newTask_disguised (errand : Errand) :
    (x.disguised D v notes).newTask errand =
      ((x.newTask errand).1, (x.newTask errand).2.disguised D v notes) := by
  simp [State.newTask, State.newPromise, State.enqueue, State.disguised, Task.disguised,
    Phase.disguised, Promise.disguised, List.mapIdx_concat]

theorem grant_disguised (hnew : D.Spares x.promises.length) (r : Request) :
    grant (x.disguised D v notes) r = (grant x r).disguised D v notes := by
  cases r with
  | complete run i error value =>
    have hrun : (x.disguised D v notes).run = x.run := rfl
    by_cases h : run = x.run
    · simp only [grant, hrun, if_pos h, claim_disguised]
      split <;> rfl
    · simp only [grant, hrun, if_neg h]
  | callLater delay f args => rfl
  | future id o delay =>
    unfold grant
    dsimp only
    rw [newPromise_disguised]
    rcases o with _ | o
    · rfl
    · rcases delay with _ | n
      · let noted : State τ :=
          { x.newPromise.2 with futures := x.futures ++ [(id, x.promises.length)] }
        exact complete_spared notes v noted hnew o
      · rfl

theorem block_disguised {p : Nat} (hp : D.Spares p) :
    block (x.disguised D v notes) t (goal.disguised D) p =
      (block x t goal p).disguised D v notes := by
  unfold block
  rw [outcome_spared notes v x hp]
  cases x.outcome? p with
  | some o => rfl
  | none =>
    dsimp only
    rw [subscribe_disguised]
    exact congrArg State.toIdle
      (setPhase_disguised notes v (x.subscribe p (.step t)) t (.blocked goal p))

theorem advance_disguised (k : Nat) (progress : Progress) :
    advance (x.disguised D v notes) t (goal.disguised D) k progress =
      (advance x t goal k progress).disguised D v notes := by
  have hphase := setPhase_disguised (D := D) notes v x t (.asleep goal k)
  unfold advance
  split
  · rfl
  · exact congrArg (fun s => (State.enqueue s (.step t)).toIdle) hphase
  · exact congrArg (fun s => (State.setTimer s _ (.step t)).toIdle) hphase

theorem launch_disguised (group : Nat) (errands : List Errand) :
    launch (x.disguised D v notes) group errands =
      ((launch x group errands).1, (launch x group errands).2.disguised D v notes) := by
  induction errands generalizing x with
  | nil => rfl
  | cons errand rest ih =>
    have hpromise : ∀ (y : State τ) (k : Nat),
        (y.disguised D v notes).tasks[k]?.map (·.promise) = y.tasks[k]?.map (·.promise) := by
      intro y k
      rw [getElem?_tasks_disguised]
      cases y.tasks[k]? <;> rfl
    simp only [launch, newTask_disguised, hpromise, subscribe_disguised, ih]

theorem opened_disguised (n : Nat) :
    (x.disguised D v notes).opened n = (x.opened n).disguised D v notes := by
  simp [State.opened, State.newPromise, State.disguised, Promise.disguised, List.mapIdx_concat]

theorem grouped_disguised (errands : List Errand) :
    (x.disguised D v notes).grouped errands = (x.grouped errands).disguised D v notes := by
  unfold State.grouped
  rw [groups_disguised, opened_disguised, launch_disguised, length_promises_disguised]
  rfl

theorem pending_disguised (d : Descriptor) :
    (x.disguised D v notes).pending d = (x.pending d).disguised D v notes := by
  simp [State.pending, State.newPromise, State.disguised, Promise.disguised, List.mapIdx_concat]

theorem gather_disguised (hnew : D.Spares x.promises.length) (errands : List Errand) :
    gather (x.disguised D v notes) t (goal.disguised D) errands =
      (gather x t goal errands).disguised D v notes := by
  cases h : errands.isEmpty with
  | true =>
    unfold gather
    rw [h]
    rfl
  | false =>
    rw [gather_of_errands h, gather_of_errands h, grouped_disguised, length_promises_disguised]
    exact block_disguised notes v (x.grouped errands) hnew

end

/-! ## Questions to the host -/

/-- Promises that are yet to be made, and those of the futures that the host made, are
spared. -/
structure Disguise.Suits (D : Disguise) (x : State τ) : Prop where
  made : ∀ p, x.promises.length ≤ p → D.Spares p
  futures : ∀ id p, (id, p) ∈ x.futures → D.Spares p

theorem suits_of_granting {claims : Nat → Prop} {x y : State τ} (h : Granting claims x y)
    (hx : D.Suits x) : D.Suits y := by
  cases h with
  | future id o =>
    refine ⟨fun p hp => hx.made p ?_, fun i p hmem => ?_⟩
    · simp only [List.length_append] at hp
      omega
    · rcases List.mem_append.1 hmem with hmem | hmem
      · exact hx.futures i p hmem
      · cases List.mem_singleton.1 hmem
        exact hx.made _ (Nat.le_refl _)
  | _ => exact ⟨hx.made, hx.futures⟩

/-- What is granted makes futures of promises that are spared. -/
theorem Disguise.Suits.grantAll {x : State τ} (hx : D.Suits x) : D.Suits (grantAll K x) :=
  kept_of_granting suits_of_granting (granting_grantAll K x) hx

variable {x : State τ}

theorem grantAll_disguised (hx : D.Suits x) :
    grantAll H (x.disguised D V.view notes) = (grantAll K x).disguised D V.view notes := by
  have hgrant : ∀ (requests : List Request) (y : State τ), D.Suits y →
      requests.foldl grant (y.disguised D V.view notes) =
        (requests.foldl grant y).disguised D V.view notes := by
    intro requests
    induction requests with
    | nil => exact fun _ _ => rfl
    | cons r rest ih =>
      intro y hy
      rw [List.foldl_cons, grant_disguised notes V.view y (hy.made _ (Nat.le_refl _)),
        ih _ (kept_of_granting suits_of_granting (granting_grant y r fun _ _ _ _ => trivial) hy)]
      rfl
  unfold EventLoop.grantAll
  simp only [host_disguised, V.drain, Prod.map_fst, Prod.map_snd, id_eq]
  exact hgrant _ { x with host := (K.drain x.host).2 } ⟨hx.made, hx.futures⟩

variable (goal) in
theorem arriveWith_disguised (body : ExnBody Value) :
    arriveWith H (x.disguised D V.view notes) t (goal.disguised D) body =
      (arriveWith K x t goal body).disguised D V.view notes := by
  simp only [arriveWith, host_disguised, V.raise]
  rfl

theorem arriveShielded_disguised (sentence : String) (e : Exn) :
    arriveShielded H (x.disguised D V.view notes) t (goal.disguised D) sentence e =
      (arriveShielded K x t goal sentence e).disguised D V.view notes := by
  simp only [arriveShielded, host_disguised, V.shield]
  rfl

theorem refuseForeign_disguised (hnew : D.Spares x.promises.length) :
    refuseForeign H (x.disguised D V.view notes) t (goal.disguised D) =
      (refuseForeign K x t goal).disguised D V.view notes := by
  let asked : State τ := { x with host := (K.raise ValueFault.foreignFuture.body x.host).2 }
  let e := (K.raise ValueFault.foreignFuture.body x.host).1
  have hraised : ({ x.disguised D V.view notes with
      host := V.view (K.raise ValueFault.foreignFuture.body x.host).2 } : State σ) =
      asked.disguised D V.view notes := rfl
  have hcomplete := complete_spared (D := D) notes V.view asked.newPromise.2 hnew (.error e)
  have hphase := setPhase_disguised (D := D) notes V.view
    (asked.newPromise.2.complete x.promises.length (.error e)) t (.blocked goal x.promises.length)
  unfold refuseForeign
  simp only [host_disguised, V.raise, Prod.map_fst, Prod.map_snd, id_eq]
  rw [hraised, newPromise_disguised]
  exact congrArg (fun s => (State.enqueue s (.step t)).toIdle)
    ((congrArg (fun s => State.setPhase s t _) hcomplete).trans hphase)

variable (goal) in
theorem await_disguised (hx : D.Suits x) (w : Value) :
    await H (x.disguised D V.view notes) t (goal.disguised D) w =
      (await K x t goal w).disguised D V.view notes := by
  unfold await
  split
  · next k =>
    let started : State τ := { x with host := (K.start k x.host).2 }
    have hstarted : grantAll H { x.disguised D V.view notes with
        host := V.view (K.start k x.host).2 } = (grantAll K started).disguised D V.view notes :=
      grantAll_disguised V notes (x := started) ⟨hx.made, hx.futures⟩
    simp only [host_disguised, V.start, Prod.map_fst, Prod.map_snd, id_eq]
    rw [hstarted]
    exact advance_disguised notes V.view _ k _
  · next id =>
    simp only [futures_disguised, earlier_disguised]
    split
    · next hp =>
      obtain ⟨before, after, hmem, -⟩ := List.lookup_eq_some_iff.1 hp
      exact block_disguised notes V.view x (hx.futures id _ (by rw [hmem]; simp))
    · rfl
    · exact refuseForeign_disguised V notes (hx.made _ (Nat.le_refl _))
  · rfl
  · exact arriveShielded_disguised V notes _ _
  · rfl

theorem acceptDirect_disguised (hx : D.Suits x) (o : Outcome) :
    acceptDirect H (x.disguised D V.view notes) t (goal.disguised D) o =
      (acceptDirect K x t goal o).disguised D V.view notes := by
  unfold acceptDirect
  split
  · exact arriveShielded_disguised V notes _ _
  · split
    · exact await_disguised V notes goal hx _
    · rfl

/-- A function is called, and what is asked for meanwhile is granted. -/
theorem call_disguised (hx : D.Suits x) (f : Value) (args : List Value) :
    grantAll H { x.disguised D V.view notes with
        host := (H.call f args (V.view x.host)).2 } =
      (grantAll K { x with host := (K.call f args x.host).2 }).disguised D V.view notes := by
  rw [V.call]
  exact grantAll_disguised V notes (x := { x with host := (K.call f args x.host).2 })
    ⟨hx.made, hx.futures⟩

theorem performDirect_disguised (hx : D.Suits x) (f : Value) (d : Descriptor) :
    performDirect H (x.disguised D V.view notes) t (goal.disguised D) f d =
      (performDirect K x t goal f d).disguised D V.view notes := by
  have hcall := call_disguised V notes hx f d.args
  have hcalled : (H.call f d.args (V.view x.host)).1 = (K.call f d.args x.host).1 := by
    rw [V.call]
    rfl
  show acceptDirect H
      (grantAll H { x.disguised D V.view notes with
        host := (H.call f d.args (V.view x.host)).2 })
      t (goal.disguised D) (H.call f d.args (V.view x.host)).1 = _
  rw [hcall, hcalled]
  let called : State τ := { x with host := (K.call f d.args x.host).2 }
  exact acceptDirect_disguised V notes (Disguise.Suits.grantAll (x := called) ⟨hx.made, hx.futures⟩) _

theorem acceptCallback_disguised {p : Nat} (hp : D.Spares p) (effect : Nat) (d : Descriptor)
    (o : Outcome) :
    acceptCallback H (x.disguised D V.view notes) t (goal.disguised D) effect p d o =
      (acceptCallback K x t goal effect p d o).disguised D V.view notes := by
  unfold acceptCallback
  split
  · split
    · rw [claim_disguised]
      dsimp only
      split
      · exact arriveShielded_disguised V notes _ _
      · rw [note_disguised]
        exact block_disguised notes V.view _ hp
    · rfl
  · split
    · rw [newTask_disguised]
      exact block_disguised notes V.view _ hp
    · exact block_disguised notes V.view x hp

theorem performCallback_disguised (hx : D.Suits x) (f : Value) (d : Descriptor) :
    performCallback H (x.disguised D V.view notes) t (goal.disguised D) f d =
      (performCallback K x t goal f d).disguised D V.view notes := by
  let args := d.args ++ [.done x.run x.effects.length]
  have hpending : D.Suits (x.pending d) := by
    refine ⟨fun p hp => hx.made p ?_, hx.futures⟩
    simp only [State.pending, State.newPromise, List.length_append] at hp
    omega
  have hcall := call_disguised V notes hpending f args
  have hcalled : (H.call f args (V.view x.host)).1 = (K.call f args x.host).1 := by
    rw [V.call]
    rfl
  rw [performCallback_eq, performCallback_eq, pending_disguised, length_promises_disguised]
  show acceptCallback H
      (grantAll H { (x.pending d).disguised D V.view notes with
        host := (H.call f args (V.view (x.pending d).host)).2 })
      t (goal.disguised D) x.effects.length x.promises.length d
      (H.call f args (V.view x.host)).1 = _
  rw [hcall, hcalled]
  exact acceptCallback_disguised V notes (hx.made _ (Nat.le_refl _)) _ d _

/-- **An effect is performed in disguise.** -/
theorem perform_disguised (hx : D.Suits x) (d : Descriptor) :
    perform H context (x.disguised D V.view notes) t (goal.disguised D) d =
      (perform K context x t goal d).disguised D V.view notes := by
  unfold perform
  split
  · rw [note_disguised]
    exact gather_disguised notes V.view (x.note _) (hx.made _ (Nat.le_refl _)) _
  · split
    · simp only [host_disguised, V.complain, Prod.map_fst, Prod.map_snd, id_eq]
      exact arriveShielded_disguised V notes (x := { x with host := _ }) _ _
    · dsimp only
      rw [note_disguised]
      split
      · rfl
      · exact performDirect_disguised V notes (x := x.note _) ⟨hx.made, hx.futures⟩ _ d
      · exact performCallback_disguised V notes (x := x.note _) ⟨hx.made, hx.futures⟩ _ d

/-! ## The ends of tasks -/

/-- A task ends with what will be found in its promise. -/
theorem finish_disguised (v : τ → σ) (k : Nat) (report : Option Report) {o o' : Outcome}
    (h : ∀ task, x.tasks[k]? = some task → o' = D.outcome task.promise o) :
    finish (x.disguised D v notes) k (report.map D.report) o' =
      (finish x k report o).disguised D v notes := by
  unfold finish
  rw [getElem?_tasks_disguised]
  cases hk : x.tasks[k]? with
  | none => rfl
  | some task =>
    have hphase := setPhase_disguised (D := D) notes v x k (.finished report)
    have hcomplete := complete_disguised notes v (x.setPhase k (.finished report)) task.promise
      (h task hk)
    exact (congrArg (fun s => (State.complete s task.promise o').toIdle) hphase).trans
      (congrArg State.toIdle hcomplete)

/-- A task whose promise is spared ends with the same outcome. -/
theorem finish_spared (v : τ → σ) {k : Nat}
    (h : ∀ task, x.tasks[k]? = some task → D.Spares task.promise) (o : Outcome) :
    finish (x.disguised D v notes) k none o = (finish x k none o).disguised D v notes :=
  finish_disguised notes v k none fun task hk => (h task hk o).symm

theorem finishWatch_disguised (v : τ → σ) {k effect : Nat}
    (htask : ∀ task, x.tasks[k]? = some task → D.Spares task.promise)
    (heffect : ∀ e, x.effects[effect]? = some e → D.Spares e.promise) (o : Outcome) :
    finishWatch (x.disguised D v notes) k effect o =
      (finishWatch x k effect o).disguised D v notes := by
  have hfinish : ∀ y : State τ, y.tasks = x.tasks → ∀ o,
      finish (y.disguised D v notes) k none o = (finish y k none o).disguised D v notes :=
    fun y hy o => finish_spared notes v (fun task hk => htask task (hy ▸ hk)) o
  unfold finishWatch
  split
  · exact hfinish x rfl _
  · split
    · rw [effects_disguised]
      cases he : x.effects[effect]? with
      | none => exact hfinish x rfl _
      | some pending =>
        have hclaim : (x.claim effect).2.tasks = x.tasks := by
          rw [State.claim_frame]
        dsimp only
        rw [claim_disguised]
        dsimp only
        split
        · rw [complete_spared notes v _ (heffect pending he)]
          exact hfinish _ (by rw [State.complete_frame]; exact hclaim) _
        · rw [note_disguised]
          exact hfinish ((x.claim effect).2.note _) hclaim _
    · exact hfinish x rfl _

/-- A driven computation ends. -/
theorem finishDrive_disguised (v : τ → σ) {k : Nat}
    (h : ∀ task, x.tasks[k]? = some task → D.Captures task.promise) (j : Journey)
    (captured : Bool) (o : Outcome) :
    finishDrive (x.disguised D v notes) k (D.journey j) (D.captured captured) o =
      (finishDrive x k j captured o).disguised D v notes := by
  unfold finishDrive
  rw [← D.reported j o]
  exact finish_disguised notes v k (some ⟨o, j.trace⟩) fun task hk => (h task hk captured o).symm

/-- What the driver makes of the outcome of an effect. -/
theorem answerDrive_disguised
    (h : ∀ task, x.tasks[t]? = some task → D.Captures task.promise) (j : Journey)
    (captured : Bool) (o : Outcome) :
    answerDrive H (x.disguised D V.view notes) t (D.journey j) (D.captured captured) o =
      (answerDrive K x t j captured o).disguised D V.view notes := by
  have hdeliver : ∀ (j : Journey) signal,
      deliverRecorded H (x.disguised D V.view notes) t (D.journey j) (D.captured captured) signal =
        (deliverRecorded K x t j captured signal).disguised D V.view notes := by
    intro j signal
    unfold deliverRecorded
    rw [D.strained]
    split
    · simp only [host_disguised, V.raise]
      rfl
    · rfl
  unfold answerDrive
  split
  · rw [← D.record]
    exact hdeliver _ _
  · split
    · rw [← D.record]
      exact hdeliver _ _
    · exact finishDrive_disguised notes V.view h j captured _

/-! ## Driven computations -/

section

variable (W : K.View H) (stack : D.KeepsStack)

include stack

/-- The innermost computation has ended. -/
theorem leave_disguised (v : τ → σ)
    (h : ∀ task, x.tasks[t]? = some task → D.Captures task.promise) (j : Journey)
    (captured : Bool) (o : Outcome) :
    leave (x.disguised D v notes) t (D.journey j) (D.captured captured) o =
      (leave x t j captured o).disguised D v notes := by
  have hfinish := finishDrive_disguised notes v h j captured
  unfold leave
  rw [stack.active]
  split
  · exact hfinish _
  · rw [← stack.stacked]
    split
    · rfl
    · split
      · rfl
      · exact hfinish _

/-- The innermost computation has yielded an item. -/
theorem receive_disguised (j : Journey) (captured : Bool) (item : Value) :
    receive H (x.disguised D W.view notes) t (D.journey j) (D.captured captured) item =
      (receive K x t j captured item).disguised D W.view notes := by
  cases item with
  | computation g =>
    show ({ (x.disguised D W.view notes).note (.nested (.computation g)) with
      control := .deliver t { D.journey j with active := g :: (D.journey j).active }
        (D.captured captured) (.send .null) } : State σ) = _
    rw [note_disguised, stack.active, ← stack.stacked]
    rfl
  | _ =>
    unfold receive
    dsimp only
    split
    · simp only [host_disguised, W.raise]
      rfl
    · rw [note_disguised, ← stack.current]
      rfl

/-- **The innermost computation is resumed in disguise.** -/
theorem deliver_disguised (hx : D.Suits x)
    (h : ∀ task, x.tasks[t]? = some task → D.Captures task.promise) (j : Journey)
    (captured : Bool) (signal : Signal) :
    deliver H (x.disguised D W.view notes) t (D.journey j) (D.captured captured) signal =
      (deliver K x t j captured signal).disguised D W.view notes := by
  have hsignal : noteSignal (x.disguised D W.view notes) signal =
      (noteSignal x signal).disguised D W.view notes := by
    cases signal with
    | send v => rfl
    | throw e => exact note_disguised notes W.view x _
  unfold deliver
  rw [stack.active]
  split
  · exact finishDrive_disguised notes W.view h j captured _
  · next g _ _ =>
    let resumed : State τ :=
      { noteSignal x signal with host := (K.resume g signal (noteSignal x signal).host).2 }
    have htasks : (noteSignal x signal).tasks = x.tasks := by cases signal <;> rfl
    have hfutures : (noteSignal x signal).futures = x.futures := by cases signal <;> rfl
    have hpromises : (noteSignal x signal).promises = x.promises := by cases signal <;> rfl
    have hsuits : D.Suits resumed :=
      ⟨fun p hp => hx.made p (hpromises ▸ hp), fun i p hmem => hx.futures i p (hfutures ▸ hmem)⟩
    have hgranted : grantAll H { (noteSignal x signal).disguised D W.view notes with
        host := W.view (K.resume g signal (noteSignal x signal).host).2 } =
        (grantAll K resumed).disguised D W.view notes :=
      grantAll_disguised W.toSurroundings notes hsuits
    have hcaptures : ∀ task, (grantAll K resumed).tasks[t]? = some task →
        D.Captures task.promise := by
      intro task hk
      rw [tasks_grantAll] at hk
      exact h task (htasks ▸ hk)
    dsimp only
    rw [hsignal]
    simp only [host_disguised, W.resume, Prod.map_fst, Prod.map_snd, id_eq]
    rw [hgranted]
    cases Host.settle (K.resume g signal (noteSignal x signal).host).1 with
    | yielded item => exact receive_disguised notes W stack j captured _
    | returned v => exact leave_disguised notes stack W.view hcaptures j captured _
    | raised e => exact leave_disguised notes stack W.view hcaptures j captured _

end

/-! ## Jobs -/

theorem begin_disguised (hx : D.Suits x) {errand : Errand} (h : errand.isQuiet = true) :
    begin H (x.disguised D V.view notes) t errand =
      (begin K x t errand).disguised D V.view notes := by
  unfold begin
  split
  · split
    · exact arriveWith_disguised V notes .answer _
    · rfl
  · exact await_disguised V notes (.watch _) hx _
  · cases h
  · cases h

theorem stepTask_disguised (hx : D.Suits x) (k : Nat)
    (fresh : ∀ errand, x.tasks[k]?.map Task.phase = some (.fresh errand) → errand.isQuiet = true)
    (blocked : ∀ goal p, x.tasks[k]?.map Task.phase = some (.blocked goal p) → D.Spares p) :
    stepTask H (x.disguised D V.view notes) k = (stepTask K x k).disguised D V.view notes := by
  have hphase : (x.disguised D V.view notes).tasks[k]?.map Task.phase =
      (x.tasks[k]?.map Task.phase).map (Phase.disguised D) := by
    rw [getElem?_tasks_disguised]
    cases x.tasks[k]? <;> rfl
  have hrun : (x.disguised D V.view notes).setPhase k .running =
      (x.setPhase k .running).disguised D V.view notes :=
    setPhase_disguised (D := D) notes V.view x k .running
  have hsuits : D.Suits (x.setPhase k .running) := by
    rw [State.setPhase_frame]
    exact ⟨hx.made, hx.futures⟩
  unfold stepTask
  rw [hphase]
  cases hp : x.tasks[k]?.map Task.phase with
  | none => rfl
  | some phase =>
    cases phase with
    | fresh errand =>
      simp only [Option.map_some, Phase.disguised, hrun]
      exact begin_disguised V notes hsuits (fresh errand hp)
    | running => rfl
    | asleep goal j =>
      let woken : State τ := { x.setPhase k .running with host := (K.wake j x.host).2 }
      have hwoken : grantAll H { (x.setPhase k .running).disguised D V.view notes with
          host := V.view (K.wake j x.host).2 } = (grantAll K woken).disguised D V.view notes :=
        grantAll_disguised V notes (x := woken) ⟨hsuits.made, hsuits.futures⟩
      simp only [Option.map_some, Phase.disguised, hrun, host_disguised, V.wake, Prod.map_fst,
        Prod.map_snd, id_eq]
      rw [hwoken]
      exact advance_disguised notes V.view _ j _
    | blocked goal p =>
      simp only [Option.map_some, Phase.disguised, outcome_spared notes V.view x (blocked goal p hp),
        hrun]
      cases x.outcome? p <;> rfl
    | finished report => rfl

theorem collect_disguised (v : τ → σ) {ps : List Nat} (h : ∀ p ∈ ps, D.Spares p) :
    collect (x.disguised D v notes) ps = collect x ps := by
  induction ps with
  | nil => rfl
  | cons p rest ih =>
    unfold collect
    rw [outcome_spared notes v x (h p (List.mem_cons_self ..)),
      ih fun q hq => h q (List.mem_cons_of_mem p hq)]

theorem notice_disguised (v : τ → σ) {group member : Nat} (hmember : D.Spares member)
    (hgroup : ∀ g, x.groups[group]? = some g →
      D.Spares g.promise ∧ ∀ m ∈ g.members, D.Spares m) :
    notice (x.disguised D v notes) group member = (notice x group member).disguised D v notes := by
  unfold notice
  rw [groups_disguised, outcome_spared notes v x hmember]
  cases hg : x.groups[group]? with
  | none => rfl
  | some g =>
    obtain ⟨hpromise, hmembers⟩ := hgroup g hg
    rcases x.outcome? member with _ | e | w
    · rfl
    · exact complete_spared notes v x hpromise _
    · dsimp only
      split
      · let noticed : State τ :=
          { x with groups := x.groups.set group ⟨g.members, g.remaining - 1, g.promise⟩ }
        have hcollect : collect (noticed.disguised D v notes) g.members =
            collect noticed g.members := collect_disguised notes v hmembers
        have hcomplete := complete_spared notes v noticed hpromise
        rw [show { x.disguised D v notes with groups := noticed.groups } =
          noticed.disguised D v notes from rfl, hcollect]
        cases collect noticed g.members with
        | some vs => exact hcomplete _
        | none => rfl
      · rfl

theorem settle_disguised {effect : Nat}
    (heffect : ∀ e, x.effects[effect]? = some e → D.Spares e.promise) (error value : Value) :
    settle H (x.disguised D V.view notes) effect error value =
      (settle K x effect error value).disguised D V.view notes := by
  unfold settle
  rw [effects_disguised]
  cases he : x.effects[effect]? with
  | none => rfl
  | some e =>
    have hspared := heffect e he
    have hfailed : ∀ body, State.complete
        { x.disguised D V.view notes with host := (H.raise body (V.view x.host)).2 } e.promise
          (.error (H.raise body (V.view x.host)).1) =
        (State.complete { x with host := (K.raise body x.host).2 } e.promise
          (.error (K.raise body x.host).1)).disguised D V.view notes := by
      intro body
      rw [V.raise]
      exact complete_spared notes V.view { x with host := (K.raise body x.host).2 } hspared _
    dsimp only
    split
    · rfl
    · cases error with
      | null => exact complete_spared notes V.view x hspared _
      | exn y =>
        dsimp only
        split
        · exact complete_spared notes V.view x hspared _
        · exact hfailed _
      | _ => exact hfailed _

/-! ## Steps -/

/-- The disguise fits a loop whose main task drives a computation: whatever is read is
spared, and the main task ends as the disguise has it. -/
structure Disguise.Fits (D : Disguise) (x : State τ) : Prop extends D.Suits x where
  main : ∀ task, x.tasks[0]? = some task → D.Captures task.promise
  others : ∀ (k : Nat) (task : Task), x.tasks[k]? = some task → k ≠ 0 → D.Spares task.promise
  blocked : ∀ task ∈ x.tasks, ∀ goal p, task.phase = .blocked goal p → D.Spares p
  effects : ∀ (k : Nat) (e : PendingEffect), x.effects[k]? = some e → D.Spares e.promise
  groups : ∀ (k : Nat) (g : Group), x.groups[k]? = some g →
    D.Spares g.promise ∧ ∀ m ∈ g.members, D.Spares m
  ready : ∀ j ∈ x.ready, ∀ p, j.tells? = some p ∨ j.fulfils? = some p → D.Spares p
  answers : ∀ goal o, x.control = .outcome 0 goal o →
    goal.isQuiet = true → ∀ task, x.tasks[0]? = some task → D.Spares task.promise

theorem runJob_disguised (hx : D.Fits x) (hlone : Lone x) {j : Job}
    (hj : ∀ p, j.tells? = some p ∨ j.fulfils? = some p → D.Spares p) :
    runJob H (x.disguised D V.view notes) j = (runJob K x j).disguised D V.view notes := by
  cases j with
  | step k =>
    refine stepTask_disguised V notes hx.toSuits k (fun errand hk => ?_) fun goal p hk => ?_
    · rcases eq_or_ne k 0 with rfl | hne
      · exact absurd hk (hlone.begun errand)
      · obtain ⟨task, htask, hphase⟩ := Option.map_eq_some_iff.1 hk
        have hquiet := hlone.others k task htask hne
        rwa [hphase] at hquiet
    · obtain ⟨task, htask, hphase⟩ := Option.map_eq_some_iff.1 hk
      exact hx.blocked task (List.mem_of_getElem? htask) goal p hphase
  | notice g m => exact notice_disguised notes V.view (hj m (.inl rfl)) (hx.groups g)
  | settle effect error value => exact settle_disguised V notes (hx.effects effect) error value
  | fulfil p o => exact complete_spared notes V.view x (hj p (.inr rfl)) o
  | invoke f args => exact call_disguised V notes hx.toSuits f args
  | stop => rfl

theorem stepIdle_disguised (hx : D.Fits x) (hlone : Lone x) :
    stepIdle H (x.disguised D V.view notes) =
      (stepIdle K x).map (State.disguised D V.view notes) (Ending.disguised D V.view notes) := by
  have hjob : ∀ (n : Nat) (j : Job) (rest : List Job), x.ready = j :: rest →
      runJob H { x.disguised D V.view notes with ready := rest, batch := n } j =
        (runJob K { x with ready := rest, batch := n } j).disguised D V.view notes := by
    intro n j rest hr
    have hrest : ∀ k ∈ rest, k ∈ x.ready := fun k hk => hr ▸ List.mem_cons_of_mem j hk
    exact runJob_disguised V notes (x := { x with ready := rest, batch := n })
      { hx with ready := fun k hk => hx.ready k (hrest k hk) } { hlone with }
      (hx.ready j (hr ▸ List.mem_cons_self ..))
  have hready : (x.disguised D V.view notes).ready = x.ready := rfl
  have hbatch : (x.disguised D V.view notes).batch = x.batch := rfl
  have htimers : (x.disguised D V.view notes).timers = x.timers := rfl
  have hstopping : (x.disguised D V.view notes).stopping = x.stopping := rfl
  unfold stepIdle
  rw [hready, hbatch, htimers, hstopping, outcome_disguised]
  split
  · next hr => exact congrArg Transition.next (hjob _ _ _ hr)
  · rfl
  · split
    · cases x.outcome? 0 <;> rfl
    · split <;> rfl

variable (context) in
/-- **A step that resumes nothing** does the same in disguise. -/
theorem step_disguised_of_quiet (hx : D.Fits x) (hlone : Lone x)
    (resumes : ∀ t j captured signal, x.control ≠ .deliver t j captured signal) :
    step H context (x.disguised D V.view notes) =
      (step K context x).map (State.disguised D V.view notes)
        (Ending.disguised D V.view notes) := by
  have hcontrol : (x.disguised D V.view notes).control = x.control.disguised D := rfl
  have hsuits : D.Suits x.toIdle := ⟨hx.made, hx.futures⟩
  have hdrives : ∀ k, x.control.task? = some k → x.control.isQuiet = false → k = 0 := by
    intro k hk hq
    by_contra hne
    rw [hlone.control k hk hne] at hq
    cases hq
  have hspared : ∀ k goal o, x.control = .outcome k goal o → goal.isQuiet = true →
      ∀ task, x.tasks[k]? = some task → D.Spares task.promise := by
    intro k goal o hc hq task hk
    rcases eq_or_ne k 0 with rfl | hne
    · exact hx.answers goal o hc hq task hk
    · exact hx.others k task hk hne
  unfold step
  rw [hcontrol]
  cases hc : x.control with
  | idle => exact stepIdle_disguised V notes hx hlone
  | perform t goal d =>
    exact congrArg Transition.next (perform_disguised V notes (x := x.toIdle) hsuits d)
  | outcome t goal o =>
    cases goal with
    | answer =>
      exact congrArg Transition.next
        (finish_spared notes (x := x.toIdle) V.view (hspared t _ o hc rfl) o)
    | watch effect =>
      exact congrArg Transition.next (finishWatch_disguised notes (x := x.toIdle) V.view
        (hspared t _ o hc rfl) (hx.effects effect) o)
    | drive j captured =>
      obtain rfl := hdrives t (by rw [hc]; rfl) (by rw [hc]; rfl)
      exact congrArg Transition.next
        (answerDrive_disguised V notes (x := x.toIdle) hx.main j captured o)
  | deliver t j captured signal => exact absurd hc (resumes t j captured signal)

variable (context) in
/-- **Every step does the same in disguise**, if the stack is left as it is. -/
theorem step_disguised (W : K.View H) (stack : D.KeepsStack) (hx : D.Fits x) (hlone : Lone x) :
    step H context (x.disguised D W.view notes) =
      (step K context x).map (State.disguised D W.view notes)
        (Ending.disguised D W.view notes) := by
  by_cases hc : ∃ t j captured signal, x.control = .deliver t j captured signal
  · obtain ⟨t, j, captured, signal, hc⟩ := hc
    have hcontrol : (x.disguised D W.view notes).control =
        .deliver t (D.journey j) (D.captured captured) signal := congrArg (Control.disguised D) hc
    obtain rfl : t = 0 := by
      by_contra hne
      have hquiet := hlone.control t (by rw [hc]; rfl) hne
      rw [hc] at hquiet
      cases hquiet
    unfold step
    rw [hcontrol, hc]
    exact congrArg Transition.next
      (deliver_disguised notes W stack (x := x.toIdle) ⟨hx.made, hx.futures⟩ hx.main j captured
        signal)
  · refine step_disguised_of_quiet W.toSurroundings notes context hx hlone
      fun t j c s h => hc ⟨t, j, c, s, h⟩

end EventLoop
end DescribedEffects
