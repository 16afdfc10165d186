import DescribedEffects.Proofs.EventLoop.Disguise

/-!
# A loop amid computations

Between two resumptions of a computation the loop asks nothing about computations and never
looks at the ones it is driving.  So what it does there can be watched on a loop that knows
of none: `State.amid` puts such a loop amid computations, by a view of its host, a stack of
active computations for whoever drives, and notes that were made before.  Every function of
the loop that resumes nothing and begins to drive nothing commutes with that
(`step_amid`).

The same loop can be put amid different computations.  That is how two runs of a driver are
compared that differ in what they drive and agree in everything else.
-/

namespace DescribedEffects
namespace EventLoop

variable {σ τ : Type}

/-- A journey over another stack of computations. -/
def Journey.amid (a : List Nat) (j : Journey) : Journey := { j with active := a }

def Goal.amid (a : List Nat) : Goal → Goal
  | .drive j captured => .drive (j.amid a) captured
  | goal => goal

def Phase.amid (a : List Nat) : Phase → Phase
  | .asleep goal k => .asleep (goal.amid a) k
  | .blocked goal p => .blocked (goal.amid a) p
  | phase => phase

def Task.amid (a : List Nat) (task : Task) : Task := { task with phase := task.phase.amid a }

def Control.amid (a : List Nat) : Control → Control
  | .idle => .idle
  | .perform t goal d => .perform t (goal.amid a) d
  | .outcome t goal o => .outcome t (goal.amid a) o
  | .deliver t j captured signal => .deliver t (j.amid a) captured signal

/-- A loop put amid computations: those that are active, and a host that knows of them. -/
def State.amid (v : τ → σ) (notes : List Note) (a : List Nat) (x : State τ) : State σ where
  host := v x.host
  run := x.run
  clock := x.clock
  ready := x.ready
  timers := x.timers
  tasks := x.tasks.map (Task.amid a)
  promises := x.promises
  effects := x.effects
  groups := x.groups
  futures := x.futures
  earlier := x.earlier
  batch := x.batch
  stopping := x.stopping
  notes := notes ++ x.notes
  control := x.control.amid a

/-- An ending put amid computations. -/
def Ending.amid (v : τ → σ) (notes : List Note) (a : List Nat) : Ending τ → Ending σ
  | .finished o x => .finished o (x.amid v notes a)
  | .deadlock x => .deadlock (x.amid v notes a)

variable {K : Host τ} {H : Host σ} (V : K.Surroundings H) (notes : List Note) (a : List Nat)
  {context : Value} {t : Nat} {goal : Goal}

section

variable (v : τ → σ) (x : State τ)

@[simp] theorem host_amid : (x.amid v notes a).host = v x.host := rfl

@[simp] theorem promises_amid : (x.amid v notes a).promises = x.promises := rfl

@[simp] theorem effects_amid : (x.amid v notes a).effects = x.effects := rfl

@[simp] theorem groups_amid : (x.amid v notes a).groups = x.groups := rfl

@[simp] theorem futures_amid : (x.amid v notes a).futures = x.futures := rfl

@[simp] theorem earlier_amid : (x.amid v notes a).earlier = x.earlier := rfl

@[simp] theorem outcome_amid (p : Nat) : (x.amid v notes a).outcome? p = x.outcome? p := rfl

@[simp] theorem getElem?_tasks_amid (k : Nat) :
    (x.amid v notes a).tasks[k]? = x.tasks[k]?.map (Task.amid a) := List.getElem?_map

theorem note_amid (n : Note) : (x.amid v notes a).note n = (x.note n).amid v notes a := by
  simp [State.note, State.amid, List.append_assoc]

end

/-! ## Another stack as a disguise -/

/-- Only the stack is another one. -/
def Disguise.stack (a : List Nat) : Disguise where
  journey := Journey.amid a
  captured := id
  report := id
  outcome _ := id
  record j o := by rcases j with ⟨active, _ | d, trace⟩ <;> rfl
  strained _ := rfl
  reported _ _ := rfl

theorem spares_stack (p : Nat) : (Disguise.stack a).Spares p := fun _ => rfl

theorem goal_disguised_stack (goal : Goal) : goal.disguised (Disguise.stack a) = goal.amid a := by
  cases goal <;> rfl

theorem phase_disguised_stack (phase : Phase) :
    phase.disguised (Disguise.stack a) = phase.amid a := by
  cases phase with
  | asleep goal k => exact congrArg (Phase.asleep · k) (goal_disguised_stack a goal)
  | blocked goal p => exact congrArg (Phase.blocked · p) (goal_disguised_stack a goal)
  | finished report => exact congrArg Phase.finished Option.map_id_apply
  | _ => rfl

theorem control_disguised_stack (c : Control) :
    c.disguised (Disguise.stack a) = c.amid a := by
  cases c with
  | perform t goal d => exact congrArg (Control.perform t · d) (goal_disguised_stack a goal)
  | outcome t goal o => exact congrArg (Control.outcome t · o) (goal_disguised_stack a goal)
  | _ => rfl

theorem disguised_stack (v : τ → σ) (x : State τ) :
    x.disguised (Disguise.stack a) v notes = x.amid v notes a := by
  have htask : Task.disguised (Disguise.stack a) = Task.amid a :=
    funext fun task => congrArg (Task.mk · task.promise) (phase_disguised_stack a task.phase)
  have hpromise : x.promises.mapIdx (Promise.disguised (Disguise.stack a)) = x.promises := by
    refine List.ext_getElem? fun p => ?_
    rw [List.getElem?_mapIdx]
    rcases x.promises[p]? with _ | ⟨_ | o, waiters⟩ <;> rfl
  unfold State.disguised State.amid
  rw [htask, hpromise, control_disguised_stack]

theorem ending_disguised_stack (v : τ → σ) :
    Ending.disguised (Disguise.stack a) v notes = Ending.amid v notes a := by
  funext r
  cases r with
  | finished o x => exact congrArg (Ending.finished o) (disguised_stack notes a v x)
  | deadlock x => exact congrArg Ending.deadlock (disguised_stack notes a v x)

theorem suits_stack (x : State τ) : (Disguise.stack a).Suits x :=
  ⟨fun p _ => spares_stack a p, fun _ p _ => spares_stack a p⟩

/-- Nothing that is read is on the stack. -/
theorem fits_stack (x : State τ) : (Disguise.stack a).Fits x where
  toSuits := suits_stack a x
  main _ _ _ _ := rfl
  others _ task _ _ := spares_stack a task.promise
  blocked _ _ _ p _ := spares_stack a p
  effects _ e _ := spares_stack a e.promise
  groups _ g _ := ⟨spares_stack a g.promise, fun m _ => spares_stack a m⟩
  ready _ _ p _ := spares_stack a p
  answers _ _ _ _ task _ := spares_stack a task.promise

variable (x : State τ)

theorem grantAll_amid :
    grantAll H (x.amid V.view notes a) = (grantAll K x).amid V.view notes a := by
  rw [← disguised_stack, ← disguised_stack]
  exact grantAll_disguised V notes (suits_stack a x)

theorem finish_amid (v : τ → σ) (k : Nat) (report : Option Report) (o : Outcome) :
    finish (x.amid v notes a) k report o = (finish x k report o).amid v notes a := by
  rw [← disguised_stack, ← disguised_stack]
  have hsame : ∀ task, x.tasks[k]? = some task →
      o = (Disguise.stack a).outcome task.promise o := fun _ _ => rfl
  have hfinish := finish_disguised notes v k report hsame
  rwa [show report.map (Disguise.stack a).report = report from Option.map_id_apply] at hfinish

variable (context) in
/-- **A step that resumes nothing and begins to drive nothing** does the same amid any
computations. -/
theorem step_amid (h : Lone x)
    (resumes : ∀ t j captured signal, x.control ≠ .deliver t j captured signal) :
    step H context (x.amid V.view notes a) =
      (step K context x).map (State.amid V.view notes a) (Ending.amid V.view notes a) := by
  rw [← disguised_stack, ← ending_disguised_stack,
    ← funext (disguised_stack notes a V.view)]
  exact step_disguised_of_quiet V notes context (fits_stack a x) h resumes

end EventLoop
end DescribedEffects
