import DescribedEffects.Proofs.Tracing

/-!
# A loop seen through its host

The loop knows of its host only what the answers tell.  So a run over one host, seen through a
view, is the same run over the host that is seen (`Arena.run_seen`).

This is the case of the disguises in which the books stay as they are (`Disguise.none`): they
change only what nobody reads, the notes that were made before and what is known of the host
beyond its answers.
-/

namespace DescribedEffects
namespace EventLoop

variable {σ τ : Type}

/-- A loop with its host seen in another way. -/
def State.seen (v : τ → σ) (x : State τ) : State σ := { x with host := v x.host }

/-- An ending with its host seen in another way. -/
def Ending.seen (v : τ → σ) : Ending τ → Ending σ
  | .finished o x => .finished o (x.seen v)
  | .deadlock x => .deadlock (x.seen v)

/-! ## The disguise that leaves all books as they are -/

/-- The disguise that leaves all books as they are. -/
def Disguise.none : Disguise where
  journey := id
  captured := id
  report := id
  outcome _ := id
  record _ _ := rfl
  strained _ := rfl
  reported j _ := by cases j; rfl

theorem goal_undisguised (goal : Goal) : goal.disguised .none = goal := by
  cases goal <;> rfl

theorem task_undisguised : Task.disguised .none = id := by
  funext task
  rcases task with ⟨phase, promise⟩
  cases phase with
  | asleep goal k => simp only [Task.disguised, Phase.disguised, goal_undisguised, id_eq]
  | blocked goal p => simp only [Task.disguised, Phase.disguised, goal_undisguised, id_eq]
  | finished report => cases report <;> rfl
  | _ => rfl

/-- In the disguise that leaves everything as it is a state differs by its host and by the notes
before its own. -/
theorem state_undisguised (v : τ → σ) (notes : List Note) (x : State τ) :
    x.disguised .none v notes = { x.seen v with notes := notes ++ x.notes } := by
  have hpromises : x.promises.mapIdx (Promise.disguised .none) = x.promises := by
    refine List.ext_getElem? fun p => ?_
    rw [List.getElem?_mapIdx]
    rcases x.promises[p]? with _ | ⟨_ | _, _⟩ <;> rfl
  have hcontrol : x.control.disguised .none = x.control := by
    cases x.control with
    | perform t goal d => simp only [Control.disguised, goal_undisguised]
    | outcome t goal o => simp only [Control.disguised, goal_undisguised]
    | _ => rfl
  unfold State.disguised
  rw [hpromises, hcontrol, task_undisguised, List.map_id]
  rfl

/-- The disguise leaves what is read as it is. -/
theorem fits_none (x : State τ) : Disguise.none.Fits x where
  made _ _ _ := rfl
  futures _ _ _ _ := rfl
  main _ _ _ _ := rfl
  others _ _ _ _ _ := rfl
  blocked _ _ _ _ _ _ := rfl
  effects _ _ _ _ := rfl
  groups _ _ _ := ⟨fun _ => rfl, fun _ _ _ => rfl⟩
  ready _ _ _ _ _ := rfl
  answers _ _ _ _ _ _ _ := rfl

/-! ## Steps and runs -/

variable {K : Host τ} {H : Host σ} (W : K.View H) (context : Value)

/-- A step with other notes before it and another view of the host is the same step. -/
theorem step_undisguised (notes : List Note) {x : State τ} (lone : Lone x) :
    step H context (x.disguised .none W.view notes) =
      (step K context x).map (State.disguised .none W.view notes)
        (Ending.disguised .none W.view notes) :=
  step_disguised (D := .none) notes context W ⟨fun _ => rfl, fun _ _ => rfl, fun _ _ => rfl⟩
    (fits_none x) lone

theorem disguised_eq_seen (v : τ → σ) : State.disguised .none v [] = State.seen v :=
  funext fun x => state_undisguised v [] x

theorem ending_disguised_eq_seen (v : τ → σ) : Ending.disguised .none v [] = Ending.seen v := by
  funext r
  cases r with
  | finished o x => exact congrArg (Ending.finished o) (state_undisguised v [] x)
  | deadlock x => exact congrArg Ending.deadlock (state_undisguised v [] x)

/-- A step of the loop sees its host only through the answers. -/
theorem step_seen {x : State τ} (lone : Lone x) :
    step H context (x.seen W.view) =
      (step K context x).map (State.seen W.view) (Ending.seen W.view) := by
  have hstep := step_undisguised W context [] lone
  rwa [ending_disguised_eq_seen, disguised_eq_seen] at hstep

theorem finishDrive_seen (v : τ → σ) (x : State τ) (t : Nat) (j : Journey) (captured : Bool)
    (o : Outcome) :
    finishDrive (x.seen v) t j captured o = (finishDrive x t j captured o).seen v := by
  have hfinish := finishDrive_disguised (D := .none) (x := x) [] v (k := t)
    (fun _ _ _ _ => rfl) j captured o
  rwa [disguised_eq_seen] at hfinish

theorem beginDrive_seen (x : State τ) (t : Nat) (program : Value) (trace : Option Trace)
    (captured : Bool) :
    beginDrive H (x.seen W.view) t program trace captured =
      (beginDrive K x t program trace captured).seen W.view := by
  unfold beginDrive
  split
  · rfl
  · let refused : State τ := { x with host := (K.raise (Host.notComputation program) x.host).2 }
    have hraise : H.raise (Host.notComputation program) (x.seen W.view).host =
        Prod.map id W.view (K.raise (Host.notComputation program) x.host) := W.raise _ x.host
    rw [hraise]
    exact finishDrive_seen W.view refused t ⟨[], none, trace⟩ captured _

end EventLoop

open EventLoop

variable {σ τ : Type} {K : Host τ} {H : Host σ} (W : K.View H)

/-- **A run over one host, seen through a view, is the run over the host that is seen.** -/
theorem Arena.run_seen (A : Arena) (program : Value) (trace : Option Trace) (captured : Bool)
    (host : τ) :
    A.run H (.drive program trace captured) (W.view host) =
      (A.run K (.drive program trace captured) host).map (Ending.seen W.view) := by
  let start : State τ := State.start host A.number A.earlier (.drive program trace captured)
  unfold Arena.run EventLoop.run
  match A.fuel with
  | 0 | 1 => rfl
  | n + 2 =>
    have hreach : Transition.Reaches (step K A.context) start
        (beginDrive K (atOutset host A.number A.earlier) 0 program trace captured) :=
      .head (t := { start with batch := 1 }) rfl (.head rfl (.refl _))
    have hbegin := beginDrive_seen W (atOutset host A.number A.earlier) 0 program trace captured
    rw [runFor_start, runFor_start]
    refine (congrArg (Transition.runFor (step H A.context) n) hbegin).trans ?_
    exact Transition.runFor_map_of_kept (P := Steady) (fun _ _ hs => hs.next)
      (fun _ hs => step_seen W A.context hs.lone) n
      (steady_of_reaches hreach (lone_beginDrive K host A.number A.earlier program trace captured))

/-- What is left of a run, with its host seen in another way. -/
def Finished.seen {α : Type} (v : τ → σ) (f : Finished τ α) : Finished σ α :=
  { f with host := v f.host }

/-- The end of a run is read off in the same way however its host is seen. -/
theorem conclude_seen {α : Type} {read : State τ → Value → α} {read' : State σ → Value → α}
    (v : τ → σ) (hread : ∀ x w, read' (x.seen v) w = read x w) (host : τ)
    (r : Option (Ending τ)) :
    conclude read' (v host) (r.map (Ending.seen v)) = (conclude read host r).seen v := by
  rcases r with _ | ⟨_ | w, x⟩ | x
  · rfl
  · rfl
  · simp only [Option.map_some, Ending.seen, conclude, hread]
    rfl
  · rfl

variable (A : Arena) (program : Value) (host : τ)

theorem Arena.drive_seen :
    A.drive H program (W.view host) = (A.drive K program host).seen W.view := by
  unfold Arena.drive
  rw [Arena.run_seen]
  exact conclude_seen W.view (fun _ _ => rfl) host _

theorem Interpreter.run_seen (I : Interpreter) :
    I.run A H program (W.view host) = (I.run A K program host).seen W.view := by
  unfold Interpreter.run
  rw [Arena.run_seen]
  exact conclude_seen W.view (fun _ _ => rfl) host _

end DescribedEffects
