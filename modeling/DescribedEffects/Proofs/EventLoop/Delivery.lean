import DescribedEffects.Proofs.Driving.Solo
import DescribedEffects.Proofs.EventLoop.Amid

/-!
# A stack of computations in the loop

The loop moves the stack of a driver as `Solo.step` does (`step_deliver`).  What it does on
its own behalf meanwhile does not depend on the stack: it grants the requests that are there
(`settled`), and when the stack comes to a pause it takes note of the item or of the end
(`paused`).
-/

namespace DescribedEffects
namespace EventLoop

variable {σ P W : Type}

/-! ## What the loop does meanwhile -/

/-- The loop with the requests of its host granted, about to do something else. -/
def settled (V : World W) (x : State (Site W)) (c : Control) : State (Site W) :=
  { grantAll V.still { x with control := .idle, notes := [] } with control := c }

@[simp] theorem control_settled (V : World W) (x : State (Site W)) (c : Control) :
    (settled V x c).control = c := rfl

@[simp] theorem tasks_settled (V : World W) (x : State (Site W)) (c : Control) :
    (settled V x c).tasks = x.tasks :=
  tasks_grantAll (H := V.still) { x with control := .idle, notes := [] }

@[simp] theorem notes_settled (V : World W) (x : State (Site W)) (c : Control) :
    (settled V x c).notes = [] :=
  notes_grantAll (H := V.still) { x with control := .idle, notes := [] }

/-- Requests that have been granted are gone. -/
theorem settled_settled (V : World W) (x : State (Site W)) (c c' : Control) :
    settled V (settled V x c) c' = settled V x c' := by
  let y := grantAll V.still { x with control := .idle, notes := [] }
  have hcontrol : y.control = .idle := control_grantAll _
  have hnotes : y.notes = [] := notes_grantAll _
  have hy : { settled V x c with control := .idle, notes := [] } = y := by
    show ({ y with control := .idle, notes := [] } : State (Site W)) = y
    rw [← hcontrol, ← hnotes]
  have hdrained : V.still.drain y.host = ([], y.host) := by
    have hhost : y.host = (V.still.drain x.host).2 := host_grantAll _
    rw [hhost]
    simp only [World.still, V.drain_drain]
  unfold settled at hy ⊢
  rw [hy, grantAll_of_nothing hdrained]

/-- The loop once an item has been yielded that is no computation. -/
def heard (x : State (Site W)) (reply : Reply) : State (Site W) :=
  { x with host := x.host.hear reply }

/-- What a pause of the driven computations means to the loop. -/
def paused (V : World W) (x : State (Site W)) (j : Journey) (captured : Bool) :
    Pause P → State (Site W)
  | .yielded item _ _ =>
    receive V.still (heard (settled V x .idle) (.yielded item)) 0 j captured item
  | .ended o _ => finishDrive (settled V x .idle) 0 j captured o

/-- Granting does not look at the counts of the site. -/
theorem grantAll_heard (V : World W) (x : State (Site W)) (reply : Reply) :
    grantAll V.still (heard x reply) = heard (grantAll V.still x) reply := by
  have hcomplete : ∀ (u : State (Site W)) (h : Site W) (p : Nat) (o : Outcome),
      State.complete { u with host := h } p o = { u.complete p o with host := h } := by
    intro u h p o
    unfold State.complete
    dsimp only
    split <;> rfl
  have hgrant : ∀ (u : State (Site W)) (h : Site W) (r : Request),
      grant { u with host := h } r = { grant u r with host := h } := by
    intro u h r
    cases r with
    | complete run i error value =>
      unfold grant State.claim
      dsimp only
      split
      · rcases u.effects[i]? with _ | ⟨d, _ | _, promise⟩ <;> rfl
      · rfl
    | callLater delay f args => rfl
    | future id o delay =>
      rcases o with _ | o
      · rfl
      · rcases delay with _ | n
        · exact hcomplete { u.newPromise.2 with futures := _ } h _ o
        · rfl
  have hall : ∀ (requests : List Request) (u : State (Site W)) (h : Site W),
      requests.foldl grant { u with host := h } = { requests.foldl grant u with host := h } := by
    intro requests
    induction requests with
    | nil => exact fun _ _ => rfl
    | cons r rest ih => exact fun u h => by rw [List.foldl_cons, hgrant, ih, List.foldl_cons]
  have hdrain : V.still.drain (x.host.hear reply) =
      ((V.still.drain x.host).1, (V.still.drain x.host).2.hear reply) := by
    cases reply with
    | yielded item =>
      simp only [World.still, Site.hear]
      split <;> rfl
    | _ => rfl
  have hhost : (grantAll V.still x).host = (V.still.drain x.host).2 := host_grantAll x
  have hgranted : grantAll V.still x = _ :=
    hall (V.still.drain x.host).1 x (V.still.drain x.host).2
  show (V.still.drain (x.host.hear reply)).1.foldl grant
      { x with host := (V.still.drain (x.host.hear reply)).2 } =
    { grantAll V.still x with host := (grantAll V.still x).host.hear reply }
  rw [hhost, hgranted, hdrain]
  exact hall (V.still.drain x.host).1 x _

/-! ## The stack in the loop -/

/-- The note of a resumption. -/
def signalNotes : Signal → List Note
  | .send _ => []
  | .throw e => [.throwing e]

/-- An item that is no computation is read as a descriptor. -/
theorem receive_of_plain {H : Host σ} (s : State σ) (t : Nat) (j : Journey) (captured : Bool)
    {item : Value} (h : item.isComputation = false) :
    receive H s t j captured item =
      match Descriptor.parse item with
      | .error m =>
        { s with
          host := (H.raise m.body s.host).2
          control := .deliver t j captured (.throw (H.raise m.body s.host).1) }
      | .ok d =>
        { s.note (.effect d) with
          control := .perform t (.drive { j with current := some d } captured) d } := by
  cases item with
  | computation g => cases h
  | _ => rfl

/-- Over a loop in which nothing is driven any stack may be put. -/
theorem amid_of_quiet {τ : Type} (v : τ → σ) (notes : List Note) (a b : List Nat) {y : State τ}
    (h : ∀ task ∈ y.tasks, task.phase.isQuiet = true) (hc : y.control.isQuiet = true) :
    y.amid v notes a = y.amid v notes b := by
  have hgoal : ∀ goal : Goal, goal.isQuiet = true → goal.amid a = goal.amid b := by
    intro goal hg
    cases goal with
    | drive j captured => cases hg
    | _ => rfl
  have htask : ∀ task ∈ y.tasks, Task.amid a task = Task.amid b task := by
    intro task ht
    have hquiet := h task ht
    rcases task with ⟨phase, promise⟩
    unfold Task.amid
    cases phase with
    | asleep goal k => simp only [Phase.amid, hgoal goal hquiet]
    | blocked goal p => simp only [Phase.amid, hgoal goal hquiet]
    | _ => rfl
  have hcontrol : y.control.amid a = y.control.amid b := by
    cases hy : y.control with
    | idle => rfl
    | perform t goal d => rw [hy] at hc; simp only [Control.amid, hgoal goal hc]
    | outcome t goal o => rw [hy] at hc; simp only [Control.amid, hgoal goal hc]
    | deliver t j captured signal => rw [hy] at hc; cases hc
  unfold State.amid
  rw [List.map_congr_left htask, hcontrol]

section

variable (C : Programs P) (V : World W) {context : Value} {x : State (Site W)} {p : P}
  {notes : List Note} {a : List Nat} {j : Journey} {captured : Bool} {signal : Signal}

/-- While the main task resumes a computation no task drives anything. -/
theorem Lone.quiet (h : Lone x) (hc : x.control = .deliver 0 j captured signal) :
    ∀ task ∈ x.tasks, task.phase.isQuiet = true := by
  intro task htask
  obtain ⟨k, hk⟩ := List.mem_iff_getElem?.1 htask
  rcases eq_or_ne k 0 with rfl | hne
  · have hrunning := h.running (by rw [hc]; rfl)
    rw [hk] at hrunning
    cases task
    cases hrunning
    rfl
  · exact h.others k task hk hne

/-- A computation is resumed, and what is asked for meanwhile is granted. -/
theorem resumed_amid (p' : P) (reply : Reply) :
    grantAll (C.host V)
        { noteSignal { x.amid (Prod.mk p) notes a with control := .idle } signal with
          host := (p', x.host.hear reply) } =
      (heard (settled V x .idle) reply).amid (Prod.mk p')
        (notes ++ x.notes ++ signalNotes signal) a := by
  let y : State (Site W) := { x with control := .idle, notes := [] }
  have hstate : { noteSignal { x.amid (Prod.mk p) notes a with control := .idle } signal with
      host := (p', x.host.hear reply) } =
      (heard y reply).amid (Prod.mk p') (notes ++ x.notes ++ signalNotes signal) a := by
    cases signal <;> simp [noteSignal, State.note, State.amid, signalNotes, Control.amid, heard, y]
  have hsettled : settled V x .idle = grantAll V.still y := by
    have hcontrol : (grantAll V.still y).control = .idle := control_grantAll y
    show ({ grantAll V.still y with control := .idle } : State (Site W)) = _
    rw [← hcontrol]
  rw [hstate, hsettled, ← grantAll_heard]
  exact grantAll_amid (C.around V p') _ a _

variable (notes j captured) in
/-- What is under the innermost computation gets what that one left. -/
theorem leave_amid (hx : ∀ task ∈ x.tasks, task.phase.isQuiet = true) (g : Nat)
    (rest : List Nat) (o : Outcome) :
    (Solo.leave p o rest).Leads
      (fun q => leave ((settled V x .idle).amid (Prod.mk p) notes (g :: rest)) 0
          (j.amid (g :: rest)) captured o =
        (settled V x (.deliver 0 j captured q.signal)).amid (Prod.mk q.programs) notes q.active)
      (fun pause => leave ((settled V x .idle).amid (Prod.mk p) notes (g :: rest)) 0
          (j.amid (g :: rest)) captured o =
        (paused V x j captured pause).amid (Prod.mk pause.programs) notes pause.active) := by
  have hany : ∀ b, (settled V x .idle).amid (Prod.mk p) notes (g :: rest) =
      (settled V x .idle).amid (Prod.mk p) notes b := by
    intro b
    exact amid_of_quiet _ notes (g :: rest) b (by rwa [tasks_settled]) rfl
  have hturn : ∀ b signal,
      { (settled V x .idle).amid (Prod.mk p) notes (g :: rest) with
        control := .deliver 0 (j.amid b) captured signal } =
      (settled V x (.deliver 0 j captured signal)).amid (Prod.mk p) notes b := by
    intro b signal
    rw [hany b]
    rfl
  have hfinish : ∀ o,
      finishDrive ((settled V x .idle).amid (Prod.mk p) notes (g :: rest)) 0
          (j.amid (g :: rest)) captured o =
        (paused V x j captured (.ended o p)).amid (Prod.mk p) notes [] := by
    intro o
    rw [hany []]
    exact finish_amid notes [] (settled V x .idle) (Prod.mk p) 0 _ _
  cases rest with
  | nil => exact hfinish o
  | cons h rest =>
    unfold leave Solo.leave
    cases o with
    | ok v => exact hturn (h :: rest) (.send v)
    | error e =>
      dsimp only [Journey.amid, List.tail_cons]
      by_cases ho : e.isOrdinary = true
      · rw [if_pos ho, if_pos ho]
        exact hturn (h :: rest) (.throw e)
      · rw [if_neg ho, if_neg ho]
        exact hfinish (.error e)

/-- An item that is no computation is taken note of. -/
theorem receive_amid (y : State (Site W)) {item : Value} (h : item.isComputation = false) :
    receive (C.host V) (y.amid (Prod.mk p) notes a) 0 (j.amid a) captured item =
      (receive V.still y 0 j captured item).amid (Prod.mk p) notes a := by
  rw [receive_of_plain _ _ _ _ h, receive_of_plain _ _ _ _ h]
  cases Descriptor.parse item with
  | error m =>
    have hraise := (C.around V p).raise m.body y.host
    simp only [Programs.view_around] at hraise
    simp only [host_amid, hraise, Prod.map_fst, Prod.map_snd, id_eq]
    rfl
  | ok d =>
    simp only [note_amid]
    rfl

/-- A computation that is yielded is put on top. -/
theorem receive_computation_amid (hx : ∀ task ∈ x.tasks, task.phase.isQuiet = true)
    (inner : Nat) :
    receive (C.host V) ((settled V x .idle).amid (Prod.mk p) notes a) 0 (j.amid a) captured
        (.computation inner) =
      (settled V x (.deliver 0 j captured (.send .null))).amid (Prod.mk p)
        (notes ++ [.nested (.computation inner)]) (inner :: a) := by
  have hany : (settled V x .idle).amid (Prod.mk p) notes a =
      (settled V x .idle).amid (Prod.mk p) notes (inner :: a) :=
    amid_of_quiet _ notes a (inner :: a) (by rwa [tasks_settled]) rfl
  rw [hany]
  simp only [receive, State.note, State.amid, Control.amid, Journey.amid, notes_settled,
    List.append_nil, control_settled]
  rfl

/-- What the innermost computation does when it is resumed in the loop. -/
theorem deliver_amid (g : Nat) (rest : List Nat) :
    deliver (C.host V) { x.amid (Prod.mk p) notes (g :: rest) with control := .idle } 0
        (j.amid (g :: rest)) captured signal =
      let resumed := (heard (settled V x .idle) (C.resume g signal p).1).amid
        (Prod.mk (C.resume g signal p).2) (notes ++ x.notes ++ signalNotes signal) (g :: rest)
      match Host.settle (C.resume g signal p).1 with
      | .yielded item => receive (C.host V) resumed 0 (j.amid (g :: rest)) captured item
      | .returned v => leave resumed 0 (j.amid (g :: rest)) captured (.ok v)
      | .raised e => leave resumed 0 (j.amid (g :: rest)) captured (.error e) := by
  have hhost : (noteSignal { x.amid (Prod.mk p) notes (g :: rest) with control := .idle }
      signal).host = (p, x.host) := by
    cases signal <;> rfl
  unfold deliver
  dsimp only [Journey.amid]
  rw [hhost]
  cases hreply : Host.settle (C.resume g signal p).1 <;>
    simp only [Programs.host_resume, resumed_amid, hreply]

variable (context notes) in
/-- **The loop moves the stack of its driver as the stack moves on its own**, and does the
same on its own behalf whatever the stack. -/
theorem step_deliver (h : Lone x) (hc : x.control = .deliver 0 j captured signal)
    (ha : a ≠ []) :
    (Solo.step C ⟨p, a, signal⟩).Leads
      (fun q => ∃ notes', step (C.host V) context (x.amid (Prod.mk p) notes a) =
        .next ((settled V x (.deliver 0 j captured q.signal)).amid (Prod.mk q.programs) notes'
          q.active))
      (fun pause => ∃ notes', step (C.host V) context (x.amid (Prod.mk p) notes a) =
        .next ((paused V x j captured pause).amid (Prod.mk pause.programs) notes'
          pause.active)) := by
  obtain ⟨g, rest, rfl⟩ := List.exists_cons_of_ne_nil ha
  have hstep : step (C.host V) context (x.amid (Prod.mk p) notes (g :: rest)) =
      .next (deliver (C.host V) { x.amid (Prod.mk p) notes (g :: rest) with control := .idle } 0
        (j.amid (g :: rest)) captured signal) := by
    have hcontrol : (x.amid (Prod.mk p) notes (g :: rest)).control =
        .deliver 0 (j.amid (g :: rest)) captured signal := by
      show x.control.amid _ = _
      rw [hc]
      rfl
    unfold step
    rw [hcontrol]
  rw [hstep, deliver_amid, Solo.step_cons]
  generalize C.resume g signal p = resumption
  obtain ⟨reply, p'⟩ := resumption
  have hleave := leave_amid V (p := p') (notes ++ x.notes ++ signalNotes signal) j captured
    (h.quiet hc) g rest
  -- Only an item that is no computation leaves a mark on the site.
  rcases reply with item | v | e
  · cases hitem : item.isComputation with
    | true =>
      cases item with
      | computation inner =>
        exact ⟨_, congrArg Transition.next (receive_computation_amid C V (h.quiet hc) inner)⟩
      | _ => cases hitem
    | false =>
      have hpause := Solo.react_of_plain p' g rest hitem
      dsimp only [Host.settle]
      rw [hpause]
      exact ⟨_, congrArg Transition.next (receive_amid C V _ hitem)⟩
  · exact (hleave (.ok v)).imp (fun _ hq => ⟨_, congrArg Transition.next hq⟩)
      fun _ hp => ⟨_, congrArg Transition.next hp⟩
  · by_cases he : e.isExhausted = true
    · have hsettle : Host.settle (.raised e) = .returned e.returned := if_pos he
      rw [hsettle]
      exact (hleave (.ok e.returned)).imp (fun _ hq => ⟨_, congrArg Transition.next hq⟩)
        fun _ hp => ⟨_, congrArg Transition.next hp⟩
    · have hsettle : Host.settle (.raised e) = .raised e := if_neg he
      rw [hsettle]
      exact (hleave (.error e)).imp (fun _ hq => ⟨_, congrArg Transition.next hq⟩)
        fun _ hp => ⟨_, congrArg Transition.next hp⟩

end

end EventLoop
end DescribedEffects
