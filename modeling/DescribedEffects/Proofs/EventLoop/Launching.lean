import DescribedEffects.Proofs.EventLoop.Calls
import DescribedEffects.Proofs.EventLoop.Enrolment
import DescribedEffects.Proofs.EventLoop.GroupOutcome

/-!
# Launching a group

When a group is made the first turns of its members are put into the queue next to each other,
behind what is there.  `Launching` is the state of the loop from then until all of them have
begun: a block of turns is left in the queue, the members whose turns they are have not begun,
and the effects of the others have been performed, up to that of the last (`Begun`).  What makes
the order certain is `busy`: once the first member has begun the loop is busy only with the one
that has begun last, and with nothing of what was queued before the group or is queued while
its members begin.

A member that has its outcome when its first turn is over has not suspended; `atOnce?` is that
outcome, and `beginnings` shows it with the member's place in the group.  `proceeds_of_step`
says what one step makes of a launch: nobody begins, or the next member does.
-/

namespace DescribedEffects

/-- The next state, if there is one. -/
def Transition.next? {S R : Type} : Transition S R → Option S
  | .next s => some s
  | .done _ => none

namespace EventLoop

variable {σ : Type} {H : Host σ} {context : Value} {t k : Nat} {claims completes : Nat → Prop}
  {a s u : State σ} {g : Place} {items : List Value} {goal : Goal} {ds : List (Nat × Outcome)}

/-! ## Members whose effect has been performed -/

/-- The effect of a task has been performed: the task waits for the outcome, or has it, or has
ended. -/
inductive Past (k : Nat) (s : State σ) : Prop
  | engaged (h : Engaged k .answer s)
  | retired (h : Retired k s)

theorem past_of_step (hk : k < s.tasks.length) (hs : Past k s)
    (h : step H context s = .next u) : Past k u := by
  cases hs with
  | engaged hengaged =>
    cases hengaged with
    | waiting phase phase_eq goal elsewhere =>
      exact .engaged (engaged_of_step phase_eq goal elsewhere h)
    | answered o control =>
      have hu : finish s.toIdle k none o = u := by
        simp only [step, control] at h
        exact Transition.next.inj h
      exact .retired (hu ▸ retired_finish (s := s.toIdle) hk none o)
  | retired hretired => exact .retired (retired_of_step hretired h)

/-- The loop can be busy with such a task only to hand it the outcome. -/
theorem Past.busy (hs : Past k s) (hk : s.control.task? = some k) :
    ∃ o, s.control = .outcome k .answer o := by
  cases hs with
  | engaged h =>
    cases h with
    | waiting _ _ _ elsewhere => exact absurd hk elsewhere
    | answered o control => exact ⟨o, control⟩
  | retired h => exact absurd hk h.elsewhere

theorem Past.not_performs (hs : Past k s) (goal : Goal) (d : Descriptor) :
    s.control ≠ .perform k goal d := by
  intro hc
  obtain ⟨o, ho⟩ := hs.busy (by rw [hc]; rfl)
  rw [hc] at ho
  cases ho

/-- The task has not had its first turn. -/
def State.isFresh (s : State σ) (k : Nat) : Bool :=
  match s.tasks[k]?.map Task.phase with
  | some (.fresh _) => true
  | _ => false

theorem Past.not_fresh (hs : Past k s) (hidle : s.control = .idle) : s.isFresh k = false := by
  unfold State.isFresh
  cases hs with
  | engaged h =>
    cases h with
    | waiting phase phase_eq for_ _ =>
      rw [phase_eq]
      cases phase with
      | fresh errand => cases for_
      | _ => rfl
    | answered o control => rw [hidle] at control; cases control
  | retired h =>
    obtain ⟨report, hphase⟩ := h.finished
    rw [hphase]

/-- The first members have begun.  Only the last of them may be about to perform its effect. -/
def Begun (g : Place) (k : Nat) (s : State σ) : Prop :=
  ∀ i < k, Past (g.task i) s ∨ i + 1 = k ∧ ∃ d, s.control = .perform (g.task i) .answer d

/-- After one more step the effects of all of them have been performed. -/
theorem Begun.past (hs : Begun g k s) (there : ∀ i < k, g.task i < s.tasks.length)
    (h : step H context s = .next u) : ∀ i < k, Past (g.task i) u := by
  intro i hi
  rcases hs i hi with hpast | ⟨-, d, hperforms⟩
  · exact past_of_step (there i hi) hpast h
  · exact .engaged (engaged_of_perform (there i hi) hperforms h)

/-! ## The turns in which members begin -/

/-- The task whose turn is next. -/
def State.turn? (s : State σ) : Option Nat :=
  match s.control, s.batch, s.ready with
  | .idle, _ + 1, .step k :: _ => some k
  | _, _, _ => none

/-- The outcome that has reached a task. -/
def State.arrived? (s : State σ) (k : Nat) : Option Outcome :=
  match s.control with
  | .outcome i .answer o => if i = k then some o else none
  | _ => none

/-- The outcome that a task has in the turn that is next, if it is there when the turn is over:
the task does not suspend. -/
def atOnce? (H : Host σ) (context : Value) (k : Nat) (s : State σ) : Option Outcome :=
  (step H context s).next?.bind fun u =>
    match u.control with
    | .perform .. => (step H context u).next?.bind (·.arrived? k)
    | _ => u.arrived? k

/-- The member that begins in the turn that is next, with the outcome that it has at once. -/
def beginnings (H : Host σ) (context : Value) (g : Place) (s : State σ) :
    List (Nat × Option Outcome) :=
  match s.turn? with
  | some k =>
    if g.first ≤ k ∧ k < g.first + g.size ∧ s.isFresh k = true then
      [(k - g.first, atOnce? H context k s)]
    else []
  | none => []

theorem beginnings_of_busy (h : s.control ≠ .idle) : beginnings H context g s = [] := by
  have hnone : s.turn? = none := by
    unfold State.turn?
    cases hc : s.control with
    | idle => exact absurd hc h
    | _ => rfl
  simp only [beginnings, hnone]

/-- Nobody begins in a turn of somebody else. -/
theorem beginnings_of_turn
    (h : ∀ k, s.turn? = some k → g.first ≤ k → k < g.first + g.size → s.isFresh k = false) :
    beginnings H context g s = [] := by
  unfold beginnings
  split
  · next k hk =>
    refine if_neg fun hin => ?_
    rw [h k hk hin.1 hin.2.1] at hin
    cases hin.2.2
  · rfl

theorem turn?_eq_some {k : Nat} (h : s.turn? = some k) :
    s.control = .idle ∧ ∃ n rest, s.batch = n + 1 ∧ s.ready = .step k :: rest := by
  unfold State.turn? at h
  split at h
  · next n k' rest hidle hb hr =>
    cases h
    exact ⟨hidle, n, rest, hb, hr⟩
  · cases h

/-- When all members have begun nobody begins. -/
theorem beginnings_of_begun (hs : Begun g g.size s) : beginnings H context g s = [] := by
  refine beginnings_of_turn fun k hk hfirst hlast => ?_
  obtain ⟨hidle, -⟩ := turn?_eq_some hk
  have htask : g.task (k - g.first) = k := by
    unfold Place.task
    omega
  rcases hs (k - g.first) (by omega) with hpast | ⟨-, d, hc⟩
  · exact (htask ▸ hpast).not_fresh hidle
  · rw [hidle] at hc
    cases hc

/-! ## The launch -/

/-- The first turns of the members from a certain one on. -/
def Place.turns (g : Place) (k : Nat) : List Job :=
  (List.range' k (g.size - k)).map fun i => .step (g.task i)

theorem Place.turns_cons (h : k < g.size) : g.turns k = .step (g.task k) :: g.turns (k + 1) := by
  have hsize : g.size - k = g.size - (k + 1) + 1 := by omega
  simp only [Place.turns, hsize, List.range'_succ, List.map_cons]

/-- A group of which some members have begun, the first ones.  The first turns of the others
are in the queue, in order; what is before them was there before the group was made, and is
gone when the first member begins. -/
structure Launching (g : Place) (items : List Value) (k : Nat) (s : State σ) : Prop where
  queue : ∃ before after, s.ready = before ++ g.turns k ++ after ∧
    (∀ i, .step i ∈ before → i < g.first) ∧ (∀ j ∈ before, j.ticket? g.group = none) ∧
    (0 < k → before = [])
  fresh : ∀ i item, k ≤ i → items[i]? = some item →
    s.tasks[g.task i]?.map Task.phase = some (.fresh (.perform item))
  busy : ∀ j, s.control.task? = some j → j < g.first ∧ k = 0 ∨ j + 1 = g.task k
  begun : Begun g k s
  opened : s.outcome? g.promise = none

/-- What a step makes of a launch. -/
inductive Proceeds (H : Host σ) (context : Value) (g : Place) (items : List Value) (k : Nat)
    (s u : State σ) : Prop
  /-- Nobody begins.  An outcome reaches a member only if it was about to perform its effect. -/
  | stays (launching : Launching g items k u) (past : ∀ i < k, Past (g.task i) u)
      (quiet : beginnings H context g s = [])
      (arrives : completions g u = [] ∨
        ∃ i d, i + 1 = k ∧ s.control = .perform (g.task i) .answer d)
  | begins (item : Value) (present : items[k]? = some item)
      (launching : Launching g items (k + 1) u)
      (idle : s.control = .idle)
      (turn : beginnings H context g s = [(k, atOnce? H context (g.task k) s)])
      (how : (∃ m e, Descriptor.parse item = .error m ∧
          u.control = .outcome (g.task k) .answer (.error e)) ∨
        ∃ d, Descriptor.parse item = .ok d ∧ u.control = .perform (g.task k) .answer d)

/-- To begin to perform an item is to refuse it or to read it. -/
theorem begin_perform (H : Host σ) (s : State σ) (t : Nat) (item : Value) :
    let u := begin H s t (.perform item)
    u.ready = s.ready ∧ u.tasks = s.tasks ∧ u.promises = s.promises ∧
      ((∃ m e, Descriptor.parse item = .error m ∧ u.control = .outcome t .answer (.error e)) ∨
        ∃ d, Descriptor.parse item = .ok d ∧ u.control = .perform t .answer d) := by
  cases hparse : Descriptor.parse item with
  | error m => simp [begin, hparse, arriveWith, State.arrive]
  | ok d => simp [begin, hparse]

/-- A group that is not noticing a member stays open. -/
theorem opened_of_turn (manned : Manned H context a items g s)
    (opened : s.outcome? g.promise = none) (h : Turn H g s u)
    (quiet : ∀ rest m, s.control = .idle → s.ready ≠ .notice g.group m :: rest) :
    u.outcome? g.promise = none := by
  cases h with
  | apart crew apart _ => exact apart.whole.trans opened
  | completes i hi o control state =>
    rw [state, finish_member manned hi control]
    simp only [State.outcome?, List.getElem?_set_ne (g.member_ne i)]
    exact opened
  | notices n rest m idle batch ready state => exact absurd ready (quiet rest m idle)

/-- A step on behalf of a task, while members are still to begin. -/
theorem proceeds_of_task {j : Nat} (sound : Sound s) (addressed : Addressed s)
    (manned : Manned H context a items g s) (hs : Launching g items k s) (hk : k < g.size)
    (htask : s.control.task? = some j) (h : step H context s = .next u) :
    Proceeds H context g items k s u := by
  have hbusy : s.control ≠ .idle := fun hidle => by rw [hidle] at htask; cases htask
  obtain ⟨v, hv, hchanges⟩ := freeChanges_step H context s htask
  obtain rfl : v = u := Transition.next.inj (hv.symm.trans h)
  have honward := onward_of_changes hchanges
  have hsame : ∀ j', v.control.task? = some j' → j' = j :=
    control_of_changes hchanges fun _ h => by cases h
  have there : ∀ i < g.size, g.task i < s.tasks.length := fun i hi => manned.task_lt hi
  have past := hs.begun.past (fun i hi => there i (hi.trans hk)) h
  refine .stays ⟨?_, fun i item hi hitem => ?_, fun j' hj' => hs.busy j' ?_,
    fun i hi => .inl (past i hi), ?_⟩ past (beginnings_of_busy hbusy) ?_
  · obtain ⟨before, after, hr, hrest⟩ := hs.queue
    obtain ⟨more, hmore⟩ := honward.ready
    refine ⟨before, after ++ more, ?_, hrest⟩
    rw [← hmore, ← List.append_assoc, ← hr]
    rfl
  · have hi' : i < g.size := manned.size ▸ (List.getElem?_eq_some_iff.1 hitem).1
    have hne : j ≠ g.task i := by
      rcases hs.busy j htask with ⟨hj, -⟩ | hj
      · exact Nat.ne_of_lt (Nat.lt_of_lt_of_le hj (Nat.le_add_right ..))
      · have hle : g.task k ≤ g.task i := Nat.add_le_add_left hi _
        omega
    rw [getElem?_tasks_of_changes hchanges (there i hi') hne]
    exact hs.fresh i item hi hitem
  · rw [htask, hsame j' hj']
  · exact opened_of_turn manned hs.opened (turn_of_step sound addressed manned h)
      fun _ _ hidle => absurd hidle hbusy
  · by_cases hperforms : ∃ i d, i + 1 = k ∧ s.control = .perform (g.task i) .answer d
    · exact .inr hperforms
    · refine .inl (completions_of_quiet fun i hi o ho => ?_)
      obtain rfl : g.task i = j := hsame _ (by rw [ho]; rfl)
      have hik : i + 1 = k := by
        rcases hs.busy _ htask with ⟨hlt, -⟩ | heq
        · exact absurd hlt (Nat.not_lt.2 (Nat.le_add_right ..))
        · unfold Place.task at heq
          omega
      rcases hs.begun i (by omega) with hpast | ⟨-, d, hd⟩
      · -- The member has its outcome already, and ends.
        obtain ⟨x, hx⟩ := hpast.busy htask
        have hu : finish s.toIdle (g.task i) none x = v := by
          simp only [step, hx] at h
          exact Transition.next.inj h
        have hidle := (tasks_finish s.toIdle (g.task i) none x).2
        rw [hu, ho] at hidle
        cases hidle
      · exact hperforms ⟨i, d, hik, hd⟩

/-- The next member begins. -/
theorem proceeds_of_first (manned : Manned H context a items g s) (hs : Launching g items k s)
    (hk : k < g.size) (past : ∀ i < k, Past (g.task i) u) {n : Nat} {rest after : List Job}
    (hidle : s.control = .idle) (hb : s.batch = n + 1) (hr : s.ready = .step (g.task k) :: rest)
    (hrest : rest = g.turns (k + 1) ++ after)
    (hu : u = runJob H { s with ready := rest, batch := n } (.step (g.task k))) :
    Proceeds H context g items k s u := by
  obtain ⟨item, hitem⟩ : ∃ item, items[k]? = some item :=
    ⟨_, List.getElem?_eq_getElem (manned.size.symm ▸ hk)⟩
  have hphase := hs.fresh k item (Nat.le_refl k) hitem
  let popped : State σ := { s with ready := rest, batch := n }
  have hbegin : u = begin H (popped.setPhase (g.task k) .running) (g.task k) (.perform item) := by
    have hphase' : popped.tasks[g.task k]?.map Task.phase = some (.fresh (.perform item)) := hphase
    rw [hu]
    simp only [runJob, stepTask, popped] at hphase' ⊢
    rw [hphase']
  obtain ⟨hready, htasks, hpromises, how⟩ :=
    begin_perform H (popped.setPhase (g.task k) .running) (g.task k) item
  rw [← hbegin] at hready htasks hpromises how
  have hreadyu : u.ready = rest := by
    rw [hready]
    rw [State.setPhase_frame]
  rw [tasks_setPhase] at htasks
  rw [promises_setPhase] at hpromises
  have hbusy : u.control.task? = some (g.task k) := by
    rcases how with ⟨_, _, -, hc⟩ | ⟨_, -, hc⟩ <;> rw [hc] <;> rfl
  refine .begins item hitem ⟨⟨[], after, ?_, fun i h => (by cases h), fun j h => (by cases h),
    fun _ => rfl⟩, fun i y hi hy => ?_, fun j hj => ?_, fun i hi => ?_, ?_⟩ hidle ?_ how
  · rw [hreadyu, hrest]
    rfl
  · have hne : g.task k ≠ g.task i := by
      unfold Place.task
      omega
    rw [htasks, getElem?_moved_of_ne _ hne]
    exact hs.fresh i y (by omega) hy
  · rw [hbusy] at hj
    cases hj
    exact .inr rfl
  · rcases Nat.lt_succ_iff_lt_or_eq.1 hi with hi | rfl
    · exact .inl (past i hi)
    · rcases how with ⟨m, e, -, hc⟩ | ⟨d, -, hc⟩
      · exact .inl (.engaged (.answered _ hc))
      · exact .inr ⟨rfl, d, hc⟩
  · simp only [State.outcome?, hpromises]
    exact hs.opened
  · have hturn : s.turn? = some (g.task k) := by simp only [State.turn?, hidle, hb, hr]
    have hfresh : s.isFresh (g.task k) = true := by simp only [State.isFresh, hphase]
    have hin : g.first ≤ g.task k ∧ g.task k < g.first + g.size ∧ s.isFresh (g.task k) = true :=
      ⟨Nat.le_add_right .., Nat.add_lt_add_left hk _, hfresh⟩
    have hsub : g.task k - g.first = k := Nat.add_sub_cancel_left ..
    simp only [beginnings, hturn, if_pos hin, hsub]

/-- A job that was there before the group was made. -/
theorem proceeds_of_earlier (sound : Sound s) (addressed : Addressed s)
    (manned : Manned H context a items g s) (hs : Launching g items 0 s)
    (hidle : s.control = .idle) {n : Nat} {j : Job} {rest before after : List Job}
    (hb : s.batch = n + 1) (hr : s.ready = j :: rest) (hrest : rest = before ++ g.turns 0 ++ after)
    (hturns : ∀ i, .step i ∈ j :: before → i < g.first)
    (htickets : ∀ i ∈ j :: before, i.ticket? g.group = none)
    (hu : u = runJob H { s with ready := rest, batch := n } j) :
    Proceeds H context g items 0 s u := by
  have h : step H context s = .next u := hu ▸ step_of_batch H context hidle hb hr
  let popped : State σ := { s with ready := rest, batch := n }
  have hcontrol : ∀ i, u.control.task? = some i → i < g.first := by
    intro i hi
    by_cases hstep : ∃ l, j = .step l
    · obtain ⟨l, rfl⟩ := hstep
      have hchanges : FreeChanges H l popped u :=
        hu ▸ changes_runJob popped (fun _ h => (Job.step.inj h).symm) (by simp) fun _ _ => trivial
      obtain rfl := control_of_changes hchanges (fun m hm => by
        rw [show popped.control = s.control from rfl, hidle] at hm
        cases hm) i hi
      exact hturns i (List.mem_cons_self ..)
    · obtain ⟨-, hc⟩ := tasks_runJob (H := H) popped fun l hl => hstep ⟨l, hl⟩
      rw [hu, hc, show popped.control = s.control from rfl, hidle] at hi
      cases hi
  refine .stays ⟨?_, fun i item hi hitem => ?_, fun i hi => .inl ⟨hcontrol i hi, rfl⟩,
    fun i hi => absurd hi (Nat.not_lt_zero i), ?_⟩ (fun i hi => absurd hi (Nat.not_lt_zero i)) ?_ ?_
  · obtain ⟨more, hmore⟩ := ready_runJob H popped j
    refine ⟨before, after ++ more, ?_, fun i hi => hturns i (List.mem_cons_of_mem j hi),
      fun i hi => htickets i (List.mem_cons_of_mem j hi), fun h => absurd h (Nat.lt_irrefl 0)⟩
    rw [hu, ← hmore, ← List.append_assoc, ← hrest]
  · have hi' : i < g.size := manned.size ▸ (List.getElem?_eq_some_iff.1 hitem).1
    have helsewhere : s.control.task? ≠ some (g.task i) := by
      rw [hidle]
      exact fun h => by cases h
    rcases elsewhere_of_step (manned.task_lt hi') helsewhere h with
      ⟨htasks, -⟩ | ⟨m, later, -, -, hr', -⟩
    · rw [htasks]
      exact hs.fresh i item hi hitem
    · obtain rfl : j = .step (g.task i) := (List.cons.inj (hr.symm.trans hr')).1
      exact absurd (hturns _ (List.mem_cons_self ..)) (Nat.not_lt.2 (Nat.le_add_right ..))
  · refine opened_of_turn manned hs.opened (turn_of_step sound addressed manned h)
      fun later m _ hr' => ?_
    obtain rfl : j = .notice g.group m := (List.cons.inj (hr.symm.trans hr')).1
    have hnone := htickets _ (List.mem_cons_self ..)
    simp [Job.ticket?] at hnone
  · refine beginnings_of_turn fun l hl hfirst _ => ?_
    obtain ⟨-, _, later, -, hr'⟩ := turn?_eq_some hl
    obtain rfl : j = .step l := (List.cons.inj (hr.symm.trans hr')).1
    exact absurd (hturns l (List.mem_cons_self ..)) (Nat.not_lt.2 hfirst)
  · refine .inl (completions_of_quiet fun i _ o ho => ?_)
    exact absurd (hcontrol _ (by rw [ho]; rfl)) (Nat.not_lt.2 (Nat.le_add_right ..))

/-- **What a step makes of a launch.**  The members begin one after the other, in order, and
once the first has begun nothing else happens until all of them have. -/
theorem proceeds_of_step (sound : Sound s) (addressed : Addressed s)
    (manned : Manned H context a items g s) (hs : Launching g items k s) (hk : k < g.size)
    (h : step H context s = .next u) : Proceeds H context g items k s u := by
  cases htask : s.control.task? with
  | some j => exact proceeds_of_task sound addressed manned hs hk htask h
  | none =>
    have hidle : s.control = .idle := Control.eq_idle htask
    have past := hs.begun.past (fun i hi => manned.task_lt (hi.trans hk)) h
    obtain ⟨before, after, hqueue, hturns, htickets, hnone⟩ := hs.queue
    have hready : s.ready ≠ [] := by
      rw [hqueue, Place.turns_cons hk]
      simp
    cases hb : s.batch with
    | zero =>
      cases hstop : s.stopping with
      | true =>
        obtain ⟨r, hr⟩ := step_of_stopping H context hidle hb hstop
        rw [hr] at h
        cases h
      | false =>
        rw [step_of_queue H context hidle hb hstop hready] at h
        obtain rfl := Transition.next.inj h
        refine .stays ⟨hs.queue, hs.fresh, hs.busy, fun i hi => .inl (past i hi), hs.opened⟩ past
          (beginnings_of_turn fun l hl => ?_) (.inl (completions_of_quiet fun i _ o ho => ?_))
        · obtain ⟨-, n, rest, hb', -⟩ := turn?_eq_some hl
          rw [hb] at hb'
          cases hb'
        · exact absurd (hidle.symm.trans ho) Control.noConfusion
    | succ n =>
      obtain ⟨j, rest, hr⟩ := List.exists_cons_of_ne_nil hready
      rw [step_of_batch H context hidle hb hr] at h
      have hu := (Transition.next.inj h).symm
      cases before with
      | nil =>
        rw [hr, Place.turns_cons hk] at hqueue
        obtain ⟨rfl, hrest⟩ := List.cons.inj hqueue
        exact proceeds_of_first manned hs hk past hidle hb hr hrest hu
      | cons first before =>
        obtain rfl : k = 0 := by
          by_contra hne
          cases hnone (Nat.pos_of_ne_zero hne)
        rw [hr] at hqueue
        obtain ⟨rfl, hrest⟩ := List.cons.inj hqueue
        exact proceeds_of_earlier sound addressed manned hs hidle hb hr hrest hturns htickets hu

/-! ## How it begins -/

/-- A task begins to wait for an open promise. -/
theorem block_of_open (t : Nat) (goal : Goal) {p : Nat} (hopen : s.outcome? p = none) :
    let u := block s t goal p
    u.ready = s.ready ∧ u.tasks = moved s.tasks t (.blocked goal p) ∧ u.control = .idle ∧
      ∀ q, u.outcome? q = s.outcome? q := by
  have hready : ((s.subscribe p (.step t)).setPhase t (.blocked goal p)).ready = s.ready := by
    rw [State.setPhase_frame, State.subscribe_frame]
  have htasks : ((s.subscribe p (.step t)).setPhase t (.blocked goal p)).tasks =
      moved s.tasks t (.blocked goal p) := by
    rw [tasks_setPhase, tasks_subscribe]
  simp only [block, hopen]
  refine ⟨hready, htasks, rfl, fun q => ?_⟩
  refine Eq.trans ?_ (outcome_subscribe s p (.step t) q)
  simp only [State.outcome?, State.toIdle, promises_setPhase]

variable {host : σ} {number : Nat} {earlier : List (Nat × Outcome)} {errand : Errand}
  {d : Descriptor}

/-- **A group has been made and nobody has begun.** -/
theorem launching_of_perform
    (reached : Transition.Reaches (step H context) (State.start host number earlier errand) a)
    (performs : a.control = .perform t goal d) (mode : d.mode = .parallel)
    (nonempty : d.args ≠ []) (h : step H context a = .next u) :
    Launching (Place.next a d.args.length) d.args 0 u := by
  have enrolled : Enrolled a := enrolled_of_reaches reached
  have addressed : Addressed a := addressed_of_reaches reached
  have ht : t < a.tasks.length :=
    placed_of_reaches reached (fun k hk => by cases hk) t (by rw [performs]; rfl)
  let noted := a.toIdle.note (.dispatching d.args.length)
  let errands := d.args.map Errand.perform
  have hlength : errands.length = d.args.length := List.length_map ..
  rw [step_of_parallel H context performs mode, gather_eq _ t goal (by simpa using nonempty)] at h
  have hpromise := promise_staffed noted errands
  have hopen : (noted.staffed errands).outcome? noted.promises.length = none := by
    simp only [State.outcome?, hpromise]
    rfl
  obtain ⟨hready, htasks, hcontrol, houtcome⟩ := block_of_open t goal hopen
  rw [Transition.next.inj h] at hready htasks hcontrol houtcome
  refine ⟨⟨a.ready, [], ?_, fun i hi => enrolled i (mem_jobs.2 (.inl hi)),
    fun j hj => addressed.ready j hj _ (Nat.le_refl _), fun h => absurd h (Nat.lt_irrefl 0)⟩,
    fun i item _ hitem => ?_, fun j hj => ?_, fun i hi => absurd hi (Nat.not_lt_zero i),
    (houtcome _).trans hopen⟩
  · rw [hready, List.append_nil, Place.turns, ← hlength]
    simp only [State.staffed, Place.next, List.range_eq_range', Nat.sub_zero]
    rfl
  · have herrand : errands[i]? = some (.perform item) := by simp [errands, hitem]
    have hfresh := task_staffed noted herrand
    rw [hlength] at hfresh
    have hne : t ≠ (Place.next noted d.args.length).task i :=
      Nat.ne_of_lt (Nat.lt_of_lt_of_le ht (Nat.le_add_right ..))
    have hmoved := getElem?_moved_of_ne (noted.staffed errands).tasks hne
      (.blocked goal noted.promises.length)
    rw [htasks]
    exact (congrArg (Option.map Task.phase) (hmoved.trans hfresh)).trans rfl
  · rw [hcontrol] at hj
    cases hj

end EventLoop
end DescribedEffects
