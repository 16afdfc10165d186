import DescribedEffects.Proofs.EventLoop.FirstCompletion
import DescribedEffects.Proofs.EventLoop.Groups
import DescribedEffects.Proofs.EventLoop.Turns

/-!
# The members of a group at work

The task of a member is told one item.  It waits for its turn; then the item is refused, or
read as a descriptor whose effect it performs; and when the outcome is there the task ends.
`Station` says where it is, and remembers where it began to perform the effect: what becomes of
that effect is a question about `resolve` from there.

`Manned` is a group all of whose members are at some station.  A step of the loop then comes to
one of three things for the group (`turn_of_step`).  It leaves the group alone, or a member is
complete, or the group notices one that is.
-/

namespace DescribedEffects
namespace EventLoop

variable {σ : Type} {H : Host σ} {context : Value} {t k : Nat} {claims completes : Nat → Prop}
  {a s u : State σ} {item : Value} {g : Place}

/-! ## One member -/

/-- A task has ended, and the loop is no longer busy with it. -/
structure Retired (k : Nat) (s : State σ) : Prop where
  finished : ∃ report, s.tasks[k]?.map Task.phase = some (.finished report)
  elsewhere : s.control.task? ≠ some k

theorem retired_of_step (hs : Retired k s) (h : step H context s = .next u) : Retired k u := by
  obtain ⟨report, hphase⟩ := hs.finished
  obtain ⟨task, htask, -⟩ := Option.map_eq_some_iff.1 hphase
  have hlt := (List.getElem?_eq_some_iff.1 htask).1
  rcases elsewhere_of_step hlt hs.elsewhere h with
    ⟨htasks, hcontrol⟩ | ⟨n, rest, hidle, -, -, rfl⟩
  · exact ⟨⟨report, by rw [htasks, hphase]⟩, hcontrol⟩
  · have hstay : stepTask H { s with ready := rest, batch := n } k =
        { s with ready := rest, batch := n } := by
      simp only [stepTask, hphase]
    rw [hstay]
    exact ⟨⟨report, hphase⟩, hs.elsewhere⟩

theorem retired_finish (hk : k < s.tasks.length) (report : Option Report) (o : Outcome) :
    Retired k (finish s k report o) := by
  obtain ⟨htasks, hcontrol⟩ := tasks_finish s k report o
  refine ⟨⟨report, ?_⟩, fun h => by rw [hcontrol] at h; cases h⟩
  rw [htasks, phase_moved_self hk]

/-- What has become of a task that was told to perform an item, since the state in which it
was made. -/
inductive Station (H : Host σ) (context : Value) (a : State σ) (k : Nat) (item : Value)
    (s : State σ) : Prop
  | fresh (phase : s.tasks[k]?.map Task.phase = some (.fresh (.perform item)))
      (elsewhere : s.control.task? ≠ some k)
  | refused (m : Malformed) (e : Exn) (parse : Descriptor.parse item = .error m)
      (body : e.body = m.body) (control : s.control = .outcome k .answer (.error e))
  | performing (d : Descriptor) (b : State σ) (parse : Descriptor.parse item = .ok d)
      (after : Transition.Reaches (step H context) a b)
      (performs : b.control = .perform k .answer d)
      (way : Transition.Reaches (resolve H context k) b s)
      (stands : s = b ∨ Engaged k .answer s)
  | retired (h : Retired k s)

/-- Until the outcome is there the way to it is the way of the loop. -/
theorem resolve_of_next (h : ∀ goal o, s.control ≠ .outcome k goal o)
    (hstep : step H context s = .next u) : resolve H context k s = .next u := by
  unfold resolve
  rw [hstep]
  split
  · next i goal o hc =>
    have hne : i ≠ k := fun hik => h goal o (hik ▸ hc)
    rw [if_neg hne]
    rfl
  · rfl

/-- The way to an outcome is a way of the loop. -/
theorem reaches_of_resolve (h : Transition.Reaches (resolve H context k) s u) :
    Transition.Reaches (step H context) s u := by
  induction h with
  | refl s => exact .refl s
  | @head s v u first _ ih =>
    refine .head (t := v) ?_ ih
    have hmap : (step H context s).map id Fate.over = .next v → step H context s = .next v := by
      cases step H context s with
      | next w => exact fun h => congrArg Transition.next (Transition.next.inj h)
      | done r => exact fun h => by cases h
    unfold resolve at first
    split at first
    · split at first
      · cases first
      · exact hmap first
    · exact hmap first

/-- The state in which an outcome reaches the task. -/
theorem eq_of_answered {goal : Goal} {o : Outcome}
    (h : resolve H context t s = .done (.answered goal o u)) :
    s = u ∧ u.control = .outcome t goal o := by
  have hover : (step H context s).map id Fate.over ≠ .done (.answered goal o u) := by
    cases step H context s <;> rintro ⟨⟩
  unfold resolve at h
  split at h
  · next i goal' o' hc =>
    split at h
    · next hi =>
      cases h
      exact ⟨rfl, hi ▸ hc⟩
    · exact absurd h hover
  · exact absurd h hover

/-- **What a step makes of a member.** -/
theorem station_of_step (hk : k < s.tasks.length)
    (reached : Transition.Reaches (step H context) a s) (hs : Station H context a k item s)
    (h : step H context s = .next u) : Station H context a k item u := by
  have hends : ∀ o, s.control = .outcome k .answer o → Station H context a k item u := by
    intro o hc
    have hu : finish s.toIdle k none o = u := by
      simp only [step, hc] at h
      exact Transition.next.inj h
    rw [← hu]
    exact .retired (retired_finish (s := s.toIdle) hk none o)
  cases hs with
  | fresh phase elsewhere =>
    rcases elsewhere_of_step hk elsewhere h with
      ⟨htasks, hcontrol⟩ | ⟨n, rest, hidle, hb, hr, rfl⟩
    · exact .fresh (by rw [htasks, phase]) hcontrol
    · have hphase : (State.tasks { s with ready := rest, batch := n })[k]?.map Task.phase =
          some (.fresh (.perform item)) := phase
      have hbegin : stepTask H { s with ready := rest, batch := n } k =
          begin H (State.setPhase { s with ready := rest, batch := n } k .running) k
            (.perform item) := by
        simp only [stepTask, hphase]
      rw [hbegin] at h ⊢
      cases hparse : Descriptor.parse item with
      | error m =>
        simp only [begin, hparse]
        exact .refused m _ hparse rfl rfl
      | ok d =>
        simp only [begin, hparse] at h ⊢
        exact .performing d _ hparse (reached.tail h) rfl (.refl _) (.inl rfl)
  | refused m e parse body control => exact hends _ control
  | performing d b parse after performs way stands =>
    rcases stands with rfl | hengaged
    · have hnext := resolve_of_next (k := k) (fun goal o hc => by rw [performs] at hc; cases hc) h
      exact .performing d s parse after performs (way.tail hnext)
        (.inr (engaged_of_perform hk performs h))
    · cases hengaged with
      | waiting phase phase_eq goal elsewhere =>
        have hnext : resolve H context k s = .next u := by
          refine resolve_of_next (fun goal o hc => elsewhere ?_) h
          rw [hc]
          rfl
        exact .performing d b parse after performs (way.tail hnext)
          (.inr (engaged_of_step phase_eq goal elsewhere h))
      | answered o control => exact hends o control
  | retired hretired => exact .retired (retired_of_step hretired h)

/-- A member that the loop is busy with performs its effect, or the outcome is there. -/
theorem Station.busy (hs : Station H context a k item s) (hk : s.control.task? = some k) :
    (∃ d, s.control = .perform k .answer d) ∨ ∃ o, s.control = .outcome k .answer o := by
  cases hs with
  | fresh _ elsewhere => exact absurd hk elsewhere
  | refused m e _ _ control => exact .inr ⟨_, control⟩
  | performing d b _ _ performs _ stands =>
    rcases stands with rfl | hengaged
    · exact .inl ⟨d, performs⟩
    · cases hengaged with
      | waiting _ _ _ elsewhere => exact absurd hk elsewhere
      | answered o control => exact .inr ⟨o, control⟩
  | retired h => exact absurd hk h.elsewhere

/-- The turn of a member completes nothing. -/
theorem Station.changes_turn (hs : Station H context a k item s) (hk : s.control.task? ≠ some k)
    {v : State σ} (hv : v.tasks = s.tasks) :
    Changes H k claims completes v (stepTask H v k) := by
  refine changes_stepTask v fun errand hphase => ?_
  rw [hv] at hphase
  cases hs with
  | fresh phase _ =>
    rw [phase] at hphase
    cases hphase
    exact changes_beginPerform _ item
  | refused m e _ _ control =>
    rw [control] at hk
    exact absurd rfl hk
  | performing d b _ _ performs _ stands =>
    rcases stands with rfl | hengaged
    · rw [performs] at hk
      exact absurd rfl hk
    · cases hengaged with
      | waiting phase phase_eq goal _ =>
        rw [phase_eq] at hphase
        cases hphase
        cases goal
      | answered o control =>
        rw [control] at hk
        exact absurd rfl hk
  | retired h =>
    obtain ⟨report, hfinished⟩ := h.finished
    rw [hfinished] at hphase
    cases hphase

/-! ## A group at work -/

variable {items : List Value}

/-- A group whose members perform the given items. -/
structure Manned (H : Host σ) (context : Value) (a : State σ) (items : List Value) (g : Place)
    (s : State σ) : Prop where
  crew : Crew g s
  size : items.length = g.size
  stations : ∀ i item, items[i]? = some item → Station H context a (g.task i) item s
  retired : ∀ i < g.size, s.outcome? (g.member i) ≠ none → Retired (g.task i) s

theorem Manned.station (hs : Manned H context a items g s) {i : Nat} (hi : i < g.size) :
    ∃ item, items[i]? = some item ∧ Station H context a (g.task i) item s := by
  have hitem := List.getElem?_eq_getElem (hs.size.symm ▸ hi)
  exact ⟨_, hitem, hs.stations i _ hitem⟩

theorem Manned.task_lt (hs : Manned H context a items g s) {i : Nat} (hi : i < g.size) :
    g.task i < s.tasks.length := by
  obtain ⟨phase, htask⟩ := (hs.crew.parts i hi).exists_task
  exact (List.getElem?_eq_some_iff.1 htask).1

/-- What a step of the loop is to a group. -/
inductive Turn (H : Host σ) (g : Place) (s u : State σ) : Prop
  /-- It is none of its business. -/
  | apart (crew : Crew g u) (apart : Apart g s u)
      (quiet : ∀ i < g.size, ∀ o, s.control ≠ .outcome (g.task i) .answer o)
  | completes (i : Nat) (hi : i < g.size) (o : Outcome)
      (control : s.control = .outcome (g.task i) .answer o)
      (state : u = finish s.toIdle (g.task i) none o)
  | notices (n : Nat) (rest : List Job) (m : Nat) (idle : s.control = .idle)
      (batch : s.batch = n + 1) (ready : s.ready = .notice g.group m :: rest)
      (state : u = notice { s with ready := rest, batch := n } g.group m)

/-- A job is taken off the queue. -/
theorem Crew.taken (hs : Crew g s) {j : Job} {rest : List Job} (hr : s.ready = j :: rest)
    (n : Nat) : Crew g { s with ready := rest, batch := n } :=
  ⟨hs.nonempty, hs.group, hs.whole.handed (by simp) (handed_of_pop hr n),
    fun i hi => (hs.parts i hi).handed (by simp) (handed_of_pop hr n), hs.waits, hs.others⟩

/-- What is left of the queue when a job comes up that tells a group nothing. -/
theorem Crew.pop (hs : Crew g s) {j : Job} {rest : List Job} (hr : s.ready = j :: rest)
    (hj : j.ticket? g.group = none) (n : Nat) :
    Crew g { s with ready := rest, batch := n } ∧
      Apart g s { s with ready := rest, batch := n } := by
  refine hs.same (handed_of_pop hr n) rfl rfl ?_
  simp [State.tickets, hr, hj]

/-- A job that is neither a member's nor about the group leaves it alone. -/
theorem aim_spares (hs : Crew g s) {j : Job} (hj : j ∈ s.ready)
    (hgroup : j.ticket? g.group = none) (htasks : ∀ i < g.size, j ≠ .step (g.task i)) :
    ∀ q, s.aim? j = some q → g.Spares q := by
  intro q hq
  refine ⟨aim_ne_of_exclusive hs.whole hj (fun how => ?_) q hq, fun i hi =>
    aim_ne_of_exclusive (hs.parts i hi) hj (fun how => ?_) q hq⟩
  · cases j with
    | notice k m =>
      cases how
      exact absurd hgroup (by simp [Job.ticket?])
    | _ => cases how
  · cases j with
    | step k =>
      cases how
      exact htasks i hi rfl
    | _ => cases how

theorem Crew.idled (hs : Crew g s) : Crew g s.toIdle ∧ Apart g s s.toIdle :=
  hs.same (handed_toIdle s) rfl rfl rfl

/-- A step on behalf of a task that is no member leaves a group alone. -/
theorem apart_of_task (sound : Sound s) (hs : Crew g s) (htask : s.control.task? = some k)
    (stranger : ∀ i < g.size, k ≠ g.task i) (h : step H context s = .next u) :
    Crew g u ∧ Apart g s u := by
  have hidle := hs.idled
  obtain ⟨v, hv, hchanges⟩ : ∃ v, step H context s = .next v ∧
      Changes H k (fun _ => True) g.Spares s.toIdle v := by
    refine step_of_task s htask (fun _ _ _ _ _ _ => trivial) (fun task hk => ⟨?_, fun i hi => ?_⟩)
      fun i o _ => ⟨trivial, fun e he => ⟨?_, fun j hj => ?_⟩⟩
    · exact task_promise_ne_of_exclusive hs.whole (by simp) task hk
    · refine task_promise_ne_of_exclusive (hs.parts i hi) (fun how => ?_) task hk
      exact stranger i hi (Owner.task.inj how).symm
    · exact effect_promise_ne_of_exclusive hs.whole (by simp) e he
    · exact effect_promise_ne_of_exclusive (hs.parts j hj) (by simp) e he
  obtain rfl : v = u := Transition.next.inj (hv.symm.trans h)
  exact (crew_of_changes hchanges sound.toIdle hidle.1).imp_right hidle.2.trans

/-- A step on behalf of a task: it leaves a group alone unless it completes a member. -/
theorem turn_of_task (sound : Sound s) (hs : Manned H context a items g s)
    (htask : s.control.task? = some k) (h : step H context s = .next u) : Turn H g s u := by
  by_cases hmember : ∃ i < g.size, k = g.task i
  · obtain ⟨i, hi, rfl⟩ := hmember
    obtain ⟨item, -, hstation⟩ := hs.station hi
    rcases hstation.busy htask with ⟨d, hc⟩ | ⟨o, hc⟩
    · have hidle := hs.crew.idled
      have hu : perform H context s.toIdle (g.task i) .answer d = u := by
        simp only [step, hc] at h
        exact Transition.next.inj h
      have hchanges : Changes H (g.task i) (fun _ => True) g.Spares s.toIdle u :=
        hu ▸ changes_perform s.toIdle .answer d fun _ _ => trivial
      obtain ⟨hcrew, hapart⟩ := crew_of_changes hchanges sound.toIdle hidle.1
      exact .apart hcrew (hidle.2.trans hapart) fun i _ o ho => by rw [hc] at ho; cases ho
    · have hu : finish s.toIdle (g.task i) none o = u := by
        simp only [step, hc] at h
        exact Transition.next.inj h
      exact .completes i hi o hc hu.symm
  · obtain ⟨hcrew, hapart⟩ :=
      apart_of_task sound hs.crew htask (fun i hi hk => hmember ⟨i, hi, hk⟩) h
    refine .apart hcrew hapart fun i hi o ho => hmember ⟨i, hi, ?_⟩
    rw [ho] at htask
    exact (Option.some.inj htask).symm

/-- A job that tells a group nothing leaves it alone. -/
theorem apart_of_job (sound : Sound s) (hs : Manned H context a items g s)
    (hidle : s.control = .idle) {j : Job} {rest : List Job} (hr : s.ready = j :: rest)
    (hticket : j.ticket? g.group = none) (n : Nat) :
    Crew g (runJob H { s with ready := rest, batch := n } j) ∧
      Apart g s (runJob H { s with ready := rest, batch := n } j) := by
  obtain ⟨hpop, hapart⟩ := hs.crew.pop hr hticket n
  have hmem : j ∈ s.ready := hr ▸ List.mem_cons_self ..
  by_cases hstop : j = .stop
  · subst hstop
    have hstopped : Crew g { s with ready := rest, batch := n, stopping := true } ∧
        Apart g { s with ready := rest, batch := n }
          { s with ready := rest, batch := n, stopping := true } :=
      hpop.same { Handed.refl _ with hosted := fun _ h => .inl h } rfl rfl rfl
    exact hstopped.imp_right hapart.trans
  · obtain ⟨t, hchanges⟩ : ∃ t, Changes H t (fun _ => True) g.Spares
        { s with ready := rest, batch := n }
        (runJob H { s with ready := rest, batch := n } j) := by
      by_cases hmember : ∃ i < g.size, j = .step (g.task i)
      · -- A task may complete its own promise at its turn, but not the task of a member.
        obtain ⟨i, hi, rfl⟩ := hmember
        obtain ⟨item, -, hstation⟩ := hs.station hi
        have helsewhere : s.control.task? ≠ some (g.task i) := by
          rw [hidle]
          exact fun h => by cases h
        exact ⟨g.task i, hstation.changes_turn (v := { s with ready := rest, batch := n })
          helsewhere rfl⟩
      · have haim : ∀ q, State.aim? { s with ready := rest, batch := n } j = some q →
            g.Spares q := by
          have haim := aim_spares hs.crew hmem hticket fun i hi hj => hmember ⟨i, hi, hj⟩
          cases j <;> exact haim
        obtain ⟨k, -, hchanges⟩ := exists_changes_runJob (P := fun _ => True) (H := H) _
          ⟨0, trivial⟩ (fun _ _ => trivial) hstop haim
        exact ⟨k, hchanges⟩
    exact (crew_of_changes hchanges (sound_of_pop hr sound n) hpop).imp_right hapart.trans

/-- **What a step of the loop is to a group at work.** -/
theorem turn_of_step (sound : Sound s) (addressed : Addressed s)
    (hs : Manned H context a items g s) (h : step H context s = .next u) : Turn H g s u := by
  cases htask : s.control.task? with
  | some k => exact turn_of_task sound hs htask h
  | none =>
    have hidle : s.control = .idle := Control.eq_idle htask
    have hquiet : ∀ i < g.size, ∀ o, s.control ≠ .outcome (g.task i) .answer o := by
      intro i _ o ho
      rw [hidle] at ho
      cases ho
    rcases step_idle_cases hidle h with
      ⟨n, j, rest, hb, hr, rfl⟩ | ⟨n, rfl⟩ | ⟨tm, later, hr, ht, rfl⟩
    · cases hticket : j.ticket? g.group with
      | some m =>
        obtain rfl := ticket?_eq_some.1 hticket
        exact .notices n rest m hidle hb hr rfl
      | none =>
        obtain ⟨hcrew, hapart⟩ := apart_of_job sound hs hidle hr hticket n
        exact .apart hcrew hapart hquiet
    · obtain ⟨hcrew, hapart⟩ := hs.crew.same (u := { s with batch := n })
        { Handed.refl s with hosted := fun _ h => .inl h } rfl rfl rfl
      exact .apart hcrew hapart hquiet
    · have hticket : tm.job.ticket? g.group = none :=
        addressed.timers tm (ht ▸ List.mem_cons_self ..) g.group
      obtain ⟨hcrew, hapart⟩ := hs.crew.same (handed_of_step sound h) rfl rfl
        (by simp [State.tickets, hr, hticket])
      exact .apart hcrew hapart hquiet

/-! ## A member is complete -/

/-- **A member that is complete is queued to be noticed**, and that is all. -/
theorem finish_member (hs : Manned H context a items g s) {i : Nat} (hi : i < g.size)
    {o : Outcome} (hc : s.control = .outcome (g.task i) .answer o) :
    finish s.toIdle (g.task i) none o =
      { s with
        control := .idle
        tasks := moved s.tasks (g.task i) (.finished none)
        promises := s.promises.set (g.member i) ⟨some o, []⟩
        ready := s.ready ++ [.notice g.group (g.member i)] } := by
  obtain ⟨phase, htask⟩ := (hs.crew.parts i hi).exists_task
  have hopen : s.promises[g.member i]? = some ⟨none, [.notice g.group (g.member i)]⟩ := by
    rcases hs.crew.waits i hi with hw | ⟨x, hw⟩
    · exact hw
    · have hretired := hs.retired i hi (by simp [State.outcome?, hw])
      exact absurd (by rw [hc]; rfl) hretired.elsewhere
  simp [finish, State.toIdle, State.setPhase, State.complete, moved, htask, hopen]

theorem crew_of_completes (sound : Sound s) (hs : Manned H context a items g s) {i : Nat}
    (hi : i < g.size) {o : Outcome} (hc : s.control = .outcome (g.task i) .answer o)
    (h : step H context s = .next u) (hu : u = finish s.toIdle (g.task i) none o) :
    Crew g u := by
  have hhanded := handed_of_step sound h
  have hcrew := hs.crew
  rw [finish_member hs hi hc] at hu
  have hpromises : u.promises = s.promises.set (g.member i) ⟨some o, []⟩ := by rw [hu]
  have hgroups : u.groups = s.groups := by rw [hu]
  refine ⟨hcrew.nonempty, hgroups ▸ hcrew.group, hcrew.whole.handed (by simp) hhanded,
    fun j hj => (hcrew.parts j hj).handed (by simp) hhanded, fun j hj => ?_,
    fun q pr hq hne j hj => ?_⟩
  · rw [hpromises]
    rcases eq_or_ne i j with rfl | hij
    · exact .inr ⟨o, List.getElem?_set_self (hcrew.parts i hi).made⟩
    · rw [List.getElem?_set_ne fun heq => hij (Place.member_inj heq)]
      exact hcrew.waits j hj
  · rw [hpromises, List.getElem?_set_ne (hne i hi).symm] at hq
    exact hcrew.others q pr hq hne j hj

/-! ## A member is noticed -/

/-- A group with another number of members that have not been noticed. -/
def State.recount (s : State σ) (g : Place) (remaining : Nat) : State σ :=
  { s with groups := s.groups.set g.group ⟨g.members, remaining, g.promise⟩ }

@[simp] theorem outcome_recount (s : State σ) (g : Place) (remaining p : Nat) :
    (s.recount g remaining).outcome? p = s.outcome? p := rfl

/-- What noticing a member comes to. -/
inductive Noticed (g : Place) (m : Nat) (s : State σ) : State σ → Prop
  | nothing (h : s.outcome? m = none) : Noticed g m s s
  | fails (e : Exn) (h : s.outcome? m = some (.error e)) :
      Noticed g m s (s.complete g.promise (.error e))
  | counts (v : Value) (remaining : Nat) (h : s.outcome? m = some (.ok v))
      (group : s.groups[g.group]? = some ⟨g.members, remaining, g.promise⟩)
      (left : remaining - 1 ≠ 0 ∨ collect s g.members = none) :
      Noticed g m s (s.recount g (remaining - 1))
  | succeeds (v : Value) (vs : List Value) (remaining : Nat) (h : s.outcome? m = some (.ok v))
      (group : s.groups[g.group]? = some ⟨g.members, remaining, g.promise⟩)
      (all : remaining - 1 = 0) (results : collect s g.members = some vs) :
      Noticed g m s ((s.recount g (remaining - 1)).complete g.promise (.ok (.list vs)))

/-- Collecting results does not look at the groups. -/
theorem collect_recount (s : State σ) (g : Place) (remaining : Nat) (ps : List Nat) :
    collect (s.recount g remaining) ps = collect s ps := by
  induction ps with
  | nil => rfl
  | cons p ps ih => simp only [collect, outcome_recount, ih]

theorem noticed_notice (hs : Crew g s) (m : Nat) : Noticed g m s (notice s g.group m) := by
  obtain ⟨remaining, hg⟩ := hs.group
  unfold notice
  rw [hg]
  rcases ho : s.outcome? m with _ | e | v
  · exact .nothing ho
  · exact .fails e ho
  · have hcollect := collect_recount s g (remaining - 1) g.members
    unfold State.recount at hcollect
    dsimp only
    rw [hcollect]
    split
    · next hall =>
      split
      · next vs hvs => exact .succeeds v vs remaining ho hg hall hvs
      · next hnone => exact .counts v remaining ho hg (.inr hnone)
    · next hleft => exact .counts v remaining ho hg (.inl hleft)

/-- The jobs and the members of a group are left alone. -/
structure Kept (g : Place) (s u : State σ) : Prop where
  tickets : u.tickets g.group = s.tickets g.group
  parts : ∀ i < g.size, u.promises[g.member i]? = s.promises[g.member i]?

/-- Completing a group leaves its members alone. -/
theorem Crew.completeWhole (hs : Crew g s) (sound : Sound s) (o : Outcome) :
    Crew g (s.complete g.promise o) ∧ Kept g s (s.complete g.promise o) := by
  have hhanded := handed_of_complete sound g.promise o
  rcases s.complete_cases g.promise o with ⟨waiters, hw, hu⟩ | hu <;> rw [hu] at hhanded ⊢
  · have hnone : waiters.filterMap (Job.ticket? g.group) = [] :=
      List.filterMap_eq_nil_iff.2 (hs.others _ _ hw fun i _ => (g.member_ne i).symm)
    have hparts : ∀ i, (s.promises.set g.promise ⟨some o, []⟩)[g.member i]? =
        s.promises[g.member i]? := fun i => List.getElem?_set_ne (g.member_ne i).symm
    refine ⟨⟨hs.nonempty, hs.group, hs.whole.handed (by simp) hhanded,
      fun i hi => (hs.parts i hi).handed (by simp) hhanded, fun i hi => ?_,
      fun q pr hq hne j hj => ?_⟩, ?_, fun i _ => hparts i⟩
    · show (s.promises.set g.promise ⟨some o, []⟩)[g.member i]? = _ ∨ _
      rw [hparts]
      exact hs.waits i hi
    · rcases eq_or_ne g.promise q with rfl | hgq
      · rw [List.getElem?_set_self hs.whole.made] at hq
        cases hq
        cases hj
      · rw [List.getElem?_set_ne hgq] at hq
        exact hs.others q pr hq hne j hj
    · simp [State.tickets, List.filterMap_append, hnone]
  · exact ⟨hs, rfl, fun _ _ => rfl⟩

theorem Crew.recount (hs : Crew g s) (remaining : Nat) : Crew g (s.recount g remaining) := by
  obtain ⟨old, hg⟩ := hs.group
  have hhanded : Handed s (s.recount g remaining) :=
    { Handed.refl s with
      groups := .of_eq (map_set_of_eq hg rfl), hosted := fun _ h => .inl h }
  exact ⟨hs.nonempty, ⟨remaining, List.getElem?_set_self hs.lt⟩,
    hs.whole.handed (by simp) hhanded, fun i hi => (hs.parts i hi).handed (by simp) hhanded,
    hs.waits, hs.others⟩

/-- **Noticing a member leaves the members alone.** -/
theorem crew_of_noticed (sound : Sound s) (hs : Crew g s) {m : Nat} (h : Noticed g m s u) :
    Crew g u ∧ Kept g s u := by
  cases h with
  | nothing _ => exact ⟨hs, rfl, fun _ _ => rfl⟩
  | fails e _ => exact hs.completeWhole sound _
  | counts v remaining _ _ _ => exact ⟨hs.recount _, rfl, fun _ _ => rfl⟩
  | succeeds v vs remaining _ hg _ _ =>
    have hgroups : (s.recount g (remaining - 1)).groups.map Group.promise =
        s.groups.map Group.promise := map_set_of_eq hg rfl
    have howed : (s.recount g (remaining - 1)).owed = s.owed := by
      simp only [State.owed, hgroups]
      rfl
    have hsound : Sound (s.recount g (remaining - 1)) :=
      { sound with owed := fun p hp => sound.owed p (howed ▸ hp) }
    obtain ⟨hcrew, hkept⟩ := (hs.recount (remaining - 1)).completeWhole hsound (.ok (.list vs))
    exact ⟨hcrew, hkept.tickets, hkept.parts⟩

/-! ## Every step -/

/-- What the queue holds behind a job that is noticed is left as it is. -/
theorem crew_of_notices (sound : Sound s) (hs : Crew g s) {m n : Nat} {rest : List Job}
    (hr : s.ready = .notice g.group m :: rest) :
    Crew g (notice { s with ready := rest, batch := n } g.group m) ∧
      ∀ i < g.size, (notice { s with ready := rest, batch := n } g.group m).promises[g.member i]? =
        s.promises[g.member i]? := by
  have hpop := hs.taken hr n
  obtain ⟨hcrew, hkept⟩ :=
    crew_of_noticed (sound_of_pop hr sound n) hpop (noticed_notice hpop m)
  exact ⟨hcrew, hkept.parts⟩

/-- **Every step keeps a group at work.** -/
theorem manned_of_step (sound : Sound s) (addressed : Addressed s)
    (reached : Transition.Reaches (step H context) a s) (hs : Manned H context a items g s)
    (h : step H context s = .next u) : Manned H context a items g u := by
  have hstations : ∀ i item, items[i]? = some item → Station H context a (g.task i) item u := by
    intro i item hitem
    have hi : i < g.size := hs.size ▸ (List.getElem?_eq_some_iff.1 hitem).1
    exact station_of_step (hs.task_lt hi) reached (hs.stations i item hitem) h
  -- Members whose promise a step leaves alone have retired before it if at all.
  have hretired : ∀ i < g.size, u.promises[g.member i]? = s.promises[g.member i]? →
      u.outcome? (g.member i) ≠ none → Retired (g.task i) u := by
    intro i hi hsame ho
    refine retired_of_step (hs.retired i hi ?_) h
    simpa only [State.outcome?, hsame] using ho
  cases turn_of_step sound addressed hs h with
  | apart crew apart quiet =>
    exact ⟨crew, hs.size, hstations, fun i hi => hretired i hi (apart.parts i hi)⟩
  | completes i hi o control state =>
    refine ⟨crew_of_completes sound hs hi control h state, hs.size, hstations, fun j hj => ?_⟩
    rcases eq_or_ne i j with rfl | hij
    · intro _
      rw [state]
      exact retired_finish (s := s.toIdle) (hs.task_lt hi) none o
    · refine hretired j hj ?_
      rw [state, finish_member hs hi control]
      exact List.getElem?_set_ne fun heq => hij (Place.member_inj heq)
  | notices n rest m idle batch ready state =>
    subst state
    obtain ⟨hcrew, hparts⟩ := crew_of_notices (n := n) sound hs.crew ready
    exact ⟨hcrew, hs.size, hstations, fun i hi => hretired i hi (hparts i hi)⟩

end EventLoop
end DescribedEffects
