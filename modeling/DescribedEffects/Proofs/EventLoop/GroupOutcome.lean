import DescribedEffects.Proofs.EventLoop.Gathering
import Mathlib.Data.List.Permutation

/-!
# The outcome of a parallel effect

A task performs a parallel effect: the loop makes a group with a task for each member, and the
task waits for the group.  `parallel_outcome` is about every run of every loop, so it is about
every order in which the members can be completed.

* The outcome that reaches the task is what the completions call for: the failure that came
  first, or the list of all results in the order of the members.  The members' outcomes are
  got in the same way when the members are groups themselves (`Answered`), so a tree of groups
  that succeeds comes to a tree of lists of the same shape (`ListTree`).
* It does reach the task as soon as the completions call for one, whatever the members do that
  are not complete, unless the loop is ended by its main task or kept from its queue for good.
* Once the group is settled its outcome stays, and members that are complete later are not
  heard of outside the group (`Unheard`).
-/

namespace DescribedEffects
namespace EventLoop

variable {σ : Type} {H : Host σ} {context : Value} {t k p : Nat} {goal : Goal}
  {a s u : State σ} {item : Value} {items : List Value} {g : Place}
  {ds : List (Nat × Outcome)} {host : σ} {number : Nat} {earlier : List (Nat × Outcome)}
  {errand : Errand}

/-! ## Up to the outcome of the group -/

/-- **A stretch of the run up to the outcome of a group.**  The task is still waiting, or the
outcome that the completions call for has reached it. -/
theorem Gathering.trail
    (reached : Transition.Reaches (step H context) (State.start host number earlier errand) a)
    (hs : Gathering H context a items g ds k s) (hw : Waits t goal g.promise s)
    {es : List (Nat × Outcome)}
    (h : Transition.Trail (resolve H context t) (completions g) s es u) :
    ∃ l, Gathering H context a items g (ds ++ es) l u ∧
      (Waits t goal g.promise u ∨
        ∃ o, groupOutcome? g.size (ds ++ es) = some o ∧ u.control = .outcome t goal o) := by
  induction h generalizing ds k with
  | refl s => exact ⟨k, by rwa [List.append_nil], .inl hw⟩
  | @head s v u es first rest ih =>
    have hstep := step_of_resolve hw first
    obtain ⟨-, hnext⟩ := hs.next hw hstep
    obtain ⟨l, -, hgathering⟩ := gathering_of_step reached hs hstep
    rw [← List.append_assoc]
    rcases hnext with hwaits | ⟨hnothing, o, ho, hc⟩
    · exact ih hgathering hwaits
    · have hdone : resolve H context t v = .done (.answered goal o v) := resolve_of_outcome hc
      cases rest with
      | refl =>
        rw [hnothing, List.append_nil, List.append_nil]
        rw [hnothing, List.append_nil] at hgathering
        exact ⟨l, hgathering, .inr ⟨o, ho, hc⟩⟩
      | head first' _ => rw [hdone] at first'; cases first'

/-- The loop ends while a task waits for a group: the members do not call for an outcome, or
the main task is another one and has ended. -/
theorem Gathering.last
    (reached : Transition.Reaches (step H context) (State.start host number earlier errand) a)
    (hs : Gathering H context a items g ds k s) (hw : Waits t goal g.promise s) {r : Ending σ}
    (h : step H context s = .done r) :
    completions g s = [] ∧
      (r = .deadlock s ∧ groupOutcome? g.size ds = none ∨ ∃ o, r = .finished o s ∧ t ≠ 0) := by
  have hpast := reached.trans hs.after
  have main : Main s := main_of_reaches hpast
  obtain ⟨hidle, hend⟩ := ends_of_main main h
  refine ⟨completions_of_quiet fun i _ x hx => (by rw [hidle] at hx; cases hx), ?_⟩
  rcases hend with ⟨o, rfl, ho⟩ | ⟨rfl, -, hr, -⟩
  · refine .inr ⟨o, rfl, fun ht => ?_⟩
    subst ht
    rcases timely_of_reaches hpast with hgoing | ⟨report, hover⟩
    · rw [hgoing.outcome] at ho
      cases ho
    · have hfinished := hover.finished
      rw [hw.phase] at hfinished
      cases hfinished
  · refine .inl ⟨rfl, ?_⟩
    cases hs.noticing with
    | waiting seen due split count successes tickets left group opened =>
      have hnil : due = [] := by
        simpa [State.tickets, hr] using tickets.symm
      rw [hnil, List.append_nil] at split
      subst split
      by_contra hne
      have hle := le_length_of_groupOutcome? successes hne
      omega
    | settled o outcome assembled =>
      rcases hw.queued with ⟨waiters, hwaiters, -⟩ | ⟨-, hq⟩
      · simp [State.outcome?, hwaiters] at outcome
      · rw [hr] at hq
        cases hq

/-- **A stretch of any run.** -/
theorem Gathering.later
    (reached : Transition.Reaches (step H context) (State.start host number earlier errand) a)
    (hs : Gathering H context a items g ds k s) {es : List (Nat × Outcome)}
    (h : Transition.Trail (step H context) (completions g) s es u) :
    ∃ l, Gathering H context a items g (ds ++ es) l u := by
  induction h generalizing ds k with
  | refl s => exact ⟨k, by rwa [List.append_nil]⟩
  | @head s v u es first rest ih =>
    obtain ⟨l, -, hgathering⟩ := gathering_of_step reached hs first
    rw [← List.append_assoc]
    exact ih hgathering

/-! ## The outcome reaches the task -/

/-- An outcome reaches a task, unless the main task, another one, ends the loop before, or the
loop never again gets to look at its queue. -/
inductive Gives (H : Host σ) (context : Value) (t : Nat) (goal : Goal) (o : Outcome)
    (s : State σ) : Prop
  | answered (z : State σ) (way : Transition.Reaches (resolve H context t) s z)
      (control : z.control = .outcome t goal o)
  | stopped (x : Outcome) (z : State σ) (way : Transition.Reaches (resolve H context t) s z)
      (final : step H context z = .done (.finished x z)) (another : t ≠ 0)
  | kept (w : State σ) (way : Transition.Reaches (step H context) s w)
      (never : ∀ v, Transition.Reaches (step H context) w v → v.control ≠ .idle)

section

variable {o : Outcome}

theorem Gives.of_reaches (h : Transition.Reaches (resolve H context t) s u)
    (hu : Gives H context t goal o u) : Gives H context t goal o s := by
  cases hu with
  | answered z way control => exact .answered z (h.trans way) control
  | stopped x z way final another => exact .stopped x z (h.trans way) final another
  | kept w way never => exact .kept w ((reaches_of_resolve h).trans way) never

/-- The loop goes on, and the task is still waiting, or the run has come to its end. -/
theorem Gathering.along
    (reached : Transition.Reaches (step H context) (State.start host number earlier errand) a)
    (hs : Gathering H context a items g ds k s) (hw : Waits t goal g.promise s)
    (decided : groupOutcome? g.size ds = some o) (h : Transition.Reaches (step H context) s u) :
    Gives H context t goal o s ∨
      ∃ es l, k ≤ l ∧ Transition.Reaches (resolve H context t) s u ∧
        Gathering H context a items g (ds ++ es) l u ∧ Waits t goal g.promise u := by
  induction h generalizing ds k with
  | refl s => exact .inr ⟨[], k, Nat.le_refl k, .refl s, by rwa [List.append_nil], hw⟩
  | @head s v u first rest ih =>
    obtain ⟨hresolve, hnext⟩ := hs.next hw first
    obtain ⟨l, hkl, hgathering⟩ := gathering_of_step reached hs first
    have hreaches : Transition.Reaches (resolve H context t) s v := .head hresolve (.refl v)
    rcases hnext with hwaits | ⟨-, x, hx, hc⟩
    · rcases ih hgathering hwaits (hgathering.tally.decided decided) with
        hgives | ⟨es, m, hlm, hvu, hlater, hw'⟩
      · exact .inl (hgives.of_reaches hreaches)
      · rw [List.append_assoc] at hlater
        exact .inr ⟨_, m, hkl.trans hlm, hreaches.trans hvu, hlater, hw'⟩
    · obtain rfl := Option.some.inj (decided.symm.trans hx)
      exact .inl (.answered v hreaches hc)

/-- What cuts the loop short ends it for another task, or keeps the loop from its queue for
good. -/
theorem Gathering.cut
    (reached : Transition.Reaches (step H context) (State.start host number earlier errand) a)
    (hs : Gathering H context a items g ds k s) (hw : Waits t goal g.promise s)
    (decided : groupOutcome? g.size ds = some o) (h : Cut H context s) :
    Gives H context t goal o s := by
  rcases h with ⟨w, r, hsw, hr⟩ | ⟨w, hsw, hnever⟩
  · rcases hs.along reached hw decided hsw with hgives | ⟨es, l, -, hresolves, hlater, hw'⟩
    · exact hgives
    · obtain ⟨-, ⟨-, hnone⟩ | ⟨x, rfl, another⟩⟩ := hlater.last reached hw' hr
      · rw [hlater.tally.decided decided] at hnone
        cases hnone
      · exact .stopped x w hresolves hr another
  · exact .kept w hsw hnever

/-- The outcome of a group that is settled reaches the task. -/
theorem Gathering.arrives
    (reached : Transition.Reaches (step H context) (State.start host number earlier errand) a)
    (hs : Gathering H context a items g ds k s) (hw : Waits t goal g.promise s)
    (decided : groupOutcome? g.size ds = some o) (ho : s.outcome? g.promise = some o) :
    Gives H context t goal o s := by
  obtain ⟨before, after, hready⟩ := List.append_of_mem (hw.turn ho)
  rcases comes_up H context hready with ⟨w, n, rest, hsw, hidle, hb, hr⟩ | hcut
  · rcases hs.along reached hw decided hsw with hgives | ⟨es, l, -, hresolves, hlater, hw'⟩
    · exact hgives
    · have how : w.outcome? g.promise = some o :=
        hsw.invariant (P := fun w => w.outcome? g.promise = some o)
          (fun _ _ hv => outcome_of_step hv) ho
      obtain ⟨hresolve, -⟩ := hlater.next hw' (step_of_turn hw' how hidle hb hr)
      exact .answered _ (hresolves.tail hresolve) rfl
  · exact hs.cut reached hw decided hcut

/-- **A group does not wait for members that it does not need.**  Once the members that are
complete call for an outcome it reaches the task, whatever the others do. -/
theorem Gathering.gives
    (reached : Transition.Reaches (step H context) (State.start host number earlier errand) a)
    (hs : Gathering H context a items g ds k s) (hw : Waits t goal g.promise s)
    (decided : groupOutcome? g.size ds = some o) : Gives H context t goal o s := by
  -- The induction is on the number of members that the group has not noticed.
  induction hn : g.size - k using Nat.strongRecOn generalizing ds k s with
  | ind left ih =>
    cases hs.noticing with
    | settled x outcome assembled =>
      obtain rfl := Option.some.inj (decided.symm.trans assembled)
      exact hs.arrives reached hw decided outcome
    | waiting seen due split count successes tickets more group opened =>
      cases due with
      | nil =>
        rw [List.append_nil] at split
        subst split
        have hle := le_length_of_groupOutcome? successes (by rw [decided]; simp)
        omega
      | cons d later =>
        have hmem : g.member d.1 ∈ s.ready.filterMap (Job.ticket? g.group) := by
          have htickets : s.ready.filterMap (Job.ticket? g.group) = _ := tickets
          rw [htickets]
          exact List.mem_cons_self ..
        obtain ⟨j, hj, hticket⟩ := List.mem_filterMap.1 hmem
        obtain rfl := ticket?_eq_some.1 hticket
        obtain ⟨before, after, hready⟩ := List.append_of_mem hj
        rcases comes_up H context hready with ⟨w, n, rest, hsw, hidle, hb, hr⟩ | hcut
        · rcases hs.along reached hw decided hsw with
            hgives | ⟨es, l, hkl, hresolves, hlater, hw'⟩
          · exact hgives
          · have hstep := step_of_batch H context hidle hb hr
            obtain ⟨hresolve, hnext⟩ := hlater.next hw' hstep
            refine Gives.of_reaches (hresolves.tail hresolve) ?_
            have hdecided := hlater.tally.decided decided
            rcases hnext with hwaits | ⟨-, x, hx, hc⟩
            · exact ih (g.size - (l + 1)) (by omega) (hlater.notices reached hidle hb hr) hwaits
                hdecided rfl
            · obtain rfl := Option.some.inj (hdecided.symm.trans hx)
              exact .answered _ (.refl _) hc
        · exact hs.cut reached hw decided hcut

end

/-! ## A task performs a parallel effect -/

section

variable {d : Descriptor}

/-- A parallel effect is performed by making a group. -/
theorem step_of_parallel (H : Host σ) (context : Value) (performs : a.control = .perform t goal d)
    (mode : d.mode = .parallel) :
    step H context a = .next (gather (a.toIdle.note (.dispatching d.args.length)) t goal
      (d.args.map .perform)) := by
  simp only [step, performs, perform, mode]
  rfl

/-- It is not answered at once. -/
theorem resolve_of_parallel (H : Host σ) (context : Value)
    (performs : a.control = .perform t goal d) (mode : d.mode = .parallel) :
    resolve H context t a = .next (gather (a.toIdle.note (.dispatching d.args.length)) t goal
      (d.args.map .perform)) :=
  resolve_of_next (fun _ _ ho => by rw [performs] at ho; cases ho)
    (step_of_parallel H context performs mode)

/-- **A task begins to wait for a group that has just been made.** -/
theorem gathering_of_staffed {b : State σ} (sound : Sound b) (addressed : Addressed b)
    (ht : t < b.tasks.length) (items : List Value) (nonempty : items ≠ [])
    (hidle : b.control = .idle)
    (h : step H context a = .next
      (block (b.staffed (items.map .perform)) t goal b.promises.length)) :
    let g := Place.next b items.length
    let u := block (b.staffed (items.map .perform)) t goal b.promises.length
    Gathering H context a items g [] 0 u ∧ Waits t goal g.promise u := by
  intro g u
  let errands := items.map Errand.perform
  have hlength : errands.length = items.length := List.length_map ..
  have hg : Place.next b errands.length = g := by rw [hlength]
  have hmade : Crew g (b.staffed errands) :=
    hg ▸ crew_staffed sound addressed (by simpa [errands] using nonempty)
  have hstaffs : FreeChanges H t b (b.staffed errands) := changes_staffed b errands
  have howed : g.promise ∈ (b.staffed errands).groups.map Group.promise := by
    obtain ⟨remaining, hgroup⟩ := hmade.group
    exact List.mem_map.2 ⟨_, List.mem_of_getElem? hgroup, rfl⟩
  have hblock : Changes H t (fun _ => True) g.Spares (b.staffed errands) u :=
    changes_block (b.staffed errands) goal (.group howed)
  obtain ⟨hcrew, hapart⟩ := crew_of_changes hblock (sound_of_changes hstaffs sound) hmade
  have hmember : ∀ i < g.size, u.outcome? (g.member i) = none := by
    intro i hi
    have hopen := outcome_staffed b (Nat.lt_of_lt_of_eq hi hlength.symm)
    rw [hg] at hopen
    rw [hapart.part_outcome hi, hopen]
  have hwhole : (b.staffed errands).outcome? g.promise = none := by
    have hpromise : (b.staffed errands).promises[g.promise]? = _ := promise_staffed b errands
    simp only [State.outcome?, hpromise]
    rfl
  have hfresh : ∀ i item, items[i]? = some item → Station H context a (g.task i) item u := by
    intro i item hitem
    have herrand : errands[i]? = some (.perform item) := by simp [errands, hitem]
    have htask := task_staffed b herrand
    rw [hg] at htask
    have hne : t ≠ g.task i := Nat.ne_of_lt (Nat.lt_of_lt_of_le ht (Nat.le_add_right ..))
    refine .fresh ?_ fun hk => hne ?_
    · rw [getElem?_tasks_of_changes hblock (List.getElem?_eq_some_iff.1 htask).1 hne, htask]
      rfl
    · refine (control_of_changes hblock (fun k hk => ?_) _ hk).symm
      rw [show (b.staffed errands).control = .idle from hidle] at hk
      cases hk
  refine ⟨⟨.head h (.refl u), ⟨hcrew, rfl, hfresh, fun i hi ho => absurd (hmember i hi) ho⟩,
    ⟨fun d hd => (by cases hd), List.nodup_nil, hmember⟩, ?_, fun _ x item hd => (by cases hd)⟩, ?_⟩
  · refine .waiting [] [] rfl rfl (fun d hd => by cases hd)
      (hapart.tickets.trans (tickets_staffed addressed errands)) hcrew.nonempty
      (hapart.group.trans ?_) (hapart.whole.trans hwhole)
    have hgroup : (b.staffed errands).groups[g.group]? =
        some ⟨(Place.next b errands.length).members, errands.length, g.promise⟩ :=
      List.getElem?_concat_length
    rw [hgroup, hg, hlength]
    rfl
  · refine waits_block hmade.whole.made hwhole (Nat.lt_of_lt_of_le ht ?_) goal
    exact (onward_of_changes hstaffs).tasks

/-- **A task performs a parallel effect with members.**  It waits for a group of which no
member has begun. -/
theorem gathering_of_perform
    (reached : Transition.Reaches (step H context) (State.start host number earlier errand) a)
    (performs : a.control = .perform t goal d) (mode : d.mode = .parallel)
    (nonempty : d.args ≠ []) :
    let g := Place.next a d.args.length
    ∃ u, step H context a = .next u ∧ Gathering H context a d.args g [] 0 u ∧
      Waits t goal g.promise u := by
  intro g
  have sound : Sound a := sound_of_reaches reached
  have addressed : Addressed a := addressed_of_reaches reached
  have placed : Placed a := placed_of_reaches reached fun k hk => by cases hk
  have ht : t < a.tasks.length := placed t (by rw [performs]; rfl)
  let noted := a.toIdle.note (.dispatching d.args.length)
  have hstep := step_of_parallel H context performs mode
  rw [gather_eq _ t goal (by simpa using nonempty)] at hstep
  exact ⟨_, hstep, gathering_of_staffed (b := noted) { sound with owed := sound.owed }
    ⟨addressed.ready, addressed.timers, addressed.waiters⟩ ht d.args nonempty rfl hstep⟩

/-- Where a stretch of the run up to the outcome of a parallel effect leads. -/
inductive Whereabouts (H : Host σ) (context : Value) (a : State σ) (t : Nat) (goal : Goal)
    (d : Descriptor) (ds : List (Nat × Outcome)) (z : State σ) : Prop
  | start (same : z = a) (nothing : ds = [])
  | waits (k : Nat)
      (gathering : Gathering H context a d.args (Place.next a d.args.length) ds k z)
      (waits : Waits t goal (Place.next a d.args.length).promise z)
  | answered (o : Outcome) (control : z.control = .outcome t goal o)
      (outcome : groupOutcome? d.args.length ds = some o) (once : (ds.map Prod.fst).Nodup)
      (came : ∀ i x item, (i, x) ∈ ds → d.args[i]? = some item →
        Came H context a (a.tasks.length + i) item x z)

theorem completions_of_control {c : Control} (hc : s.control = c)
    (h : ∀ k o, c ≠ .outcome k .answer o) : completions g s = [] :=
  completions_of_quiet fun _ _ o ho => h _ o (hc.symm.trans ho)

/-- **Every stretch of the run up to the outcome.** -/
theorem whereabouts_of_trail
    (reached : Transition.Reaches (step H context) (State.start host number earlier errand) a)
    (performs : a.control = .perform t goal d) (mode : d.mode = .parallel) {z : State σ}
    (h : Transition.Trail (resolve H context t) (completions (Place.next a d.args.length)) a ds z) :
    Whereabouts H context a t goal d ds z := by
  have hquiet : completions (Place.next a d.args.length) a = [] :=
    completions_of_control performs fun k o ho => by cases ho
  have hresolve := resolve_of_parallel H context performs mode
  cases h with
  | refl => exact .start rfl rfl
  | @head _ v _ es first rest =>
    rw [hquiet, List.nil_append]
    obtain rfl := Transition.next.inj (first.symm.trans hresolve)
    cases hargs : d.args with
    | nil =>
      rw [hargs] at rest
      -- An empty group is complete at once.
      cases rest with
      | refl =>
        refine .answered (.ok (.list [])) rfl ?_ List.nodup_nil fun _ x item hd => by cases hd
        rw [hargs]
        rfl
      | head first' _ => rw [resolve_of_outcome (by rfl)] at first'; cases first'
    | cons member members =>
      obtain ⟨u, hstep, hgathering, hwaits⟩ :=
        gathering_of_perform reached performs mode (by rw [hargs]; simp)
      obtain rfl := Transition.next.inj
        (hstep.symm.trans (step_of_parallel H context performs mode))
      obtain ⟨k, hlater, hwaits' | ⟨o, ho, hc⟩⟩ := hgathering.trail reached hwaits rest
      · exact .waits k hlater hwaits'
      · exact .answered o hc ho hlater.tally.once hlater.came

end

/-! ## Members that are late -/

/-- A step in which a member is complete, or in which the group notices one. -/
inductive Late (g : Place) (s : State σ) : Prop
  | completes (i : Nat) (hi : i < g.size) (o : Outcome)
      (control : s.control = .outcome (g.task i) .answer o)
  | notices (i : Nat) (hi : i < g.size) (n : Nat) (rest : List Job) (idle : s.control = .idle)
      (batch : s.batch = n + 1) (ready : s.ready = .notice g.group (g.member i) :: rest)

/-- Nothing is heard of a step outside a group: no program is asked anything, no other task
and no other promise has changed, and nothing is queued but jobs of the group. -/
structure Unheard (g : Place) (s u : State σ) : Prop where
  host : u.host = s.host
  control : u.control = .idle
  tasks : ∀ k, (∀ i < g.size, k ≠ g.task i) → u.tasks[k]? = s.tasks[k]?
  promises : ∀ q, (∀ i < g.size, q ≠ g.member i) → u.promises[q]? = s.promises[q]?
  ready : ∀ j ∈ u.ready, j ∈ s.ready ∨ ∃ i < g.size, j = .notice g.group (g.member i)
  timers : u.timers = s.timers
  effects : u.effects = s.effects
  futures : u.futures = s.futures
  notes : u.notes = s.notes

theorem unheard_of_completes (manned : Manned H context a items g s) {i : Nat} (hi : i < g.size)
    {o : Outcome} (hc : s.control = .outcome (g.task i) .answer o) :
    Unheard g s (finish s.toIdle (g.task i) none o) := by
  rw [finish_member manned hi hc]
  refine ⟨rfl, rfl, fun k hk => getElem?_moved_of_ne _ (hk i hi).symm _,
    fun q hq => List.getElem?_set_ne (hq i hi).symm, fun j hj => ?_, rfl, rfl, rfl, rfl⟩
  rcases List.mem_append.1 hj with hj | hj
  · exact .inl hj
  · exact .inr ⟨i, hi, List.mem_singleton.1 hj⟩

/-- A group that is settled counts at most. -/
theorem recount_of_noticed {o : Outcome} (settled : s.outcome? g.promise = some o) {m : Nat}
    (h : Noticed g m s u) : u = s ∨ ∃ remaining, u = s.recount g remaining := by
  cases h with
  | nothing _ => exact .inl rfl
  | fails e _ => exact .inl (complete_of_outcome settled _)
  | counts v remaining _ _ _ => exact .inr ⟨_, rfl⟩
  | succeeds v vs remaining _ _ _ _ =>
    exact .inr ⟨_, complete_of_outcome (s := s.recount g _) settled _⟩

theorem unheard_of_notices (crew : Crew g s) {o : Outcome}
    (settled : s.outcome? g.promise = some o) (hidle : s.control = .idle) {m n : Nat}
    {rest : List Job} (hr : s.ready = .notice g.group m :: rest) :
    Unheard g s (notice { s with ready := rest, batch := n } g.group m) := by
  have hready : ∀ j ∈ rest, j ∈ s.ready ∨ ∃ i < g.size, j = .notice g.group (g.member i) :=
    fun j hj => .inl (hr ▸ List.mem_cons_of_mem _ hj)
  have hnoticed := noticed_notice (crew.taken hr n) m
  rcases recount_of_noticed (s := { s with ready := rest, batch := n }) settled hnoticed with
    hu | ⟨remaining, hu⟩ <;> rw [hu] <;>
    exact ⟨rfl, hidle, fun _ _ => rfl, fun _ _ => rfl, hready, rfl, rfl, rfl, rfl⟩

/-! ## Trees of groups -/

/-- **How a task that is told to perform an item gets its outcome.**  The item is refused; or
its effect is performed and the outcome reaches the task; and when the effect is a parallel
one, the outcome is what the members call for, who get theirs in the same way. -/
inductive Answered (H : Host σ) (context : Value) : State σ → Nat → Value → Outcome → Prop
  | refused {a : State σ} {k : Nat} {item : Value} (m : Malformed) (e : Exn)
      (parse : Descriptor.parse item = .error m) (body : e.body = m.body) :
      Answered H context a k item (.error e)
  | single {a : State σ} {k : Nat} {item : Value} {o : Outcome} (d : Descriptor) (b z : State σ)
      (parse : Descriptor.parse item = .ok d) (mode : d.mode ≠ .parallel)
      (after : Transition.Reaches (step H context) a b)
      (performs : b.control = .perform k .answer d)
      (way : Transition.Reaches (resolve H context k) b z)
      (control : z.control = .outcome k .answer o) : Answered H context a k item o
  | group {a : State σ} {k : Nat} {item : Value} {o : Outcome} (d : Descriptor) (b z : State σ)
      (ds : List (Nat × Outcome)) (parse : Descriptor.parse item = .ok d)
      (mode : d.mode = .parallel) (after : Transition.Reaches (step H context) a b)
      (performs : b.control = .perform k .answer d)
      (way : Transition.Trail (resolve H context k) (completions (Place.next b d.args.length)) b
        ds z)
      (control : z.control = .outcome k .answer o)
      (outcome : groupOutcome? d.args.length ds = some o)
      (members : ∀ i x item, (i, x) ∈ ds → d.args[i]? = some item →
        Answered H context b (b.tasks.length + i) item x) : Answered H context a k item o

/-- **The value of a tree of groups has the shape of the tree.**  A group has a list with one
value for each member, in order; anything else has the value that reached its task. -/
inductive ListTree (H : Host σ) (context : Value) : State σ → Nat → Value → Value → Prop
  | leaf {a : State σ} {k : Nat} {item v : Value} (d : Descriptor) (b z : State σ)
      (parse : Descriptor.parse item = .ok d) (mode : d.mode ≠ .parallel)
      (after : Transition.Reaches (step H context) a b)
      (performs : b.control = .perform k .answer d)
      (way : Transition.Reaches (resolve H context k) b z)
      (control : z.control = .outcome k .answer (.ok v)) : ListTree H context a k item v
  | list {a : State σ} {k : Nat} {item : Value} (d : Descriptor) (b : State σ) (vs : List Value)
      (parse : Descriptor.parse item = .ok d) (mode : d.mode = .parallel)
      (after : Transition.Reaches (step H context) a b)
      (performs : b.control = .perform k .answer d) (length : vs.length = d.args.length)
      (elements : ∀ i item v, d.args[i]? = some item → vs[i]? = some v →
        ListTree H context b (b.tasks.length + i) item v) : ListTree H context a k item (.list vs)

/-- A tree of groups that succeeds comes to a tree of lists. -/
theorem Answered.listTree {o : Outcome} (h : Answered H context a k item o) {v : Value}
    (ho : o = .ok v) : ListTree H context a k item v := by
  induction h generalizing v with
  | refused m e parse body => cases ho
  | single d b z parse mode after performs way control =>
    exact .leaf d b z parse mode after performs way (ho ▸ control)
  | group d b z ds parse mode after performs way control outcome members ih =>
    obtain ⟨vs, rfl, hlength, helements⟩ := groupOutcome?_eq_ok (ho ▸ outcome)
    refine .list d b vs parse mode after performs hlength fun i item v hitem hv => ?_
    exact ih i (.ok v) item (helements i v hv) hitem rfl

/-- **Where the outcome of a member comes from, down to the leaves.** -/
theorem answered_of_came {o : Outcome}
    (reached : Transition.Reaches (step H context) (State.start host number earlier errand) a)
    (h : Came H context a k item o s) : Answered H context a k item o := by
  -- The members of a group are tasks with larger numbers, of which there are finitely many.
  induction hn : s.tasks.length - k using Nat.strongRecOn generalizing a k item o s with
  | ind n ih =>
    cases h with
    | refused m e parse body outcome =>
      rw [outcome]
      exact .refused m e parse body
    | performed d b z parse after performs way control before =>
      by_cases mode : d.mode = .parallel
      · have hb := reached.trans after
        have hk : k < b.tasks.length :=
          placed_of_reaches hb (fun k hk => by cases hk) k (by rw [performs]; rfl)
        obtain ⟨ds, hway⟩ := way.exists_trail (completions (Place.next b d.args.length))
        cases whereabouts_of_trail hb performs mode hway with
        | start same nothing =>
          rw [same, performs] at control
          cases control
        | waits k gathering waits =>
          have helsewhere := waits.elsewhere
          rw [control] at helsewhere
          exact absurd rfl helsewhere
        | answered x hc outcome once came =>
          rw [control] at hc
          cases hc
          refine .group d b z ds parse mode after performs hway control outcome
            fun i y member hy hmember => ih _ ?_ hb (came i y member hy hmember) rfl
          have hbz := tasks_le_of_reaches (reaches_of_resolve way)
          have hzs := tasks_le_of_reaches before
          omega
      · exact .single d b z parse mode after performs way control

/-! ## All runs -/

/-- What the completions of its members mean for a task that performs a parallel effect. -/
inductive GroupDecides (H : Host σ) (context : Value) (a : State σ) (t : Nat) (goal : Goal)
    (d : Descriptor) (ds : List (Nat × Outcome)) : Fate σ → Prop
  /-- The outcome that reaches the task is the one that they call for.  Every member is
  complete once at most, and its outcome comes from its own effect. -/
  | answered (o : Outcome) (z : State σ) (outcome : groupOutcome? d.args.length ds = some o)
      (once : (ds.map Prod.fst).Nodup)
      (members : ∀ i x item, (i, x) ∈ ds → d.args[i]? = some item →
        Answered H context a (a.tasks.length + i) item x)
      (lists : ∀ v, o = .ok v → ∃ vs, v = .list vs ∧ vs.length = d.args.length ∧
        ∀ i item w, d.args[i]? = some item → vs[i]? = some w →
          ListTree H context a (a.tasks.length + i) item w) :
      GroupDecides H context a t goal d ds (.answered goal o z)
  /-- Nothing is left to do, and they do not call for an outcome. -/
  | silent (z : State σ) (open_ : groupOutcome? d.args.length ds = none) :
      GroupDecides H context a t goal d ds (.over (.deadlock z))
  /-- The main task, another one, has ended the loop. -/
  | stopped (o : Outcome) (z : State σ) (another : t ≠ 0) :
      GroupDecides H context a t goal d ds (.over (.finished o z))

section

variable {d : Descriptor}

/-- What has reached the task is decided by the members. -/
theorem groupDecides_of_came {o : Outcome} {z : State σ}
    (reached : Transition.Reaches (step H context) (State.start host number earlier errand) a)
    (outcome : groupOutcome? d.args.length ds = some o) (once : (ds.map Prod.fst).Nodup)
    (came : ∀ i x item, (i, x) ∈ ds → d.args[i]? = some item →
      Came H context a (a.tasks.length + i) item x z) :
    GroupDecides H context a t goal d ds (.answered goal o z) := by
  have hmembers : ∀ i x item, (i, x) ∈ ds → d.args[i]? = some item →
      Answered H context a (a.tasks.length + i) item x :=
    fun i x item hd hitem => answered_of_came reached (came i x item hd hitem)
  refine .answered o z outcome once hmembers fun v hv => ?_
  obtain ⟨vs, rfl, hlength, helements⟩ := groupOutcome?_eq_ok (hv ▸ outcome)
  exact ⟨vs, rfl, hlength, fun i item w hitem hw =>
    (hmembers i (.ok w) item (helements i w hw) hitem).listTree rfl⟩

/-- **Every run that comes to an end.** -/
theorem groupDecides_of_ends {fate : Fate σ}
    (reached : Transition.Reaches (step H context) (State.start host number earlier errand) a)
    (performs : a.control = .perform t goal d) (mode : d.mode = .parallel)
    (h : Transition.Ends (resolve H context t) (completions (Place.next a d.args.length)) a ds
      fate) : GroupDecides H context a t goal d ds fate := by
  obtain ⟨z, ms, htrail, hdone, rfl⟩ := h.exists_trail
  cases whereabouts_of_trail reached performs mode htrail with
  | start same nothing =>
    subst same
    have hnext := resolve_of_parallel H context performs mode
    rw [hdone] at hnext
    cases hnext
  | waits k gathering waits =>
    rw [resolve_of_waits waits] at hdone
    cases hstep : step H context z with
    | next u => rw [hstep] at hdone; cases hdone
    | done r =>
      rw [hstep] at hdone
      cases hdone
      obtain ⟨hquiet, ⟨rfl, hnone⟩ | ⟨o, rfl, another⟩⟩ := gathering.last reached waits hstep
      · rw [hquiet, List.append_nil]
        exact .silent z hnone
      · exact .stopped o z another
  | answered o control outcome once came =>
    have ht : t < a.tasks.length :=
      placed_of_reaches reached (fun k hk => by cases hk) t (by rw [performs]; rfl)
    have hquiet : completions (Place.next a d.args.length) z = [] := by
      refine completions_of_quiet fun i _ x hx => ?_
      rw [control] at hx
      have htask : t = a.tasks.length + i := (Control.outcome.inj hx).1
      omega
    rw [resolve_of_outcome control] at hdone
    cases hdone
    rw [hquiet, List.append_nil]
    exact groupDecides_of_came reached outcome once came

/-- **No run waits for members that it does not need.** -/
theorem gives_of_trail
    (reached : Transition.Reaches (step H context) (State.start host number earlier errand) a)
    (performs : a.control = .perform t goal d) (mode : d.mode = .parallel) {z : State σ}
    (h : Transition.Trail (resolve H context t) (completions (Place.next a d.args.length)) a ds z)
    {o : Outcome} (decided : groupOutcome? d.args.length ds = some o) :
    Gives H context t goal o z := by
  cases whereabouts_of_trail reached performs mode h with
  | start same nothing =>
    subst same nothing
    have hle : d.args.length ≤ ([] : List (Nat × Outcome)).length :=
      le_length_of_groupOutcome? (fun _ hd => by cases hd) (by rw [decided]; simp)
    have hargs : d.args = [] := List.length_eq_zero_iff.1 (Nat.le_zero.1 hle)
    have hnext := resolve_of_parallel H context performs mode
    rw [hargs] at hnext decided
    obtain rfl : .ok (.list []) = o := Option.some.inj decided
    exact .answered _ (.head hnext (.refl _)) rfl
  | waits k gathering waits => exact gathering.gives reached waits decided
  | answered x control outcome _ _ =>
    obtain rfl := Option.some.inj (decided.symm.trans outcome)
    exact .answered z (.refl z) control

/-- Every state after the group has been made, whether the task waits for it or not. -/
theorem gathering_of_trail
    (reached : Transition.Reaches (step H context) (State.start host number earlier errand) a)
    (performs : a.control = .perform t goal d) (mode : d.mode = .parallel)
    (nonempty : d.args ≠ []) {w : State σ}
    (h : Transition.Trail (step H context) (completions (Place.next a d.args.length)) a ds w) :
    w = a ∨ ∃ k, Gathering H context a d.args (Place.next a d.args.length) ds k w := by
  obtain ⟨u, hstep, hgathering, -⟩ := gathering_of_perform reached performs mode nonempty
  rcases h.cases_of_next hstep with ⟨rfl, -⟩ | ⟨es, rfl, hrest⟩
  · exact .inl rfl
  · have hquiet : completions (Place.next a d.args.length) a = [] :=
      completions_of_control performs fun k o ho => by cases ho
    rw [hquiet, List.nil_append]
    exact .inr (hgathering.later reached hrest)

/-- **A group that is settled.**  It has the outcome that all completions up to now call for,
and members that are late are not heard of. -/
theorem settled_of_trail
    (reached : Transition.Reaches (step H context) (State.start host number earlier errand) a)
    (performs : a.control = .perform t goal d) (mode : d.mode = .parallel)
    (nonempty : d.args ≠ []) {w v : State σ} {o : Outcome}
    (h : Transition.Trail (step H context) (completions (Place.next a d.args.length)) a ds w)
    (settled : w.outcome? a.promises.length = some o) (hstep : step H context w = .next v) :
    groupOutcome? d.args.length ds = some o ∧
      (Late (Place.next a d.args.length) w → Unheard (Place.next a d.args.length) w v) := by
  rcases gathering_of_trail reached performs mode nonempty h with rfl | ⟨k, hs⟩
  · simp [State.outcome?] at settled
  · refine ⟨hs.assembled settled, fun late => ?_⟩
    cases late with
    | completes i hi x control =>
      have hv : finish w.toIdle ((Place.next a d.args.length).task i) none x = v := by
        simp only [step, control] at hstep
        exact Transition.next.inj hstep
      rw [← hv]
      exact unheard_of_completes hs.manned hi control
    | notices i hi n rest idle batch ready =>
      rw [step_of_batch H context idle batch ready] at hstep
      rw [← Transition.next.inj hstep]
      exact unheard_of_notices hs.manned.crew settled idle ready

/-- **The outcome of a parallel effect**, under any order of completion.  A task of any loop
performs it.  If the run comes to an end, the completions of the members are what decides it;
once they call for an outcome it does reach the task, unless the loop is ended by another task
or kept from its queue for good; and once the group is settled it has the outcome that all
completions call for, those that come later included, and members that are complete later, or
are noticed later, are not heard of. -/
theorem parallel_outcome
    (reached : Transition.Reaches (step H context) (State.start host number earlier errand) a)
    (performs : a.control = .perform t goal d) (mode : d.mode = .parallel) :
    let g := Place.next a d.args.length
    (∀ ds fate, Transition.Ends (resolve H context t) (completions g) a ds fate →
      GroupDecides H context a t goal d ds fate) ∧
    (∀ ds z o, Transition.Trail (resolve H context t) (completions g) a ds z →
      groupOutcome? d.args.length ds = some o → Gives H context t goal o z) ∧
    ∀ ds w v o, Transition.Trail (step H context) (completions g) a ds w → d.args ≠ [] →
      w.outcome? g.promise = some o → step H context w = .next v →
        groupOutcome? d.args.length ds = some o ∧ v.outcome? g.promise = some o ∧
          (Late g w → Unheard g w v) :=
  ⟨fun _ _ h => groupDecides_of_ends reached performs mode h,
    fun _ _ _ h decided => gives_of_trail reached performs mode h decided,
    fun _ _ _ _ h nonempty settled hstep =>
      (settled_of_trail reached performs mode nonempty h settled hstep).imp_right fun hlate =>
        ⟨outcome_of_step settled hstep, hlate⟩⟩

end

/-- A group and a single value side by side.  The value is there first, and comes second. -/
theorem nested_group_comes_to_lists :
    let context : Value := .record [(.text "x", .int 1)]
    let single : Descriptor := ⟨.direct, [.text "x"], [], none⟩
    let inner : Descriptor := ⟨.parallel, [], [.descriptor single], none⟩
    let d : Descriptor := ⟨.parallel, [], [.descriptor inner, .descriptor single], none⟩
    let start : State (Site (List Request)) :=
      State.start ⟨[], 0, 0⟩ 0 [] (.perform (.descriptor d))
    let ds : List (Nat × Outcome) := [(1, .ok (.int 1)), (0, .ok (.list [.int 1]))]
    let o : Outcome := .ok (.list [.list [.int 1], .int 1])
    ∃ a z, Transition.Reaches (step hasty.still context) start a ∧
      a.control = .perform 0 .answer d ∧
      Transition.Ends (resolve hasty.still context 0) (completions (Place.next a d.args.length)) a
        ds (.answered .answer o z) ∧
      GroupDecides hasty.still context a 0 .answer d ds (.answered .answer o z) := by
  intro context single inner d start ds o
  let a := { start with ready := [], tasks := [⟨.running, 0⟩], control := .perform 0 .answer d }
  have hreached : Transition.Reaches (step hasty.still context) start a :=
    .head (t := { start with batch := 1 }) rfl (.head rfl (.refl _))
  have hwatch : (Transition.watchFor (resolve hasty.still context 0)
      (completions (Place.next a d.args.length)) 30 a).map
      (fun run => (run.1, run.2.answer?)) = some (ds, some (.answer, o)) := by cbv
  obtain ⟨z, hends⟩ := ends_of_watchFor hwatch
  exact ⟨a, z, hreached, rfl, hends, (parallel_outcome hreached rfl rfl).1 _ _ hends⟩

end EventLoop
end DescribedEffects
