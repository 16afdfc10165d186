import DescribedEffects.Proofs.Manners.Effort
import DescribedEffects.Proofs.EventLoop.Stages

/-!
# The outcome of an item arrives

A loop cannot run out of work before the driver has been told of the outcome
(`Sure.not_stuck`).  Suppose that nothing is queued or due.  Then no timer will call
back, no coroutine sleeps, and no task waits for its turn, so all that could still be at work on
a promise is a group.  A group waits for a member that is not complete, the task of the member
waits for a promise that was made later than its own, and that was made later than the group's.
So promises that are open would go on for ever.

Since every step takes something from what there is to do, the outcome arrives after finitely
many steps (`Sure.resolves`), and it is the one that is expected.
-/

namespace DescribedEffects
namespace EventLoop

variable {P S : Type} {K : Callables} {context : Value} {es es' : List Expected} {top : Expected}
  {s u : Loop P S} {C : Programs P} {M : Manner S} {t p q i : Nat} {goal : Goal} {o : Outcome}
  {H : Host (P × Site (Scene S))}

/-! ## Nothing left to do -/

/-- A group that has heard of all completions still waits for a member. -/
theorem Tally.exists_open {g : Place} {ds : List (Nat × Outcome)} {s : Loop P S} (h : Tally g ds s)
    (less : ds.length < g.size) : ∃ i < g.size, s.outcome? (g.member i) = none := by
  by_contra hnone
  have hsub : List.range g.size ⊆ ds.map Prod.fst := by
    intro i hi
    have hlt := List.mem_range.1 hi
    obtain ⟨o, ho⟩ := Option.ne_none_iff_exists'.1 fun h => hnone ⟨i, hlt, h⟩
    rw [h.outcome i hlt] at ho
    exact List.mem_map.2 ⟨(i, o), mem_of_lookup ho, rfl⟩
  have hle := List.Nodup.length_le_of_subset List.nodup_range hsub
  rw [List.length_range, List.length_map] at hle
  omega

section

variable (hs : Tidy K context es top [] none s) (quiet : s.scene.requests = [])
  (groups : ∀ i < s.groups.length, Convened H K context es s i) (ready : s.ready = [])
  (timers : s.timers = [])

include ready timers

theorem not_queued (j : Job) : ¬ Queued [] s j := by
  rintro (h | h | ⟨tm, h, -⟩)
  · cases h
  · rw [ready] at h
    cases h
  · rw [timers] at h
    cases h

include hs

/-- A task has ended or waits for a promise on which somebody is at work. -/
theorem Tidy.task_of_nothing {phase : Phase} (ht : s.tasks[t]? = some ⟨phase, p⟩) :
    (∃ report, phase = .finished report ∧ s.outcome? p ≠ none) ∨
      ∃ q, p < q ∧ s.outcome? q = none ∧ q < s.promises.length ∧ Carried [] none s q := by
  have hnot := not_queued ready timers
  cases hs.tasks t phase p ht with
  | fresh item n minor expects modest recent queued => exact absurd queued (hnot _)
  | watcher i k b minor body announces minds queued => exact absurd queued (hnot _)
  | running goal at_work => cases at_work
  | asleep goal k b body bears queued => exact absurd queued (hnot _)
  | blocked goal q x wants expects later held =>
    cases held with
    | opened ws promise waits carried =>
      refine .inr ⟨q, later, ?_, (List.getElem?_eq_some_iff.1 promise).1, carried⟩
      simp only [State.outcome?, promise, Option.bind_some]
    | there outcome queued => exact absurd queued (hnot _)
  | finished report outcome => exact .inl ⟨report, rfl, outcome⟩

include quiet groups

/-- Nobody is at work on an open promise. -/
theorem Tidy.not_carried (made : q < s.promises.length) (opened : s.outcome? q = none) :
    ¬ Carried [] none s q := by
  have hnot := not_queued ready timers
  -- The induction is on the number of promises that were made later.
  induction hn : s.promises.length - q using Nat.strongRecOn generalizing q with
  | ind left ih =>
    rintro (member | ⟨i, e, effect, promise, claimed, unclaimed⟩ | ⟨o, queued⟩)
    · obtain ⟨i, hi⟩ := List.mem_iff_getElem?.1 member
      rw [List.getElem?_map] at hi
      obtain ⟨group, hgroup, rfl⟩ := Option.map_eq_some_iff.1 hi
      obtain ⟨a, items, n, g, ds, k, rfl, -, gathering, -⟩ :=
        groups i (List.getElem?_eq_some_iff.1 hgroup).1
      obtain ⟨remaining, hcrew⟩ := gathering.manned.crew.group
      rw [hgroup] at hcrew
      obtain rfl := Option.some.inj hcrew
      cases gathering.noticing with
      | settled o outcome assembled =>
        have opened : s.outcome? g.promise = none := opened
        rw [outcome] at opened
        cases opened
      | waiting seen due split count successes tickets more group' opened' =>
        have hdue : due = [] := by simpa [State.tickets, ready] using tickets.symm
        rw [hdue, List.append_nil] at split
        subst split count
        obtain ⟨j, hj, hopen⟩ := gathering.tally.exists_open more
        obtain ⟨phase, htask⟩ := (gathering.manned.crew.parts j hj).exists_task
        rcases hs.task_of_nothing ready timers htask with ⟨report, -, hthere⟩ |
          ⟨r, hlater, hr, hmade, hcarried⟩
        · exact hthere hopen
        · have hmember : g.promise < g.member j := by
            unfold Place.member
            omega
          have hn : s.promises.length - g.promise = left := hn
          exact ih (s.promises.length - r) (by omega) hmade hr rfl hcarried
    · cases hc : e.claimed with
      | true =>
        obtain ⟨error, value, hqueued⟩ := claimed hc
        exact hnot _ hqueued
      | false =>
        cases unclaimed hc with
        | later args queued => exact hnot _ queued
        | watched w watching =>
          cases watching with
          | fresh v p task =>
            cases hs.tasks w _ p task with
            | watcher i k b minor body announces minds queued => exact hnot _ queued
          | asleep k p task =>
            cases hs.tasks w _ p task with
            | asleep goal k b body bears queued => exact hnot _ queued
          | busy goal => cases goal
        | asked error value request =>
          rw [quiet] at request
          cases request
    · exact hnot _ queued

end

/-! ## The outcome -/

section

variable {trace : Option Trace} {captured : Bool} {d : Descriptor} {program : P} {active : List Nat}
  {items : Nat}

/-- While the loop waits for the outcome of an effect it is at work on behalf of the item. -/
theorem isInside_of_awaiting (steady : Steady s)
    (stage : Stage captured trace (.awaiting d program active items) s)
    (unanswered : ∀ goal o, s.control ≠ .outcome 0 goal o) : s.control.isInside = true := by
  have helsewhere : s.control.task? ≠ some 0 := by
    cases stage with
    | awaiting d program active x notes j items engaged current nonempty traced counted =>
      rw [show (x.amid (Prod.mk program) notes active).control.task? = x.control.task? from
        task?_control_amid active x.control]
      cases engaged with
      | waiting phase phase_eq for_ elsewhere => exact elsewhere
      | answered o control =>
        exact absurd (congrArg (Control.amid active) control) (unanswered _ o)
  have hquiet := steady.lone.control
  cases hc : s.control with
  | idle => rfl
  | perform t goal d => rfl
  | outcome t goal o =>
    rw [hc] at helsewhere hquiet
    have hgoal := hquiet t rfl (by rintro rfl; exact helsewhere rfl)
    cases goal with
    | drive j captured => cases hgoal
    | _ => rfl
  | deliver t j captured signal =>
    rw [hc] at helsewhere hquiet
    cases hquiet t rfl (by rintro rfl; exact helsewhere rfl)

/-- **The loop does not run out of work** while the main task waits. -/
theorem Sure.not_stuck (hs : Sure C M K context es top s) (main : Main s) (going : Ongoing s)
    (idle : s.control = .idle) (ready : s.ready = []) (timers : s.timers = []) : False := by
  have htidy := hs.tidy
  rw [idle] at htidy
  obtain ⟨⟨phase, p⟩, htask⟩ : ∃ task, s.tasks[0]? = some task :=
    ⟨_, List.getElem?_eq_getElem going.present⟩
  obtain rfl : p = 0 := (main.tasks 0 _ htask).2 rfl
  rcases htidy.task_of_nothing ready timers htask with ⟨report, -, hthere⟩ |
    ⟨q, -, hopen, hmade, hcarried⟩
  · exact hthere going.outcome
  · exact htidy.not_carried hs.quiet hs.groups ready timers hmade hopen hcarried

/-- **The outcome of an item arrives**, and it is the one that is expected.  The driver is told
of nothing in between. -/
theorem Sure.resolves {es : List Expected} {s : Loop P S} (hs : Sure C M K context es top s)
    (steady : Steady s)
    (stage : Stage captured trace (.awaiting d program active items) s) :
    ∃ es' b j, Transition.Trail (step (C.host (K.world M)) context) (shows C) s [] b ∧ Steady b ∧
      Stage captured trace (.awaiting d program active items) b ∧
        Sure C M K context es' top b ∧ b.control = .outcome 0 (.drive j captured) top.outcome := by
  rcases outcome_step context C (K.world M) steady stage with
    ⟨u, hstep, hshows, hunanswered, hstage⟩ | ⟨o, u, hstep, -, ⟨j, hcontrol⟩, -⟩ |
      ⟨hstep, -, hunanswered⟩
  · have hinside := isInside_of_awaiting steady stage hunanswered
    obtain ⟨es', -, hu⟩ := hs.next hinside hstep
    have hsize : u.debt Plan.size ≤ s.debt Plan.size := by
      cases hs.moves hinside hstep with
      | mk _ _ _ _ _ pays _ => exact pays.size
    have hless := hs.descends hinside hstep
    obtain ⟨es'', b, j, htrail, hrest⟩ := hu.resolves (steady.next hstep) hstage
    refine ⟨es'', b, j, ?_, hrest⟩
    have hall := Transition.Trail.head hstep htrail
    rwa [hshows] at hall
  · have haims := hs.aims
    rw [hcontrol] at haims
    cases haims with
    | outcome _ _ _ due =>
      cases due with
      | expected _ p x task wants there =>
        cases wants with
        | drive j captured main => exact ⟨es, s, j, .refl s, steady, stage, hs, hcontrol⟩
  · obtain ⟨hidle, ⟨o, hfinished, -⟩ | ⟨-, hopen, hready, htimers⟩⟩ :=
      ends_of_main steady.main hstep
    · cases hfinished
    · exact (hs.not_stuck steady.main ⟨steady.main.present, steady.main.made, hopen⟩ hidle hready
        htimers).elim
termination_by (s.debt Plan.size, s.effort)
decreasing_by
  rw [Prod.lex_def]
  simp only
  omega

end

end EventLoop
end DescribedEffects
