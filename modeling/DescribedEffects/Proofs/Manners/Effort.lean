import DescribedEffects.Proofs.Manners.Steps

/-!
# How long an item takes

While an item is performed every step of the loop takes something from what there is to do.  An
effect that begins takes from the size of what has not begun, and may make any amount of work.
Every other step takes from the work at hand (`State.effort`): a job is run, a timer goes off, an
outcome is dealt with, a coroutine has slept, or an effect is claimed.

* A turn of a task takes two units, since it can bring an outcome that is still to be dealt with.
  Every other job takes one, and one more as long as it is only due.
* An effect that nobody has claimed stands for the job that is queued with the claim, and a sleep
  of a coroutine for the timer that is set.
* The queue is looked at between batches.  Since that does nothing by itself, a state in which it
  is next counts for half a unit (`State.slack`).
-/

namespace DescribedEffects

/-- How often coroutines still sleep. -/
def Scene.naps {S : Type} (w : Scene S) : Nat := (w.bodies.map Body.naps).sum

namespace EventLoop

variable {P S : Type} {K : Callables} {context : Value} {es es' : List Expected} {top : Expected}
  {s m u : Loop P S} {C : Programs P} {M : Manner S} {t p q i : Nat} {goal : Goal} {o : Outcome}
  {hand : List Job} {busy : Option (Nat × Goal)}

/-! ## Work -/

/-- What it takes to run a job. -/
def Job.cost : Job → Nat
  | .step _ => 2
  | _ => 1

/-- What it takes to run several jobs. -/
def costs (jobs : List Job) : Nat := (jobs.map Job.cost).sum

/-- What it takes to go on. -/
def Control.cost : Control → Nat
  | .outcome .. => 1
  | _ => 0

/-- What an effect stands for. -/
def PendingEffect.cost (e : PendingEffect) : Nat := if e.claimed then 0 else 2

/-- What is queued, due, waiting for promises, or going on beside the loop. -/
def State.work (s : Loop P S) : Nat :=
  costs s.ready + (s.timers.map fun tm => tm.job.cost + 1).sum +
    (s.promises.map fun pr => costs pr.waiters).sum +
    (s.effects.map PendingEffect.cost).sum + 2 * s.scene.naps

/-- The queue is to be looked at. -/
def State.slack {σ : Type} (s : State σ) : Nat :=
  match s.batch, s.ready with
  | 0, _ :: _ => 1
  | _ + 1, [] => 1
  | _, _ => 0

/-- All that is to be done if no effect begins. -/
def State.effort (s : Loop P S) : Nat := 2 * (s.work + s.control.cost) + s.slack

theorem slack_le {σ : Type} (s : State σ) : s.slack ≤ 1 := by
  unfold State.slack
  split <;> omega

theorem costs_append (js ks : List Job) : costs (js ++ ks) = costs js + costs ks := by
  unfold costs
  rw [List.map_append, List.sum_append]

theorem costs_cons (j : Job) (js : List Job) : costs (j :: js) = j.cost + costs js := by
  unfold costs
  rw [List.map_cons, List.sum_cons]

theorem work_enqueue (s : Loop P S) (j : Job) : (s.enqueue j).work = s.work + j.cost := by
  have hready : costs (s.enqueue j).ready = costs s.ready + j.cost :=
    (costs_append s.ready [j]).trans (by rw [costs_cons]; rfl)
  unfold State.work
  rw [hready]
  show _ + (s.timers.map fun tm => tm.job.cost + 1).sum +
    (s.promises.map fun pr => costs pr.waiters).sum +
    (s.effects.map PendingEffect.cost).sum + 2 * s.scene.naps = _
  omega

theorem work_setTimer (s : Loop P S) (n : Nat) (j : Job) :
    (s.setTimer n j).work = s.work + j.cost + 1 := by
  have htimers : ((s.setTimer n j).timers.map fun tm => tm.job.cost + 1).sum =
      (s.timers.map fun tm => tm.job.cost + 1).sum + (j.cost + 1) := by
    have hall := List.takeWhile_append_dropWhile
      (p := fun t : Timer => decide (t.due ≤ s.clock + n)) (l := s.timers)
    conv_rhs => rw [← hall]
    simp only [State.setTimer, List.span_eq_takeWhile_dropWhile, List.map_append, List.map_cons,
      List.sum_append, List.sum_cons]
    omega
  unfold State.work
  rw [htimers]
  show costs s.ready + _ + (s.promises.map fun pr => costs pr.waiters).sum +
    (s.effects.map PendingEffect.cost).sum + 2 * s.scene.naps = _
  omega

/-- Those that waited for a promise are queued when it is completed. -/
theorem work_complete (s : Loop P S) (q : Nat) (o : Outcome) : (s.complete q o).work = s.work := by
  rcases s.complete_cases q o with ⟨_, hq, hu⟩ | hu <;> rw [hu]
  have hpromises := sum_map_set (fun pr : Promise => costs pr.waiters) hq ⟨some o, []⟩
  have hnone : costs [] = 0 := rfl
  simp only [hnone] at hpromises
  unfold State.work
  dsimp only
  rw [costs_append]
  show _ + _ + _ + _ + 2 * s.scene.naps = _
  omega

/-- A claim takes what the effect stands for. -/
theorem work_claim {e : PendingEffect} (he : s.effects[i]? = some e) (hc : e.claimed = false) :
    (s.claim i).2.work + 2 = s.work := by
  rw [State.claim_of_unclaimed he hc]
  have heffects := sum_map_set PendingEffect.cost he { e with claimed := true }
  have hold : e.cost = 2 := by simp [PendingEffect.cost, hc]
  have hnew : PendingEffect.cost { e with claimed := true } = 0 := rfl
  rw [hold, hnew] at heffects
  unfold State.work
  show costs s.ready + (s.timers.map fun tm => tm.job.cost + 1).sum +
    (s.promises.map fun pr => costs pr.waiters).sum +
      ((s.effects.set i { e with claimed := true }).map PendingEffect.cost).sum +
        2 * s.scene.naps + 2 = _
  omega

theorem work_claim_le (s : Loop P S) (i : Nat) : (s.claim i).2.work ≤ s.work := by
  cases he : s.effects[i]? with
  | none =>
    rw [State.claim_of_claimed fun e h => by rw [he] at h; cases h]
  | some e =>
    cases hc : e.claimed with
    | true => rw [State.claim_of_claimed fun e' h => by rw [he] at h; cases h; exact hc]
    | false =>
      have hclaim := work_claim he hc
      omega

theorem work_setPhase (s : Loop P S) (t : Nat) (phase : Phase) :
    (s.setPhase t phase).work = s.work := by
  rw [State.setPhase_frame]
  rfl

/-- What goes on beside the loop matters by its naps. -/
theorem work_beside (s : Loop P S) (w : Scene S) :
    (s.beside w).work + 2 * s.scene.naps = s.work + 2 * w.naps := by
  unfold State.work
  show costs s.ready + (s.timers.map fun tm => tm.job.cost + 1).sum +
    (s.promises.map fun pr => costs pr.waiters).sum + (s.effects.map PendingEffect.cost).sum +
      2 * w.naps + 2 * s.scene.naps = _
  omega

/-- To report a completion is no work, but a claim. -/
theorem work_grant (s : Loop P S) (run i : Nat) (error value : Value) :
    (grant s (.complete run i error value)).work ≤ s.work := by
  unfold grant
  dsimp only
  split
  · cases he : s.effects[i]? with
    | none =>
      rw [State.claim_of_claimed fun e h => by rw [he] at h; cases h]
      exact Nat.le_refl _
    | some e =>
      cases hc : e.claimed with
      | true =>
        rw [State.claim_of_claimed fun e' h => by rw [he] at h; cases h; exact hc]
        exact Nat.le_refl _
      | false =>
        have hclaim := work_claim he hc
        have hcost : (Job.settle i error value).cost = 1 := rfl
        rw [State.claim_of_unclaimed he hc] at hclaim ⊢
        rw [if_pos rfl, work_enqueue, hcost]
        omega
  · exact Nat.le_refl _

variable (K C M) in
/-- Reports of completions are no work. -/
theorem work_grantAll (h : ∀ r ∈ s.scene.requests, Reports es s r) :
    (grantAll (C.host (K.world M)) s).work ≤ s.work := by
  have hfold : ∀ (rs : List Request) (v : Loop P S), (∀ r ∈ rs, Reports es s r) →
      (rs.foldl grant v).work ≤ v.work := by
    intro rs
    induction rs with
    | nil => exact fun v _ => Nat.le_refl _
    | cons r rs ih =>
      intro v hrs
      obtain ⟨i, o, -, rfl⟩ := hrs r (List.mem_cons_self ..)
      exact (ih _ fun r hr => hrs r (List.mem_cons_of_mem _ hr)).trans (work_grant v ..)
  have hdrained : (s.beside { s.scene with requests := [] }).work = s.work := rfl
  rw [← hdrained]
  exact hfold s.scene.requests _ h

variable (C M) in
/-- To hear of threads is no work. -/
theorem work_hear (hs : Tidy K context es top hand busy s) :
    (grantAll (C.host (K.world M)) (s.beside (s.scene.listen M))).work ≤ s.work := by
  obtain ⟨hlasts, htidy⟩ := hs.listen M
  exact work_grantAll K C M htidy.requests

/-! ## Turns of tasks -/

/-- What a coroutine that a task awaits has to report is a completion. -/
theorem Bears.reports {b : Body} (h : Bears es top s t p b goal) {r : Request}
    (hr : b.report = some r) : Reports es s r := by
  cases h with
  | direct goal wants report => rw [report] at hr; cases hr
  | watch i announces minds =>
    cases announces with
    | reports o intends report ends =>
      rw [report] at hr
      exact ⟨i, o, intends, (Option.some.inj hr).symm⟩
    | reported heard report ends => rw [report] at hr; cases hr
    | fails e intends report ends => rw [report] at hr; cases hr

variable (C M) in
/-- **A coroutine that goes on** takes one of its naps, or comes to an end. -/
theorem work_coroutine (hs : Tidy K context es top hand (some (t, goal)) s) {k : Nat} {b : Body}
    (body : s.scene.bodies[k]? = some b) (bears : Bears es top s t p b goal) :
    let u := advance (grantAll (C.host (K.world M))
      (s.beside ((s.scene.proceed k).2.listen M))) t goal k (s.scene.proceed k).1
    u.work + u.control.cost ≤ s.work + 1 := by
  intro u
  obtain ⟨progress, b', reports, hproceed, -, hreport, hprogress⟩ := proceed_cases body
  simp only [u, hproceed]
  let w : Scene S := { s.scene with
    bodies := s.scene.bodies.set k b'
    requests := s.scene.requests ++ reports }
  let v : Loop P S := grantAll (C.host (K.world M)) (s.beside (w.listen M))
  have hnaps : w.naps + b.naps = s.scene.naps + b'.naps := sum_map_set Body.naps body b'
  have hrequests : ∀ r ∈ (s.beside (w.listen M)).scene.requests, Reports es s r := by
    intro r hr
    rcases List.mem_append.1 hr with hr | hr
    · rcases List.mem_append.1 hr with hr | hr
      · exact hs.requests r hr
      · refine bears.reports ?_
        rcases hreport with ⟨-, rfl⟩ | ⟨-, rfl⟩
        · cases hr
        · exact Option.mem_toList.1 hr
    · exact hs.threads r (List.mem_of_mem_filter hr)
  have hgranted : v.work + 2 * b.naps ≤ s.work + 2 * b'.naps := by
    have hbeside : (s.beside (w.listen M)).work + 2 * s.scene.naps = s.work + 2 * w.naps :=
      work_beside s (w.listen M)
    have hall : v.work ≤ (s.beside (w.listen M)).work := work_grantAll K C M hrequests
    omega
  show (advance v t goal k progress).work + (advance v t goal k progress).control.cost ≤ s.work + 1
  rcases hprogress with ⟨n, rfl, hless⟩ | ⟨rfl, -, hsame⟩
  · cases n with
    | zero =>
      show ((v.setPhase t (.asleep goal k)).enqueue (.step t)).work + 0 ≤ _
      rw [work_enqueue, work_setPhase]
      have hcost : (Job.step t).cost = 2 := rfl
      omega
    | succ n =>
      show ((v.setPhase t (.asleep goal k)).setTimer (n + 1) (.step t)).work + 0 ≤ _
      rw [work_setTimer, work_setPhase]
      have hcost : (Job.step t).cost = 2 := rfl
      omega
  · show v.work + 1 ≤ s.work + 1
    omega

variable (C M) in
/-- **The turn of a task** takes less than what it was queued for, or its item is refused. -/
theorem work_stepTask (hs : Tidy K context es top [.step t] none s) (idle : s.control = .idle)
    (quiet : s.scene.requests = [])
    (single : s.host.2.minted + s.debt (Plan.mints K context) ≤ 1) :
    let u := stepTask (C.host (K.world M)) s t
    u.debt Plan.size < s.debt Plan.size ∨ u.work + u.control.cost ≤ s.work + 1 := by
  intro u
  have hturns : Turns C M K context es top s t u := turns_stepTask C M hs t
  generalize u = v at hturns ⊢
  cases hturns with
  | refused item m n p task parse expects recent =>
    exact .inl (moves_refused C M idle quiet hs single task parse expects recent).2
  | performs item d n p task parse expects modest recent =>
    refine .inr ?_
    show (s.setPhase t .running).work + 0 ≤ _
    rw [work_setPhase]
    omega
  | awaits phase goal k b p task stands body bears =>
    obtain ⟨htidy, b', hb', hbears⟩ := hs.resumes task stands body bears
    have hwork := work_coroutine C M htidy hb' hbears
    rw [scene_setPhase, work_setPhase] at hwork
    exact .inr hwork
  | arrives goal q p o x task wants expects later outcome =>
    refine .inr ?_
    show (s.setPhase t .running).work + 1 ≤ _
    rw [work_setPhase]
  | stays done =>
    refine .inr ?_
    rw [idle]
    exact Nat.le_succ _

/-- A task that is complete is no more work. -/
theorem work_finish (s : Loop P S) (t : Nat) (report : Option Report) (o : Outcome) :
    (finish s t report o).work = s.work ∧ (finish s t report o).control = .idle := by
  unfold finish
  split
  · refine ⟨?_, rfl⟩
    show ((s.setPhase t (.finished report)).complete _ o).work = s.work
    rw [work_complete, work_setPhase]
  · exact ⟨rfl, rfl⟩

theorem work_finishWatch (s : Loop P S) (t i : Nat) (o : Outcome) :
    (finishWatch s t i o).work ≤ s.work ∧ (finishWatch s t i o).control = .idle := by
  have hfinish : ∀ (v : Loop P S) (o' : Outcome), v.work ≤ s.work →
      (finish v t none o').work ≤ s.work ∧ (finish v t none o').control = .idle := by
    intro v o' hv
    obtain ⟨hwork, hidle⟩ := work_finish v t none o'
    exact ⟨by omega, hidle⟩
  cases o with
  | ok v => exact hfinish s _ (Nat.le_refl _)
  | error e =>
    by_cases he : e.isOrdinary = true
    · cases heffect : s.effects[i]? with
      | none =>
        simp only [finishWatch, if_pos he, heffect]
        exact hfinish s _ (Nat.le_refl _)
      | some pending =>
        simp only [finishWatch, if_pos he, heffect]
        refine hfinish _ _ ?_
        by_cases hfirst : (s.claim i).1 = true
        · rw [if_pos hfirst, work_complete]
          exact work_claim_le s i
        · rw [if_neg hfirst]
          exact work_claim_le s i
    · simp only [finishWatch, if_neg he]
      exact hfinish s _ (Nat.le_refl _)

/-- To notice a member is no work. -/
theorem work_notice (s : Loop P S) (i m : Nat) : (notice s i m).work = s.work := by
  unfold notice
  split
  · exact work_complete ..
  · dsimp only
    split
    · split
      · exact work_complete ..
      · rfl
    · rfl
  · rfl

/-! ## Every step -/

variable (C M) in
/-- **A job takes less than what it was queued for**, or it refuses an item. -/
theorem work_runJob {j : Job} (hs : Tidy K context es top [j] none s) (idle : s.control = .idle)
    (quiet : s.scene.requests = [])
    (single : s.host.2.minted + s.debt (Plan.mints K context) ≤ 1) :
    let u := runJob (C.host (K.world M)) s j
    u.debt Plan.size < s.debt Plan.size ∨ u.work + u.control.cost < s.work + j.cost := by
  intro u
  have hidle : s.control.cost = 0 := by rw [idle]; rfl
  have hcomplete : ∀ q o, (s.complete q o).work + (s.complete q o).control.cost < s.work + 1 := by
    intro q o
    rw [work_complete, control_complete, hidle]
    exact Nat.lt_succ_self _
  cases j with
  | step t =>
    refine (work_stepTask C M hs idle quiet single).imp id fun h => ?_
    exact Nat.lt_of_le_of_lt h (Nat.lt_succ_self _)
  | notice i m =>
    refine .inr ?_
    show (notice s i m).work + (notice s i m).control.cost < s.work + 1
    rw [work_notice, (kept_notice s i m).2.1, hidle]
    exact Nat.lt_succ_self _
  | settle i error value =>
    obtain ⟨e, o, -, -, hsettle⟩ := hs.settling (C.host (K.world M))
    refine .inr ?_
    show (settle _ s i error value).work + (settle _ s i error value).control.cost < s.work + 1
    rw [hsettle]
    exact hcomplete _ _
  | fulfil q o => exact .inr (hcomplete q o)
  | invoke f args =>
    obtain ⟨i, o, -, hintends, hrun⟩ := hs.invoking C M quiet
    obtain ⟨-, htidy, -⟩ := hs.grantReport ⟨i, o, hintends, rfl⟩
    have hheard := work_hear C M htidy
    have hgrant := work_grant s s.run i (errorOf o) (valueOf o)
    have hcontrol : u.control.cost = 0 := by
      simp only [u, hrun]
      rw [control_grantAll]
      exact (congrArg Control.cost (kept_grant s _).2).trans hidle
    have hu : u.work ≤ s.work := by
      simp only [u, hrun]
      exact hheard.trans hgrant
    refine .inr ?_
    have hcost : (Job.invoke f args).cost = 1 := rfl
    omega
  | stop =>
    refine .inr ?_
    show s.work + s.control.cost < s.work + 1
    omega

/-- A job is taken off the queue. -/
theorem work_of_pop {j : Job} {rest : List Job} (hr : s.ready = j :: rest) (n : Nat) :
    s.work = State.work { s with ready := rest, batch := n } + j.cost := by
  unfold State.work
  rw [hr, costs_cons]
  show _ = costs rest + (s.timers.map fun tm => tm.job.cost + 1).sum +
    (s.promises.map fun pr => costs pr.waiters).sum +
    (s.effects.map PendingEffect.cost).sum + 2 * s.scene.naps + j.cost
  omega

/-- A timer goes off. -/
theorem work_of_clock {timer : Timer} {later : List Timer} (hr : s.ready = [])
    (ht : s.timers = timer :: later) :
    State.work { s with clock := timer.due, ready := [timer.job], timers := later } + 1 =
      s.work := by
  unfold State.work
  rw [hr, ht, List.map_cons, List.sum_cons, costs_cons]
  show timer.job.cost + 0 + (later.map fun tm => tm.job.cost + 1).sum +
    (s.promises.map fun pr => costs pr.waiters).sum +
    (s.effects.map PendingEffect.cost).sum + 2 * s.scene.naps + 1 = 0 + _ + _ + _ + _
  omega

/-- The loop looks at its queue. -/
theorem effort_of_batch {n : Nat} (before : s.slack = 1)
    (now : State.slack { s with batch := n } = 0) :
    State.effort { s with batch := n } < s.effort := by
  unfold State.effort
  rw [now, before]
  exact Nat.lt_succ_self _

/-- A step takes something when nothing is under way. -/
theorem Sure.descends_idle (hs : Sure C M K context es top s) (idle : s.control = .idle)
    (hstep : step (C.host (K.world M)) context s = .next u) :
    u.debt Plan.size < s.debt Plan.size ∨ u.effort < s.effort := by
  have hslack := slack_le u
  have htidy := hs.tidy
  rw [idle] at htidy
  have hcost : s.control.cost = 0 := by rw [idle]; rfl
  rw [step_of_idle _ _ idle] at hstep
  unfold stepIdle at hstep
  split at hstep
  · next n j rest hb hr =>
    have hjob := work_runJob C M (htidy.take hr n) idle hs.quiet hs.single
    rw [show runJob _ _ j = u from Transition.next.inj hstep] at hjob
    refine hjob.imp id fun h => ?_
    have hwork := work_of_pop hr n
    unfold State.effort
    omega
  · next n hb hr =>
    rw [← Transition.next.inj hstep]
    exact .inr (effort_of_batch (by simp [State.slack, hb, hr]) (by simp [State.slack, hr]))
  · next hb =>
    split at hstep
    · split at hstep <;> cases hstep
    · split at hstep
      · next j rest hr =>
        rw [← Transition.next.inj hstep]
        exact .inr (effort_of_batch (by simp [State.slack, hb, hr]) (by simp [State.slack, hr]))
      · next timer later hr ht =>
        have hu := Transition.next.inj hstep
        have hwork := work_of_clock hr ht
        rw [hu] at hwork
        have hsame : u.control.cost = s.control.cost := by rw [← hu]
        refine .inr ?_
        unfold State.effort
        omega
      · cases hstep

/-- **Every step takes something**, while an item is performed. -/
theorem Sure.descends (hs : Sure C M K context es top s) (inside : s.control.isInside = true)
    (hstep : step (C.host (K.world M)) context s = .next u) :
    u.debt Plan.size < s.debt Plan.size ∨ u.effort < s.effort := by
  have hslack := slack_le u
  cases hc : s.control with
  | idle => exact hs.descends_idle hc hstep
  | perform t goal d =>
    have htidy := hs.tidy
    have haims := hs.aims
    rw [hc] at htidy haims
    simp only [step, hc] at hstep
    rw [← Transition.next.inj hstep]
    exact .inl (moves_perform C M htidy hc hs.quiet hs.arises.sound hs.single haims).2
  | outcome t goal o =>
    rw [hc] at inside
    have hcost : s.control.cost = 1 := by rw [hc]; rfl
    simp only [step, hc] at hstep
    have hdone : u.work ≤ s.work ∧ u.control = .idle := by
      cases goal with
      | answer =>
        rw [← Transition.next.inj hstep]
        exact ⟨Nat.le_of_eq (work_finish s.toIdle t none o).1, (work_finish s.toIdle t none o).2⟩
      | watch i =>
        rw [← Transition.next.inj hstep]
        exact work_finishWatch s.toIdle t i o
      | drive j captured => cases inside
    have hnow : u.control.cost = 0 := by rw [hdone.2]; rfl
    refine .inr ?_
    unfold State.effort
    omega
  | deliver t j captured signal =>
    rw [hc] at inside
    cases inside

end EventLoop
end DescribedEffects
