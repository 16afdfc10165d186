import DescribedEffects.Proofs.Driving.Tandem
import DescribedEffects.Proofs.Harness.Dialogues

/-!
# Tests in tandem

A stack of computations is tested as a single computation is that makes the pauses of the
stack (`Tandem`), in a run without verdicts.  One direction goes through the dialogue, which
the harness is then (`single_of_test`).  The other one follows the test of the single
computation and lets the stack catch up before every answer (`test_of_single`).
-/

namespace DescribedEffects

theorem Calm.outward {es : List Event} (h : Calm es) : Calm (outward es) :=
  fun ev hev => h ev (List.mem_filter.1 hev).1

/-- What computations are told is always calm. -/
theorem calm_untold {es : List Event} : Calm (untold es) ↔ Calm es := by
  constructor
  · intro h ev hev
    cases hold : ev.isTold with
    | true =>
      cases ev with
      | told g signal => rfl
      | _ => cases hold
    | false => exact h ev (List.mem_filter.2 ⟨hev, by rw [hold]; rfl⟩)
  · exact fun h ev hev => h ev (List.mem_filter.1 hev).1

/-- What is left to tell apart is what inner computations leave to outer ones. -/
theorem calm_of_outward {es : List Event} (h : Calm (outward es))
    (passed : ∀ e, .passed e ∈ es → (!e.isVerdict) = true) : Calm es := by
  intro ev hev
  cases hold : ev.isAside with
  | true =>
    cases ev with
    | told g signal => rfl
    | passed e => exact passed e hev
    | _ => cases hold
  | false => exact h ev (List.mem_filter.2 ⟨hev, by rw [hold]; rfl⟩)

namespace Harness

/-- An exception that a computation under test is told when an inner computation ends with
it. -/
def isDeliverable (e : Exn) : Bool := e.isOrdinary && !e.isVerdict

variable {P P' W : Type} {C : Programs P} {C' : Programs P'} {V : World W}
  {M : Solo P → Solo P' → Prop} {matchArgs : Bool} {k : Desk W} {q u : Solo P} {q' : Solo P'}

/-- Two tests that ended alike, with different computations. -/
def Ending.Alike (r : Ending (P × Site W)) (r' : Ending (P' × Site W)) : Prop :=
  ∃ (o : Outcome) (p : P) (p' : P') (k : Desk W), r = ending o p k ∧ r' = ending o p' k

/-- **The single computation is tested as the stack is.** -/
theorem single_of_test (h : Tandem C C' M) (hq : M q q') {ls : List Event}
    {r : Ending (P × Site W)}
    (ends : Transition.Ends (step (C.host V) matchArgs) (shows C V matchArgs)
      (place q.programs q.active k (.deliver q.signal)) ls r)
    (calm : Calm ls) (tame : ∀ e, .passed e ∈ ls → e.isOrdinary = true) :
    ∃ ls' r', Transition.Ends (step (C'.host V) matchArgs) (shows C' V matchArgs)
        (place q'.programs q'.active k (.deliver q'.signal)) ls' r' ∧
      untold ls' = outward ls ∧ r.Alike r' := by
  obtain ⟨o, p, p₁, k', rfl, hdialogue⟩ := dialogue_of_ends C V ends calm (h.active q q' hq)
  obtain ⟨ls', E', hends, hls, halike⟩ := h.single_of_dialogue hdialogue tame hq
  have hcalm : Calm ls' := calm_untold.1 (hls ▸ calm.outward)
  cases halike with
  | ended o p p' k' =>
    have hactive : q'.active ≠ [] := by
      obtain ⟨g, hg⟩ := h.single q q' hq
      rw [hg]
      exact List.cons_ne_nil _ _
    obtain ⟨p'', htest⟩ := ends_of_dialogue C' V hends hcalm hactive rfl
    exact ⟨ls', _, htest, hls, o, p₁, p'', k', rfl, rfl⟩

/-! ## The stack catches up -/

/-- A stack on its own is calm. -/
theorem calm_of_tame
    (tame : Tame isDeliverable (step (C.host V) matchArgs) (shows C V matchArgs)
      (place q.programs q.active k (.deliver q.signal))) : Calm (Solo.shows C q) := by
  intro ev hev
  have haside : ev.isAside = true := by
    by_contra hopen
    have hmem : ev ∈ outward (Solo.shows C q) :=
      List.mem_filter.2 ⟨hev, by rw [Bool.eq_false_iff.2 hopen]; rfl⟩
    rw [outward_shows] at hmem
    cases hmem
  cases ev with
  | told g signal => rfl
  | passed e =>
    have hdeliverable := tame _ (.refl _) e (List.mem_append_left _ hev)
    exact (Bool.and_eq_true_iff.1 hdeliverable).2
  | _ => cases haside

/-- The harness follows a stack until it pauses. -/
theorem trail_of_solo (hu : Transition.Reaches (Solo.step C) q u) (active : q.active ≠ [])
    (tame : Tame isDeliverable (step (C.host V) matchArgs) (shows C V matchArgs)
      (place q.programs q.active k (.deliver q.signal))) :
    Transition.Trail (step (C.host V) matchArgs) (fun s => outward (shows C V matchArgs s))
        (place q.programs q.active k (.deliver q.signal)) []
        (place u.programs u.active k (.deliver u.signal)) ∧ u.active ≠ [] := by
  induction hu with
  | refl q => exact ⟨.refl _, active⟩
  | @head q r u first _ ih =>
    have hshows : Dialogue.shows C (partner V matchArgs) ⟨q, k⟩ = Solo.shows C q :=
      Dialogue.shows_of_next first
    have hfollows : Follows C V matchArgs q k _ :=
      follows_step C V active (by rw [hshows]; exact calm_of_tame tame)
    rw [Dialogue.step_of_next first] at hfollows
    obtain ⟨t, ht, htrail⟩ := hfollows
    have hall : Transition.Trail _ (shows C V matchArgs) _ _ _ := .head ht htrail
    obtain ⟨hrest, hactive⟩ := ih (Solo.active_of_step first) (tame.reaches hall.reaches)
    have hfirst : Transition.Trail (step (C.host V) matchArgs)
        (fun s => outward (shows C V matchArgs s)) _
        (outward (Dialogue.shows C (partner V matchArgs) ⟨q, k⟩ ++ [])) _ :=
      hall.filter fun ev : Event => !ev.isAside
    rw [hshows, List.append_nil, outward_shows] at hfirst
    exact ⟨hfirst.trans hrest, hactive⟩

/-- The stack comes to the pause that the single computation is about to make. -/
theorem pause_of_tame (h : Tandem C C' M) (pausing : Pausing C M) (hq : M q q')
    (tame : Tame isDeliverable (step (C.host V) matchArgs) (shows C V matchArgs)
      (place q.programs q.active k (.deliver q.signal))) :
    ∃ u pause pause', Transition.Trail (step (C.host V) matchArgs)
        (fun s => outward (shows C V matchArgs s))
        (place q.programs q.active k (.deliver q.signal)) []
        (place u.programs u.active k (.deliver u.signal)) ∧ M u q' ∧
      Solo.step C u = .done pause ∧ Solo.step C' q' = .done pause' ∧ pause.Alike M pause' := by
  have hfollowed := fun u (hu : Transition.Reaches (Solo.step C) q u) =>
    trail_of_solo hu (h.active q q' hq) tame
  have htame : Tame ExnOf.isOrdinary (Solo.step C) (Solo.shows C) q := by
    intro u hu e he
    have hdeliverable := tame _ (hfollowed u hu).1.reaches e (List.mem_append_left _ he)
    exact (Bool.and_eq_true_iff.1 hdeliverable).1
  obtain ⟨ls, pause, hends⟩ := pausing q q' hq htame
  obtain ⟨u, ms, hu, hpause, -⟩ := hends.exists_trail
  have hrelated := h.reaches hq htame hu.reaches
  have hstep := h.step u q' hrelated (htame u hu.reaches)
  rw [hpause] at hstep
  obtain ⟨pause', hpause', halike⟩ := hstep
  exact ⟨u, pause, pause', (hfollowed u hu.reaches).1, hrelated, hpause, hpause', halike⟩

/-- **A step of the single computation in its dialogue.**  The stack catches up and gets the
same answer. -/
theorem catch_up (h : Tandem C C' M) (pausing : Pausing C M) (hq : M q q')
    (calm : Calm (Dialogue.shows C' (partner V matchArgs) ⟨q', k⟩))
    (tame : Tame isDeliverable (step (C.host V) matchArgs) (shows C V matchArgs)
      (place q.programs q.active k (.deliver q.signal))) :
    (Dialogue.step C' (partner V matchArgs) ⟨q', k⟩).Leads
      (fun D' => ∃ q₁, M q₁ D'.solo ∧ Transition.Trail (step (C.host V) matchArgs)
        (fun s => outward (shows C V matchArgs s))
        (place q.programs q.active k (.deliver q.signal))
        (untold (Dialogue.shows C' (partner V matchArgs) ⟨q', k⟩))
        (place q₁.programs q₁.active D'.partner (.deliver q₁.signal)))
      (fun E => ∀ o p' k', E = .ended o p' k' → ∃ p, Transition.Ends (step (C.host V) matchArgs)
        (fun s => outward (shows C V matchArgs s))
        (place q.programs q.active k (.deliver q.signal))
        (untold (Dialogue.shows C' (partner V matchArgs) ⟨q', k⟩)) (ending o p k')) := by
  obtain ⟨u, pause, pause', htrail, hrelated, hpause, hpause', halike⟩ :=
    pause_of_tame h pausing hq tame
  have hshows := h.shows_of_pause (A := partner V matchArgs) (y := k) hrelated hpause hpause' halike
  have hcalm : Calm (Dialogue.shows C (partner V matchArgs) ⟨u, k⟩) := by
    rw [Dialogue.shows_of_pause hpause'] at calm
    rw [Dialogue.shows_of_pause hpause, halike.answers]
    exact (calm_of_tame (tame.reaches htrail.reaches)).append calm.right
  have hfollows := follows_step C V (h.active u q' hrelated) hcalm
  have hresolve := halike.resolve (partner V matchArgs) k
  rw [Dialogue.step_of_pause hpause] at hfollows
  rw [Dialogue.step_of_pause hpause', ← hshows]
  cases hanswer : Dialogue.resolve (partner V matchArgs) k pause with
  | next D =>
    rw [hanswer] at hresolve hfollows
    obtain ⟨q₁', hnext', hrelated'⟩ := hresolve
    obtain ⟨t, ht, hquiet⟩ := hfollows
    rw [hnext']
    have hall := (Transition.Trail.head ht hquiet).filter fun ev : Event => !ev.isAside
    rw [List.append_nil] at hall
    exact ⟨D.solo, hrelated', htrail.trans hall⟩
  | done E =>
    rw [hanswer] at hresolve hfollows
    obtain ⟨E', hdone', hends'⟩ := hresolve
    rw [hdone']
    rintro o p' k' rfl
    cases hends' with
    | ended o p p' k' =>
      obtain ⟨p'', hends⟩ := hfollows o p k' rfl
      exact ⟨p'', htrail.ends (hends.filter fun ev : Event => !ev.isAside)⟩

/-- **The stack is tested as the single computation is**, if it always comes to its next
pause. -/
theorem test_of_single (h : Tandem C C' M) (pausing : Pausing C M) (hq : M q q')
    {ls' : List Event} {r' : Ending (P' × Site W)}
    (ends : Transition.Ends (step (C'.host V) matchArgs) (shows C' V matchArgs)
      (place q'.programs q'.active k (.deliver q'.signal)) ls' r')
    (calm : Calm ls')
    (tame : Tame isDeliverable (step (C.host V) matchArgs) (shows C V matchArgs)
      (place q.programs q.active k (.deliver q.signal))) :
    ∃ ls r, Transition.Ends (step (C.host V) matchArgs) (shows C V matchArgs)
        (place q.programs q.active k (.deliver q.signal)) ls r ∧
      untold ls' = outward ls ∧ r.Alike r' := by
  have hactive : q'.active ≠ [] := by
    obtain ⟨g, hg⟩ := h.single q q' hq
    rw [hg]
    exact List.cons_ne_nil _ _
  obtain ⟨o, p', p₁', k', rfl, hdialogue⟩ := dialogue_of_ends C' V ends calm hactive
  obtain ⟨D, hD⟩ : ∃ D : Dialogue P' (Desk W), D = ⟨q', k⟩ := ⟨_, rfl⟩
  obtain ⟨E, hE⟩ : ∃ E : Dialogue.Ending P' (Desk W), E = .ended o p' k' := ⟨_, rfl⟩
  rw [← hD, ← hE] at hdialogue
  obtain ⟨p, hends⟩ : ∃ p, Transition.Ends (step (C.host V) matchArgs)
      (fun s => outward (shows C V matchArgs s))
      (place q.programs q.active k (.deliver q.signal)) (untold ls') (ending o p k') := by
    clear ends hactive
    induction hdialogue generalizing q q' k with
    | last final =>
      subst hD hE
      have hcaught := catch_up h pausing hq calm tame
      rw [final] at hcaught
      exact hcaught o p' k' rfl
    | @more D D' ls E first _ ih =>
      subst hD
      have hcaught := catch_up h pausing hq calm.left tame
      rw [first] at hcaught
      obtain ⟨q₁, hrelated, htrail⟩ := hcaught
      obtain ⟨p, hends⟩ := ih hrelated calm.right (tame.reaches htrail.reaches) rfl hE
      rw [untold_append]
      exact ⟨p, htrail.ends hends⟩
  obtain ⟨ls, hends, hls⟩ := hends.of_filter
  exact ⟨ls, _, hends, hls.symm, o, p, p₁', k', rfl, rfl⟩

end Harness
end DescribedEffects
