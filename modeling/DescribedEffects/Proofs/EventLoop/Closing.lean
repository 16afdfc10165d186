import DescribedEffects.Proofs.EventLoop.Stages

/-!
# How a loop comes to its end

Once its main task is over no computation is driven any more, and whatever the loop is in
the middle of is done in at most two steps (`idle_again`).  So the loop gets through the jobs
in front of the one that stops it and through what is left of that batch, and ends
(`ends_of_over`).
-/

namespace DescribedEffects
namespace EventLoop

variable {σ : Type} {H : Host σ} {context : Value} {report : Option Report} {s u : State σ}

/-- How many steps are left of what the loop is in the middle of, at most. -/
def Control.left : Control → Nat
  | .idle => 0
  | .outcome .. => 1
  | .perform .. => 2
  | .deliver .. => 3

/-- What the loop is in the middle of for another task is soon done. -/
theorem left_of_step (hs : Lone s) (hover : Over report s) (hbusy : s.control ≠ .idle)
    (h : step H context s = .next u) : u.control.left < s.control.left := by
  obtain ⟨t, ht⟩ : ∃ t, s.control.task? = some t :=
    Option.ne_none_iff_exists'.1 fun hnone => hbusy (Control.eq_idle hnone)
  have hquiet := hs.control t ht (by rintro rfl; exact hover.elsewhere ht)
  unfold step at h
  cases hc : s.control with
  | idle => exact absurd hc hbusy
  | perform k goal d =>
    rw [hc] at h
    cases h
    have hserves := serves_perform H context k goal s.toIdle d
    change (perform H context s.toIdle k goal d).control.left < 2
    cases hserves with
    | arrives o new spawned control => rw [control]; exact Nat.one_lt_two
    | waits phase hp mid new spawned tasks control => rw [control]; exact Nat.two_pos
  | outcome k goal o =>
    rw [hc] at h hquiet
    cases goal with
    | answer =>
      cases h
      change (finish s.toIdle k none o).control.left < 1
      rw [(tasks_finish s.toIdle k none o).2]
      exact Nat.one_pos
    | watch effect =>
      cases h
      change (finishWatch s.toIdle k effect o).control.left < 1
      rw [(tasks_finishWatch s.toIdle k effect o).2]
      exact Nat.one_pos
    | drive j captured => cases hquiet
  | deliver k j captured signal =>
    rw [hc] at hquiet
    cases hquiet

variable (H context) in
/-- **The loop gets to look at its queue again.** -/
theorem idle_again (hs : Steady s) (hover : Over report s) :
    ∃ v, Transition.Reaches (step H context) s v ∧ v.control = .idle ∧ v.batch = s.batch ∧
      v.stopping = s.stopping := by
  induction hn : s.control.left using Nat.strong_induction_on generalizing s with
  | _ n ih =>
    by_cases hidle : s.control = .idle
    · exact ⟨s, .refl s, hidle, rfl, rfl⟩
    · obtain ⟨u, hu, honward⟩ := step_onward H context hidle
      have hleft := left_of_step hs.lone hover hidle hu
      rw [hn] at hleft
      obtain ⟨v, hv, hvidle, hb, hstop⟩ := ih _ hleft (hs.next hu) (over_of_step hover hu) rfl
      exact ⟨v, .head hu hv, hvidle, hb.trans honward.batch, hstop.trans honward.stopping⟩

/-- The invariants along a run. -/
theorem Steady.reaches (hs : Steady s) (h : Transition.Reaches (step H context) s u) :
    Steady u :=
  h.invariant (fun _ _ hs hstep => hs.next hstep) hs

theorem Over.reaches (hs : Over report s) (h : Transition.Reaches (step H context) s u) :
    Over report u :=
  h.invariant (fun _ _ hs hstep => over_of_step hs hstep) hs

/-- A loop that is stopping gets through its batch. -/
theorem ends_of_stopping (hs : Steady s) (hover : Over report s) (hstop : s.stopping = true) :
    ∃ w r, Transition.Reaches (step H context) s w ∧ step H context w = .done r := by
  induction hn : s.batch generalizing s with
  | zero =>
    obtain ⟨v, hv, hidle, hb, hvstop⟩ := idle_again H context hs hover
    obtain ⟨r, hr⟩ := step_of_stopping H context hidle (hb.trans hn) (hvstop.trans hstop)
    exact ⟨v, r, hv, hr⟩
  | succ n ih =>
    obtain ⟨v, hv, hidle, hb, hvstop⟩ := idle_again H context hs hover
    have hvs := hs.reaches hv
    have hvover := hover.reaches hv
    have hnext : ∃ u, step H context v = .next u ∧ u.stopping = true ∧
        (u.batch = n ∨ u.batch = 0) := by
      rw [step_of_idle H context hidle]
      unfold stepIdle
      rw [hb.trans hn]
      cases hr : v.ready with
      | nil => exact ⟨_, rfl, hvstop.trans hstop, .inr rfl⟩
      | cons j rest =>
        refine ⟨_, rfl, ?_⟩
        by_cases hj : j = .stop
        · subst hj
          exact ⟨rfl, .inl rfl⟩
        · let popped : State σ := { v with ready := rest, batch := n }
          obtain ⟨t, hchanges⟩ := freeChanges_runJob (H := H) popped hj
          have honward := onward_of_changes hchanges
          exact ⟨honward.stopping.trans (hvstop.trans hstop), .inl honward.batch⟩
    obtain ⟨u, hu, hustop, hub⟩ := hnext
    have hreach := hv.tail hu
    have hus := hvs.next hu
    have huover := over_of_step hvover hu
    rcases hub with hub | hub
    · obtain ⟨w, r, hw, hr⟩ := ih hus huover hustop hub
      exact ⟨w, r, hreach.trans hw, hr⟩
    · obtain ⟨w, hw, hwidle, hwb, hwstop⟩ := idle_again H context hus huover
      obtain ⟨r, hr⟩ := step_of_stopping H context hwidle (hwb.trans hub) (hwstop.trans hustop)
      exact ⟨w, r, hreach.trans hw, hr⟩

/-- **A loop whose main task is over comes to its end.** -/
theorem ends_of_over (hs : Steady s) (hover : Over report s) (ho : s.outcome? 0 ≠ none) :
    ∃ w r, Transition.Reaches (step H context) s w ∧ step H context w = .done r := by
  rcases hs.main.due.2 ho with hmem | hstop
  · obtain ⟨before, after, hready⟩ := List.append_of_mem hmem
    rcases comes_up H context hready with
      ⟨v, n, rest, hv, hidle, hb, hr⟩ | ⟨w, r, hw, hr⟩ | ⟨w, hw, hnever⟩
    · have hstep := step_of_batch H context hidle hb hr
      have hreach := hv.tail hstep
      obtain ⟨w, r, hw, hdone⟩ :=
        ends_of_stopping (hs.reaches hreach) (hover.reaches hreach) rfl
      exact ⟨w, r, hreach.trans hw, hdone⟩
    · exact ⟨w, r, hw, hr⟩
    · obtain ⟨v, hv, hidle, -⟩ := idle_again H context (hs.reaches hw) (hover.reaches hw)
      exact absurd hidle (hnever v hv)
  · exact ends_of_stopping hs hover hstop

variable (context) in
/-- The main task is over: the loop ends with its outcome and shows nothing more of the
computations. -/
theorem ends_of_stage {P W : Type} (C : Programs P) (V : World W) {captured : Bool}
    {trace : Option Trace} {o : Outcome} {s : State (P × Site W)} (hs : Steady s)
    (h : Stage captured trace (.finished o) s) :
    ∃ t, Transition.Ends (step (C.host V) context) (shows C) s []
      (.finished (result captured o) t) := by
  have hcome : ∃ w r, Transition.Reaches (step (C.host V) context) s w ∧
      step (C.host V) context w = .done r := by
    cases h with
    | finished o s hover outcome =>
      exact ends_of_over hs hover (by rw [outcome]; exact (Option.some_ne_none _))
  obtain ⟨w, r, hw, hr⟩ := hcome
  induction hw with
  | refl s =>
    obtain ⟨hshows, hlast⟩ := over_step context C V hs h
    rw [hr] at hlast
    obtain rfl : r = .finished (result captured o) s := hlast
    have hends : Transition.Ends _ (shows C) _ _ _ := .last hr
    rw [hshows] at hends
    exact ⟨s, hends⟩
  | head first _ ih =>
    obtain ⟨hshows, hnext⟩ := over_step context C V hs h
    rw [first] at hnext
    obtain ⟨t, ht⟩ := ih (hs.next first) hnext hr
    have hends := Transition.Ends.more first ht
    rw [hshows] at hends
    exact ⟨t, hends⟩

end EventLoop
end DescribedEffects
