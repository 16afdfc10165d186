import DescribedEffects.Interpreter
import DescribedEffects.Proofs.EventLoop.Closing
import DescribedEffects.Proofs.Manners.Between

/-!
# The course of a run

A `Course` is a run with the loop left out.  The computations are told one thing after the
other, and every effect simply has the outcome that is expected of it.  No function is called,
so a course knows nothing of manners.

A loop is `OnCourse` when it stands where the course stands and is informed about it: clear
while the computations run, sure of the effect that is about to be performed.  One step of the
course takes the loop many steps when an effect is performed, and the loop is on its course
again afterwards (`OnCourse.next`).  So it comes to the end of its course (`ends_of_course`).
Conversely a loop that ends has a course that ends, by induction on what is left of its own run
(`exists_course_ends`), and since a run ends in one way only, in the way of its course
(`ends_iff_course`).
-/

namespace DescribedEffects
namespace EventLoop

variable {P S S' : Type} {K : Callables} {context : Value} {s u : Loop P S} {C : Programs P}
  {M : Manner S} {M' : Manner S'} {captured : Bool} {trace : Option Trace} {stand : Stand P}
  {j : Journey} {o : Outcome}

/-- A driven stack of computations, and the trace that is kept of its effects. -/
structure Course (P : Type) where
  stand : Stand P
  trace : Option Trace

namespace Course

variable (C : Programs P) (K : Callables) (context : Value)

/-- Goes on as if every effect simply had the outcome that is expected. -/
def step (c : Course P) : Transition (Course P) (Outcome × Option Trace) :=
  match c.stand with
  | .telling q items =>
    match Solo.step C q with
    | .next q => .next ⟨.telling q items, c.trace⟩
    | .done pause => .next ⟨.pause items pause, c.trace⟩
  | .performing d p a items | .awaiting d p a items =>
    let x := (Plan.ofDescriptor d).expects K context items
    let trace := keep c.trace d x.outcome
    .next ⟨.answer trace p a items x.minted.isSome.toNat x.outcome, trace⟩
  | .finished o => .done (o, c.trace)

/-- What can be seen of a course. -/
def shows (c : Course P) : List Event :=
  match c.stand with
  | .telling q _ => Solo.shows C q
  | .performing d _ _ items | .awaiting d _ _ items =>
    [.answered d ((Plan.ofDescriptor d).expects K context items).outcome]
  | .finished _ => []

/-- The effect that is about to be performed, if one is, has one failing leaf at most. -/
def IsModest (c : Course P) : Prop :=
  ∀ d p a items, c.stand = .performing d p a items → (Plan.ofDescriptor d).Modest K context

end Course

/-! ## A loop on its course -/

/-- What is known of a loop at a stand. -/
inductive Informed (C : Programs P) (M : Manner S) (K : Callables) (context : Value)
    (s : Loop P S) : Stand P → Prop
  | telling (q : Solo P) (items : Nat) (clear : Clear C M K context s) :
      Informed C M K context s (.telling q items)
  | performing (d : Descriptor) (p : P) (a : List Nat) (items : Nat)
      (sure : (Plan.ofDescriptor d).Modest K context →
        ∃ es, Sure C M K context es ((Plan.ofDescriptor d).expects K context items) s) :
      Informed C M K context s (.performing d p a items)
  | finished (o : Outcome) : Informed C M K context s (.finished o)

/-- The loop is where the course is. -/
structure OnCourse (C : Programs P) (M : Manner S) (K : Callables) (context : Value)
    (captured : Bool) (c : Course P) (s : Loop P S) : Prop where
  steady : Steady s
  stage : Stage captured c.trace c.stand s
  informed : Informed C M K context s c.stand

/-- The driver has been told something: what is known of the loop at its new stand. -/
theorem Clear.informed (hs : Clear C M K context s) (steady : Steady s)
    (driving : s.control.busy? = some (0, .drive j captured))
    (goes : u.control ≠ .idle → Goes captured s u)
    (hstep : step (C.host (K.world M)) context s = .next u) (stage : Stage captured trace stand u)
    (unperformed : ∀ d p a items, stand ≠ .awaiting d p a items) :
    Informed C M K context u stand := by
  cases stage with
  | telling q x notes j' items control active traced counted =>
    have hcontrol : (x.amid (Prod.mk q.programs) notes q.active).control =
        .deliver 0 (j'.amid q.active) captured q.signal := congrArg (Control.amid q.active) control
    exact .telling q items (hs.goes steady driving (goes (by rw [hcontrol]; simp)) hstep
      ⟨0, _, captured, q.signal, hcontrol⟩)
  | performing d p a x notes j' items control current active traced counted =>
    have hcontrol : (x.amid (Prod.mk p) notes a).control =
        .perform 0 (.drive (j'.amid a) captured) d := congrArg (Control.amid a) control
    refine .performing d p a items fun modest => ?_
    have hsure := hs.performs steady driving (goes (by rw [hcontrol]; simp)) hstep hcontrol modest
    rwa [show (x.amid (Prod.mk p) notes a).host.2.items = items from counted] at hsure
  | awaiting d p a x notes j' items _ _ _ _ _ => exact absurd rfl (unperformed d p a items)
  | finished o s _ _ => exact .finished o

theorem Stand.pause_ne_awaiting {items : Nat} {pause : Pause P} {d : Descriptor} {p : P}
    {a : List Nat} {n : Nat} : Stand.pause items pause ≠ .awaiting d p a n := by
  intro h
  unfold Stand.pause at h
  split at h
  · cases h
  · split at h <;> cases h

theorem Stand.answer_ne_awaiting {items minted : Nat} {d : Descriptor} {p q : P}
    {a b : List Nat} {n : Nat} :
    Stand.answer trace q b items minted o ≠ .awaiting d p a n := by
  intro h
  unfold Stand.answer at h
  split at h
  · cases h
  · split at h <;> cases h

/-- The loop and its course tell the innermost computation the same. -/
theorem OnCourse.tells {q : Solo P} {items : Nat} {trace : Option Trace}
    (h : OnCourse C M K context captured ⟨.telling q items, trace⟩ s) :
    ∃ u, step (C.host (K.world M)) context s = .next u ∧
      EventLoop.shows C s = Solo.shows C q ∧
      (Solo.step C q).Leads
        (fun q' => OnCourse C M K context captured ⟨.telling q' items, trace⟩ u)
        fun pause => OnCourse C M K context captured ⟨.pause items pause, trace⟩ u := by
  obtain ⟨steady, stage, informed⟩ := h
  obtain ⟨u, hu, hshows, hleads⟩ := telling_step context C (K.world M) steady stage
  obtain ⟨j, signal, hcontrol⟩ : ∃ j signal, s.control = .deliver 0 j captured signal := by
    cases stage with
    | telling q x notes j items control active traced counted =>
      exact ⟨_, _, congrArg (Control.amid q.active) control⟩
  have hclear : Clear C M K context s := by
    cases informed with
    | telling q items clear => exact clear
  have hgoes : u.control ≠ .idle → Goes captured s u := by
    obtain ⟨es, top, hfirm⟩ := hclear.firm
    exact goes_of_telling K context C M hfirm.quiet hcontrol hu
  have hdriving : s.control.busy? = some (0, .drive j captured) := by rw [hcontrol]; rfl
  refine ⟨u, hu, hshows, hleads.imp (fun q' hstage => ?_) fun pause hstage => ?_⟩
  · exact ⟨steady.next hu, hstage, hclear.informed steady hdriving hgoes hu hstage
      fun _ _ _ _ h => by cases h⟩
  · exact ⟨steady.next hu, hstage, hclear.informed steady hdriving hgoes hu hstage
      fun _ _ _ _ => Stand.pause_ne_awaiting⟩

/-- **The effect has the outcome that is expected**, in whatever manner. -/
theorem OnCourse.answers {d : Descriptor} {p : P} {a : List Nat} {items : Nat}
    {trace : Option Trace}
    (h : OnCourse C M K context captured ⟨.performing d p a items, trace⟩ s)
    (modest : (Plan.ofDescriptor d).Modest K context) :
    let x := (Plan.ofDescriptor d).expects K context items
    let kept := keep trace d x.outcome
    ∃ u v, step (C.host (K.world M)) context s = .next u ∧
      Transition.Reaches (step (C.host (K.world M)) context) u v ∧
      Transition.Trail (step (C.host (K.world M)) context) (EventLoop.shows C) s
        [.answered d x.outcome] v ∧
      OnCourse C M K context captured
        ⟨.answer kept p a items x.minted.isSome.toNat x.outcome, kept⟩ v := by
  intro x kept
  obtain ⟨steady, stage, informed⟩ := h
  obtain ⟨u, hu, hshows, ⟨j, hcontrol⟩, hawaiting⟩ :=
    performing_step context C (K.world M) steady stage
  have hsure : ∃ es, Sure C M K context es x s := by
    cases informed with
    | performing _ _ _ _ sure => exact sure modest
  obtain ⟨es, hs⟩ := hsure
  obtain ⟨es', -, hsu⟩ := hs.next (by rw [hcontrol]; rfl) hu
  obtain ⟨es'', b, j', htrail, hsteady, hstage, hsb, hb⟩ := hsu.resolves (steady.next hu) hawaiting
  have hitems : b.host.2.items = items := by
    cases hstage with
    | awaiting d p a x notes j items _ _ _ _ counted => exact counted
  have hrecent : ∀ n ∈ x.minted, n = b.host.2.items := by
    intro n hn
    rw [Plan.minted_expects] at hn
    split at hn
    · exact (Option.some.inj hn).symm.trans hitems.symm
    · cases hn
  obtain ⟨hclear, hminted⟩ := hsb.clear hb hrecent
  rcases outcome_step context C (K.world M) hsteady hstage with
    ⟨w, -, -, hnone, -⟩ | ⟨o, w, hw, hwshows, ⟨j'', hc⟩, hwstage⟩ | ⟨-, -, hnone⟩
  · exact absurd hb (hnone _ _)
  · obtain ⟨-, -, rfl⟩ := Control.outcome.inj (hc.symm.trans hb)
    rw [hminted] at hwstage
    refine ⟨u, w, hu, htrail.reaches.tail hw, ?_, hsteady.next hw, hwstage,
      hclear.informed hsteady (by rw [hb]; rfl) (goes_of_answer hb hw) hw hwstage
        fun _ _ _ _ => Stand.answer_ne_awaiting⟩
    have hall := (Transition.Trail.head hu htrail).tail hw
    rwa [hshows, hwshows] at hall
  · exact absurd hb (hnone _ _)

/-! ## Whole runs -/

/-- What a loop leaves at the end of a course. -/
structure Completes (captured : Bool) (x : Outcome × Option Trace)
    (r : Ending (P × Site (Scene S))) : Prop where
  finished : ∃ t, r = .finished (result captured x.1) t ∧
    t.tasks[0]?.map Task.phase = some (.finished (some ⟨x.1, x.2⟩))

/-- The main task is over, and the loop ends with its outcome and its trace. -/
theorem completes_of_stage (hs : Steady s) (h : Stage captured trace (.finished o) s) :
    ∃ r, Transition.Ends (step (C.host (K.world M)) context) (EventLoop.shows C) s [] r ∧
      Completes captured (o, trace) r := by
  obtain ⟨t, ht⟩ := ends_of_stage context C (K.world M) hs h
  refine ⟨_, ht, t, rfl, ?_⟩
  obtain ⟨w, ms, htrail, hdone, -⟩ := ht.exists_trail
  -- The main task stays over, so it is over in the last state.
  obtain ⟨hws, hwstage⟩ : Steady w ∧ Stage captured trace (.finished o) w := by
    refine htrail.invariant (P := fun v => Steady v ∧ Stage captured trace (.finished o) v)
      (fun v v' hv hstep => ⟨hv.1.next hstep, ?_⟩) ⟨hs, h⟩
    have hleads := (over_step context C (K.world M) hv.1 hv.2).2
    rw [hstep] at hleads
    exact hleads
  have hlast := (over_step context C (K.world M) hws hwstage).2
  rw [hdone] at hlast
  obtain ⟨-, rfl⟩ := Ending.finished.inj hlast
  cases hwstage with
  | finished o s hover _ => exact hover.finished

/-- **A step of the course** is made good by the loop. -/
theorem OnCourse.next {c : Course P} (h : OnCourse C M K context captured c s)
    (modest : c.IsModest K context) :
    (c.step C K context).Leads
      (fun c' => ∃ u v, step (C.host (K.world M)) context s = .next u ∧
        Transition.Reaches (step (C.host (K.world M)) context) u v ∧
        Transition.Trail (step (C.host (K.world M)) context) (EventLoop.shows C) s
          (c.shows C K context) v ∧ OnCourse C M K context captured c' v)
      (fun x => ∃ r, Transition.Ends (step (C.host (K.world M)) context) (EventLoop.shows C) s
        (c.shows C K context) r ∧ Completes captured x r) := by
  obtain ⟨stand, trace⟩ := c
  cases stand with
  | telling q items =>
    obtain ⟨u, hu, hshows, hleads⟩ := h.tells
    have htrail : Transition.Trail _ (EventLoop.shows C) _ _ _ := .single hu
    rw [hshows] at htrail
    simp only [Course.step, Course.shows]
    cases hq : Solo.step C q with
    | next q' =>
      rw [hq] at hleads
      exact ⟨u, u, hu, .refl u, htrail, hleads⟩
    | done pause =>
      rw [hq] at hleads
      exact ⟨u, u, hu, .refl u, htrail, hleads⟩
  | performing d p a items => exact h.answers (modest d p a items rfl)
  | awaiting d p a items => cases h.informed
  | finished o => exact completes_of_stage h.steady h.stage

section

variable {c : Course P}

/-- All effects of a course have one failing leaf at most. -/
def Course.AllModest (C : Programs P) (K : Callables) (context : Value) (c : Course P) : Prop :=
  ∀ c', Transition.Reaches (Course.step C K context) c c' → c'.IsModest K context

/-- **A loop comes to the end of its course.** -/
theorem ends_of_course {ls : List Event} {x : Outcome × Option Trace}
    (h : Transition.Ends (Course.step C K context) (Course.shows C K context) c ls x)
    (hs : OnCourse C M K context captured c s) (modest : c.AllModest C K context) :
    ∃ r, Transition.Ends (step (C.host (K.world M)) context) (EventLoop.shows C) s ls r ∧
      Completes captured x r := by
  refine h.of_matching (M := fun c s => OnCourse C M K context captured c s ∧
    c.AllModest C K context) (N := Completes captured) ?_ ?_ ⟨hs, modest⟩
  · rintro c s c' ⟨hs, modest⟩ hstep
    have hnext := hs.next (modest c (.refl c))
    rw [hstep] at hnext
    obtain ⟨u, v, -, -, htrail, hv⟩ := hnext
    exact ⟨v, htrail, hv, fun c'' hc'' => modest c'' (.head hstep hc'')⟩
  · rintro c s x ⟨hs, modest⟩ hstep
    have hnext := hs.next (modest c (.refl c))
    rw [hstep] at hnext
    exact hnext

/-- The course of a loop that comes to its end comes to an end as well. -/
theorem exists_course_ends {ls : List Event} {r : Ending (P × Site (Scene S))}
    (h : Transition.Ends (step (C.host (K.world M)) context) (EventLoop.shows C) s ls r)
    (hs : OnCourse C M K context captured c s) (modest : c.AllModest C K context) :
    ∃ ls x, Transition.Ends (Course.step C K context) (Course.shows C K context) c ls x := by
  refine h.later_induction (P := fun s => ∀ c, OnCourse C M K context captured c s →
    c.AllModest C K context → ∃ ls x,
      Transition.Ends (Course.step C K context) (Course.shows C K context) c ls x)
    (fun s ih c hs modest => ?_) c hs modest
  have hnext := hs.next (modest c (.refl c))
  cases hstep : c.step C K context with
  | next c' =>
    rw [hstep] at hnext
    obtain ⟨u, v, hu, hv, -, hc'⟩ := hnext
    obtain ⟨ls, x, hends⟩ :=
      ih u v hu hv c' hc' fun c'' hc'' => modest c'' (.head hstep hc'')
    exact ⟨_, x, .more hstep hends⟩
  | done x => exact ⟨_, x, .last hstep⟩

/-- **The loop ends as its course does.** -/
theorem ends_iff_course {ls : List Event} {r : Ending (P × Site (Scene S))}
    (hs : OnCourse C M K context captured c s) (modest : c.AllModest C K context)
    (h : Transition.Ends (step (C.host (K.world M)) context) (EventLoop.shows C) s ls r) :
    ∃ x, Transition.Ends (Course.step C K context) (Course.shows C K context) c ls x ∧
      Completes captured x r := by
  obtain ⟨ms, x, hcourse⟩ := exists_course_ends h hs modest
  obtain ⟨r', hends, hcompletes⟩ := ends_of_course hcourse hs modest
  obtain ⟨rfl, rfl⟩ := h.unique hends
  exact ⟨x, hcourse, hcompletes⟩

/-- The effect that the driver is about to perform, if it is. -/
def State.driven? {σ : Type} (s : State σ) : Option Descriptor :=
  match s.control with
  | .perform 0 (.drive ..) d => some d
  | _ => none

/-- The effects of the course are those that the loop performs. -/
theorem allModest_of_loop (hs : OnCourse C M K context captured c s)
    (modest : ∀ u d, Transition.Reaches (step (C.host (K.world M)) context) s u →
      u.driven? = some d → (Plan.ofDescriptor d).Modest K context) : c.AllModest C K context := by
  have hhere : ∀ {c : Course P} {v : Loop P S}, OnCourse C M K context captured c v →
      (∀ d, v.driven? = some d → (Plan.ofDescriptor d).Modest K context) →
        c.IsModest K context := by
    intro c v hv hmodest d p a items hstand
    have hstage := hv.stage
    rw [hstand] at hstage
    obtain ⟨-, -, -, ⟨j, hcontrol⟩, -⟩ := performing_step context C (K.world M) hv.steady hstage
    exact hmodest d (by simp only [State.driven?, hcontrol])
  intro c' hc'
  induction hc' generalizing s with
  | refl c => exact hhere hs fun d => modest s d (.refl s)
  | head first _ ih =>
    have hnext := hs.next (hhere hs fun d => modest s d (.refl s))
    rw [first] at hnext
    obtain ⟨u, v, -, -, htrail, hv⟩ := hnext
    exact ih hv fun w d hw => modest w d (htrail.reaches.trans hw)

end

end EventLoop
end DescribedEffects
