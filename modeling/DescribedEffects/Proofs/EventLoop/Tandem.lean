import DescribedEffects.Proofs.Driving.InPlace
import DescribedEffects.Proofs.EventLoop.Stages

/-!
# Two loops in tandem

One loop drives a stack of computations, and another one a single computation that makes
the pauses of the stack (`Tandem`).  Between the pauses both loops do the same, since a loop
does not look at the computations that it drives: `Abreast` puts one and the same loop amid
either.  Only while the stack is on its way to a pause the first loop is ahead, and all that
it has done meanwhile is to grant requests that the second one will grant as well.

`abreast_of_step` follows a step of the first loop, and `together_of_trail` one of the
second.  So the two come to the same end, whatever the trace that is kept
(`single_of_ends`, `ends_of_single`).
-/

namespace DescribedEffects
namespace EventLoop

variable {P P' W : Type} {C : Programs P} {C' : Programs P'} {V : World W}
  {M : Solo P → Solo P' → Prop} {context : Value}

/-- Two loops that do the same amid different computations. -/
inductive Abreast (V : World W) (M : Solo P → Solo P' → Prop) :
    State (P × Site W) → State (P' × Site W) → Prop
  /-- Both are about to resume a computation; the first may be ahead. -/
  | telling {q : Solo P} {r : Solo P'} {x y : State (Site W)} (notes notes' : List Note)
      {j : Journey} {captured : Bool} (ahead : x.control = .deliver 0 j captured q.signal)
      (behind : y.control = .deliver 0 j captured r.signal)
      (same : settled V x .idle = settled V y .idle) (related : M q r) :
      Abreast V M (x.amid (Prod.mk q.programs) notes q.active)
        (y.amid (Prod.mk r.programs) notes' r.active)
  | waiting {p : P} {a : List Nat} {p' : P'} {a' : List Nat} (x : State (Site W))
      (notes notes' : List Note)
      (quiet : ∀ t j captured signal, x.control ≠ .deliver t j captured signal)
      (related : ∀ signal, M ⟨p, a, signal⟩ ⟨p', a', signal⟩) :
      Abreast V M (x.amid (Prod.mk p) notes a) (x.amid (Prod.mk p') notes' a')
  | finished (p : P) (a : List Nat) (p' : P') (a' : List Nat) (x : State (Site W))
      (notes notes' : List Note) {report : Option Report} (hover : Over report x) :
      Abreast V M (x.amid (Prod.mk p) notes a) (x.amid (Prod.mk p') notes' a')

/-- Two loops that have come to the same end. -/
def Ending.Alike (r : Ending (P × Site W)) (r' : Ending (P' × Site W)) : Prop :=
  ∃ (x : Ending (Site W)) (p : P) (a : List Nat) (p' : P') (a' : List Nat)
    (notes notes' : List Note),
    r = x.amid (Prod.mk p) notes a ∧ r' = x.amid (Prod.mk p') notes' a'

section

variable {x y : State (Site W)} {p : P} {a : List Nat} {p' : P'} {a' : List Nat}
  {notes notes' : List Note} {s : State (P × Site W)} {s' : State (P' × Site W)}

/-- A loop amid computations that are related whatever they are told. -/
theorem abreast_of_related (lone : Lone x) (related : ∀ signal, M ⟨p, a, signal⟩ ⟨p', a', signal⟩) :
    Abreast V M (x.amid (Prod.mk p) notes a) (x.amid (Prod.mk p') notes' a') := by
  by_cases h : ∃ t j captured signal, x.control = .deliver t j captured signal
  · obtain ⟨t, j, captured, signal, hc⟩ := h
    obtain rfl : t = 0 := by
      by_contra hne
      have hquiet := lone.control t (by rw [hc]; rfl) hne
      rw [hc] at hquiet
      cases hquiet
    exact .telling (q := ⟨p, a, signal⟩) (r := ⟨p', a', signal⟩) notes notes' hc hc rfl
      (related signal)
  · exact .waiting x notes notes' (fun t j captured signal hc => h ⟨t, j, captured, signal, hc⟩)
      related

/-- A pause means the same to both loops. -/
theorem paused_of_alike {pause : Pause P} {pause' : Pause P'} (h : pause.Alike M pause')
    (same : settled V x .idle = settled V y .idle) (j : Journey) (captured : Bool) :
    paused V x j captured pause = paused V y j captured pause' := by
  cases h with
  | yielded item related => simp only [paused, same]
  | ended o p p' => simp only [paused, same]

/-- Both loops go on from a pause. -/
theorem abreast_of_alike {pause : Pause P} {pause' : Pause P'} (h : pause.Alike M pause')
    (present : 0 < x.tasks.length) {j : Journey} {captured : Bool}
    (lone : Lone (paused V x j captured pause)) :
    Abreast V M ((paused V x j captured pause).amid (Prod.mk pause.programs) notes pause.active)
      ((paused V x j captured pause).amid (Prod.mk pause'.programs) notes' pause'.active) := by
  cases h with
  | yielded item related => exact abreast_of_related lone related
  | ended o p p' =>
    have hpresent : 0 < (settled V x .idle).tasks.length := by rwa [tasks_settled]
    exact .finished p [] p' [] _ notes notes' (over_finish hpresent ..)

/-! ## Steps that resume nothing -/

/-- Where no computation is resumed both loops show the same. -/
theorem shows_of_quiet (quiet : ∀ t j captured signal, x.control ≠ .deliver t j captured signal) :
    outward (shows C (x.amid (Prod.mk p) notes a)) =
      untold (shows C' (x.amid (Prod.mk p') notes' a')) := by
  have hcontrol : (x.amid (Prod.mk p) notes a).control = x.control.amid a := rfl
  have hcontrol' : (x.amid (Prod.mk p') notes' a').control = x.control.amid a' := rfl
  unfold shows
  rw [hcontrol, hcontrol']
  cases hc : x.control with
  | deliver t j captured signal => exact absurd hc (quiet t j captured signal)
  | outcome t goal o =>
    cases goal with
    | drive j captured =>
      simp only [Control.amid, Goal.amid, Journey.amid]
      cases j.current <;> rfl
    | _ => rfl
  | _ => rfl

/-- Nothing is resumed while the main task is over. -/
theorem Over.quiet {report : Option Report} (h : Over report x) (lone : Lone x) :
    ∀ t j captured signal, x.control ≠ .deliver t j captured signal := by
  intro t j captured signal hc
  have hquiet := lone.control t (by rw [hc]; rfl) fun ht => by
    have helsewhere := h.elsewhere
    rw [hc, ht] at helsewhere
    exact helsewhere rfl
  rw [hc] at hquiet
  cases hquiet

variable (C C' context) in
/-- Both loops take a step together and show the same. -/
def Together (V : World W) (M : Solo P → Solo P' → Prop) (s : State (P × Site W))
    (s' : State (P' × Site W)) : Prop :=
  outward (shows C s) = untold (shows C' s') ∧
    ((∃ u u', step (C.host V) context s = .next u ∧ step (C'.host V) context s' = .next u' ∧
        Abreast V M u u') ∨
      ∃ r r', step (C.host V) context s = .done r ∧ step (C'.host V) context s' = .done r' ∧
        r.Alike r')

/-- **Where no computation is resumed both loops take the step of one and the same loop.** -/
theorem together_of_quiet (hs : Steady (x.amid (Prod.mk p) notes a))
    (quiet : ∀ t j captured signal, x.control ≠ .deliver t j captured signal)
    (keeps : ∀ x₁, step V.still context x = .next x₁ → Lone x₁ →
      Abreast V M (x₁.amid (Prod.mk p) notes a) (x₁.amid (Prod.mk p') notes' a')) :
    Together C C' context V M (x.amid (Prod.mk p) notes a) (x.amid (Prod.mk p') notes' a') := by
  have hlone := lone_of_amid hs.lone
  have hstep := step_amid (C.around V p) notes a context x hlone quiet
  have hstep' := step_amid (C'.around V p') notes' a' context x hlone quiet
  refine ⟨shows_of_quiet quiet, ?_⟩
  cases hnext : step V.still context x with
  | next x₁ =>
    rw [hnext] at hstep hstep'
    exact .inl ⟨_, _, hstep, hstep', keeps x₁ hnext (lone_of_amid (hs.next hstep).lone)⟩
  | done r =>
    rw [hnext] at hstep hstep'
    exact .inr ⟨_, _, hstep, hstep', r, p, a, p', a', notes, notes', rfl, rfl⟩

theorem together_of_waiting (hs : Steady (x.amid (Prod.mk p) notes a))
    (quiet : ∀ t j captured signal, x.control ≠ .deliver t j captured signal)
    (related : ∀ signal, M ⟨p, a, signal⟩ ⟨p', a', signal⟩) :
    Together C C' context V M (x.amid (Prod.mk p) notes a) (x.amid (Prod.mk p') notes' a') :=
  together_of_quiet hs quiet fun _ _ lone => abreast_of_related lone related

theorem together_of_finished {report : Option Report} (hs : Steady (x.amid (Prod.mk p) notes a))
    (hover : Over report x) :
    Together C C' context V M (x.amid (Prod.mk p) notes a) (x.amid (Prod.mk p') notes' a') :=
  together_of_quiet hs (hover.quiet (lone_of_amid hs.lone)) fun x₁ hx₁ _ =>
    .finished p a p' a' x₁ notes notes' (over_of_step hover hx₁)

end

/-! ## Steps that resume a computation -/

section

variable {x y : State (Site W)} {q : Solo P} {q' : Solo P'} {notes notes' : List Note} {j : Journey}
  {captured : Bool}

variable (V context) in
/-- A loop follows its stack, until that one pauses. -/
theorem reaches_of_solo {u : Solo P} (hu : Transition.Reaches (Solo.step C) q u)
    (hs : Steady (x.amid (Prod.mk q.programs) notes q.active))
    (control : x.control = .deliver 0 j captured q.signal) (active : q.active ≠ []) :
    ∃ x₁ notes₁, Transition.Trail (step (C.host V) context) (fun s => outward (shows C s))
        (x.amid (Prod.mk q.programs) notes q.active) []
        (x₁.amid (Prod.mk u.programs) notes₁ u.active) ∧
      Steady (x₁.amid (Prod.mk u.programs) notes₁ u.active) ∧
      x₁.control = .deliver 0 j captured u.signal ∧ settled V x₁ .idle = settled V x .idle ∧
      u.active ≠ [] := by
  induction hu generalizing x notes with
  | refl q => exact ⟨x, notes, .refl _, hs, control, rfl, active⟩
  | @head q r u first _ ih =>
    have hstep := step_deliver C V context notes (p := q.programs) (lone_of_amid hs.lone) control
      active
    rw [first] at hstep
    obtain ⟨notes₁, hnext⟩ := hstep
    obtain ⟨x₁, notes₂, htrail, hrest⟩ := ih (hs.next hnext) rfl (Solo.active_of_step first)
    rw [settled_settled] at hrest
    refine ⟨x₁, notes₂, ?_, hrest⟩
    have hhead : Transition.Trail _ (fun s => outward (shows C s)) _ _ _ := .head hnext htrail
    rwa [shows_of_telling C control, outward_shows] at hhead

/-- Both loops come to the same pause. -/
theorem paused_together (h : Tandem C C' M)
    (hs : Steady (x.amid (Prod.mk q.programs) notes q.active))
    (hs' : Steady (y.amid (Prod.mk q'.programs) notes' q'.active))
    (ahead : x.control = .deliver 0 j captured q.signal)
    (behind : y.control = .deliver 0 j captured q'.signal)
    (same : settled V x .idle = settled V y .idle) (related : M q q') {pause : Pause P}
    {pause' : Pause P'} (hpause : Solo.step C q = .done pause)
    (hpause' : Solo.step C' q' = .done pause') (alike : pause.Alike M pause') :
    Together C C' context V M (x.amid (Prod.mk q.programs) notes q.active)
      (y.amid (Prod.mk q'.programs) notes' q'.active) := by
  obtain ⟨p', a', signal'⟩ := q'
  obtain ⟨g, rfl⟩ := h.single q _ related
  have hstep := step_deliver C V context notes (p := q.programs) (lone_of_amid hs.lone) ahead
    (h.active q _ related)
  have hstep' := step_deliver C' V context notes' (p := p') (lone_of_amid hs'.lone) behind
    (List.cons_ne_nil g [])
  rw [hpause] at hstep
  rw [hpause'] at hstep'
  obtain ⟨notes₁, hnext⟩ := hstep
  obtain ⟨notes₁', hnext'⟩ := hstep'
  rw [← paused_of_alike alike same] at hnext'
  refine ⟨?_, .inl ⟨_, _, hnext, hnext', abreast_of_alike alike (main_of_amid hs.main).present
    (lone_of_amid (hs.next hnext).lone)⟩⟩
  rw [shows_of_telling C ahead, shows_of_telling C' (q := ⟨p', [g], signal'⟩) behind,
    outward_shows, untold_shows_single]

variable (context) in
/-- **A step of the first loop.**  The second one takes it as well, or waits. -/
theorem abreast_of_step (h : Tandem C C' M) {s : State (P × Site W)} {s' : State (P' × Site W)}
    (hs : Steady s) (hs' : Steady s')
    (tame : ∀ e, .passed e ∈ shows C s → e.isOrdinary = true) (abreast : Abreast V M s s') :
    (∃ u, step (C.host V) context s = .next u ∧ outward (shows C s) = [] ∧ Abreast V M u s') ∨
      Together C C' context V M s s' := by
  cases abreast with
  | @telling q q' x y notes notes' j captured ahead behind same related =>
    rw [shows_of_telling C ahead] at tame
    have hpause := h.step q q' related tame
    cases hq : Solo.step C q with
    | next r =>
      rw [hq] at hpause
      have hstep := step_deliver C V context notes (p := q.programs) (lone_of_amid hs.lone)
        ahead (h.active q q' related)
      rw [hq] at hstep
      obtain ⟨notes₁, hnext⟩ := hstep
      refine .inl ⟨_, hnext, ?_, .telling notes₁ notes' rfl behind ?_ hpause⟩
      · rw [shows_of_telling C ahead, outward_shows]
      · exact (settled_settled ..).trans same
    | done pause =>
      rw [hq] at hpause
      obtain ⟨pause', hpause', halike⟩ := hpause
      exact .inr (paused_together h hs hs' ahead behind same related hq hpause' halike)
  | waiting x notes notes' quiet related => exact .inr (together_of_waiting hs quiet related)
  | finished p a p' a' x notes notes' hover => exact .inr (together_of_finished hs hover)

/-- **A step of the second loop.**  The first one has caught up when it takes it as well. -/
theorem together_of_trail (h : Tandem C C' M) (pausing : Pausing C M)
    {s : State (P × Site W)} {s' : State (P' × Site W)} (hs : Steady s) (hs' : Steady s')
    (tame : Tame ExnOf.isOrdinary (step (C.host V) context) (shows C) s)
    (abreast : Abreast V M s s') :
    ∃ u, Transition.Trail (step (C.host V) context) (fun s => outward (shows C s)) s [] u ∧
      Steady u ∧ Together C C' context V M u s' := by
  cases abreast with
  | @telling q q' x y notes notes' j captured ahead behind same related =>
    have hactive := h.active q q' related
    have hfollowed := fun u (hu : Transition.Reaches (Solo.step C) q u) =>
      reaches_of_solo V context hu hs ahead hactive
    have htame : Tame ExnOf.isOrdinary (Solo.step C) (Solo.shows C) q := by
      intro u hu e he
      obtain ⟨x₁, notes₁, htrail, -, hcontrol, -⟩ := hfollowed u hu
      refine tame _ htrail.reaches e ?_
      rwa [shows_of_telling C hcontrol]
    obtain ⟨ls, pause, hends⟩ := pausing q q' related htame
    obtain ⟨u, ms, hu, hpause, -⟩ := hends.exists_trail
    obtain ⟨x₁, notes₁, htrail, hsteady, hcontrol, hsettled, -⟩ := hfollowed u hu.reaches
    have hrelated := h.reaches related htame hu.reaches
    have hstep := h.step u q' hrelated (htame u hu.reaches)
    rw [hpause] at hstep
    obtain ⟨pause', hpause', halike⟩ := hstep
    exact ⟨_, htrail, hsteady, paused_together h hsteady hs' hcontrol behind
      (hsettled.trans same) hrelated hpause hpause' halike⟩
  | waiting x notes notes' quiet related =>
    exact ⟨_, .refl _, hs, together_of_waiting hs quiet related⟩
  | finished p a p' a' x notes notes' hover =>
    exact ⟨_, .refl _, hs, together_of_finished hs hover⟩

/-! ## Whole runs -/

variable (C C' context) in
/-- Two loops that do the same, and what keeps them doing so. -/
structure Coupled (V : World W) (M : Solo P → Solo P' → Prop) (s : State (P × Site W))
    (s' : State (P' × Site W)) : Prop where
  first : Steady s
  second : Steady s'
  tame : Tame ExnOf.isOrdinary (step (C.host V) context) (shows C) s
  abreast : Abreast V M s s'

variable {s u : State (P × Site W)} {s' u' : State (P' × Site W)}

theorem Coupled.next (h : Tandem C C' M) (hc : Coupled C context V M s s')
    (hu : step (C.host V) context s = .next u) :
    ∃ u', Transition.Trail (step (C'.host V) context) (fun s => untold (shows C' s)) s'
      (outward (shows C s)) u' ∧ Coupled C context V M u u' := by
  have hsteady := hc.first.next hu
  have htame := hc.tame.reaches (.head hu (.refl u))
  rcases abreast_of_step context h hc.first hc.second (hc.tame s (.refl s)) hc.abreast
    with ⟨v, hv, hshows, hnext⟩ | ⟨hshows, ⟨v, v', hv, hv', hnext⟩ | ⟨r, -, hr, -⟩⟩
  · obtain rfl : v = u := Transition.next.inj (hv.symm.trans hu)
    rw [hshows]
    exact ⟨s', .refl s', hsteady, hc.second, htame, hnext⟩
  · obtain rfl : v = u := Transition.next.inj (hv.symm.trans hu)
    rw [hshows]
    exact ⟨v', .single hv', hsteady, hc.second.next hv', htame, hnext⟩
  · rw [hu] at hr
    cases hr

theorem Coupled.done (h : Tandem C C' M) (hc : Coupled C context V M s s')
    {r : Ending (P × Site W)} (hr : step (C.host V) context s = .done r) :
    ∃ r', Transition.Ends (step (C'.host V) context) (fun s => untold (shows C' s)) s'
      (outward (shows C s)) r' ∧ r.Alike r' := by
  rcases abreast_of_step context h hc.first hc.second (hc.tame s (.refl s)) hc.abreast
    with ⟨v, hv, -⟩ | ⟨hshows, ⟨v, -, hv, -⟩ | ⟨q, q', hq, hq', halike⟩⟩
  · rw [hr] at hv
    cases hv
  · rw [hr] at hv
    cases hv
  · obtain rfl : q = r := Transition.done.inj (hq.symm.trans hr)
    rw [hshows]
    exact ⟨q', .last hq', halike⟩

/-- **The second loop comes to the end of the first.** -/
theorem single_of_ends (h : Tandem C C' M) (hc : Coupled C context V M s s') {ls : List Event}
    {r : Ending (P × Site W)} (ends : Transition.Ends (step (C.host V) context) (shows C) s ls r) :
    ∃ ls' r', Transition.Ends (step (C'.host V) context) (shows C') s' ls' r' ∧
      untold ls' = outward ls ∧ r.Alike r' := by
  have houtward : Transition.Ends (step (C.host V) context) (fun s => outward (shows C s)) s
      (outward ls) r := ends.filter fun ev : Event => !ev.isAside
  obtain ⟨r', hends, halike⟩ := Transition.Ends.of_matching (M := Coupled C context V M)
    (fun _ _ _ hc hu => hc.next h hu) (fun _ _ _ hc hr => hc.done h hr) houtward hc
  obtain ⟨ls', hends, hls⟩ := hends.of_filter
  exact ⟨ls', r', hends, hls, halike⟩

/-- **The first loop comes to the end of the second**, if the stack always comes to its next
pause. -/
theorem ends_of_single (h : Tandem C C' M) (pausing : Pausing C M)
    (hc : Coupled C context V M s s') {ls' : List Event} {r' : Ending (P' × Site W)}
    (ends : Transition.Ends (step (C'.host V) context) (shows C') s' ls' r') :
    ∃ ls r, Transition.Ends (step (C.host V) context) (shows C) s ls r ∧
      untold ls' = outward ls ∧ r.Alike r' := by
  have hnext : ∀ s' s u', Coupled C context V M s s' → step (C'.host V) context s' = .next u' →
      ∃ u, Transition.Trail (step (C.host V) context) (fun s => outward (shows C s)) s
        (untold (shows C' s')) u ∧ Coupled C context V M u u' := by
    intro s' s u' hc hu'
    obtain ⟨t, htrail, ht, hshows, ⟨u, v', hu, hv', hnext⟩ | ⟨-, q', -, hq', -⟩⟩ :=
      together_of_trail h pausing hc.first hc.second hc.tame hc.abreast
    · obtain rfl : v' = u' := Transition.next.inj (hv'.symm.trans hu')
      have hall := htrail.tail hu
      rw [List.nil_append, hshows] at hall
      exact ⟨u, hall, ht.next hu, hc.second.next hu', hc.tame.reaches hall.reaches, hnext⟩
    · rw [hu'] at hq'
      cases hq'
  have hdone : ∀ s' s r', Coupled C context V M s s' → step (C'.host V) context s' = .done r' →
      ∃ r, Transition.Ends (step (C.host V) context) (fun s => outward (shows C s)) s
        (untold (shows C' s')) r ∧ r.Alike r' := by
    intro s' s r' hc hr'
    obtain ⟨t, htrail, ht, hshows, ⟨-, v', -, hv', -⟩ | ⟨q, q', hq, hq', halike⟩⟩ :=
      together_of_trail h pausing hc.first hc.second hc.tame hc.abreast
    · rw [hr'] at hv'
      cases hv'
    · obtain rfl : q' = r' := Transition.done.inj (hq'.symm.trans hr')
      have hall := htrail.ends (.last hq)
      rw [List.nil_append, hshows] at hall
      exact ⟨q, hall, halike⟩
  have huntold : Transition.Ends (step (C'.host V) context) (fun s => untold (shows C' s)) s'
      (untold ls') r' := ends.filter fun ev : Event => !ev.isTold
  obtain ⟨r, hends, halike⟩ := Transition.Ends.of_matching
    (M := fun s' s => Coupled C context V M s s') hnext hdone huntold hc
  obtain ⟨ls, hends, hls⟩ := hends.of_filter
  exact ⟨ls, r, hends, hls.symm, halike⟩

/-! ## From the start -/

variable {p : P} {p' : P'} {g g' : Nat}

variable (context) in
/-- Two loops that have begun to drive do the same. -/
theorem coupled_begun (C' : Programs P')
    (hq : M ⟨p, [g], .send .null⟩ ⟨p', [g'], .send .null⟩) (site : Site W) (run : Nat)
    (earlier : List (Nat × Outcome)) (trace : Option Trace) (captured : Bool)
    (tame : Tame ExnOf.isOrdinary (step (C.host V) context) (shows C)
      (.start (p, site) run earlier (.drive (.computation g) trace captured))) :
    Coupled C context V M ((begun site run earlier trace captured).amid (Prod.mk p) [] [g])
      ((begun site run earlier trace captured).amid (Prod.mk p') [] [g']) := by
  obtain ⟨htrail, hsteady⟩ := trail_begun C V context (p, site) run earlier g trace captured
  obtain ⟨-, hsteady'⟩ := trail_begun C' V context (p', site) run earlier g' trace captured
  exact ⟨hsteady, hsteady', tame.reaches htrail.reaches, .telling (q := ⟨p, [g], .send .null⟩)
    (r := ⟨p', [g'], .send .null⟩) [] [] rfl rfl rfl hq⟩

section

variable {site : Site W} {run : Nat} {earlier : List (Nat × Outcome)} {trace : Option Trace}
  {captured : Bool}

/-- **A single computation is driven as its stack is.** -/
theorem single_of_start (h : Tandem C C' M) (hq : M ⟨p, [g], .send .null⟩ ⟨p', [g'], .send .null⟩)
    (tame : Tame ExnOf.isOrdinary (step (C.host V) context) (shows C)
      (.start (p, site) run earlier (.drive (.computation g) trace captured))) {ls : List Event}
    {r : Ending (P × Site W)} (ends : Transition.Ends (step (C.host V) context) (shows C)
      (.start (p, site) run earlier (.drive (.computation g) trace captured)) ls r) :
    ∃ ls' r', Transition.Ends (step (C'.host V) context) (shows C')
        (.start (p', site) run earlier (.drive (.computation g') trace captured)) ls' r' ∧
      untold ls' = outward ls ∧ r.Alike r' := by
  obtain ⟨htrail, -⟩ := trail_begun C V context (p, site) run earlier g trace captured
  obtain ⟨htrail', -⟩ := trail_begun C' V context (p', site) run earlier g' trace captured
  obtain ⟨ms, rfl, hends⟩ := htrail.rest ends
  obtain ⟨ls', r', hends', hls, halike⟩ :=
    single_of_ends h (coupled_begun context C' hq site run earlier trace captured tame) hends
  exact ⟨ls', r', htrail'.ends hends', hls, halike⟩

/-- **A stack is driven as its single computation is**, if it always comes to its next
pause. -/
theorem start_of_single (h : Tandem C C' M) (pausing : Pausing C M)
    (hq : M ⟨p, [g], .send .null⟩ ⟨p', [g'], .send .null⟩)
    (tame : Tame ExnOf.isOrdinary (step (C.host V) context) (shows C)
      (.start (p, site) run earlier (.drive (.computation g) trace captured))) {ls' : List Event}
    {r' : Ending (P' × Site W)} (ends : Transition.Ends (step (C'.host V) context) (shows C')
      (.start (p', site) run earlier (.drive (.computation g') trace captured)) ls' r') :
    ∃ ls r, Transition.Ends (step (C.host V) context) (shows C)
        (.start (p, site) run earlier (.drive (.computation g) trace captured)) ls r ∧
      untold ls' = outward ls ∧ r.Alike r' := by
  obtain ⟨htrail, -⟩ := trail_begun C V context (p, site) run earlier g trace captured
  obtain ⟨htrail', -⟩ := trail_begun C' V context (p', site) run earlier g' trace captured
  obtain ⟨ms, rfl, hends⟩ := htrail'.rest ends
  obtain ⟨ls, r, hends', hls, halike⟩ := ends_of_single h pausing
    (coupled_begun context C' hq site run earlier trace captured tame) hends
  exact ⟨ls, r, htrail.ends hends', hls, halike⟩

end

end

end EventLoop
end DescribedEffects
