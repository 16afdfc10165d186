import DescribedEffects.Proofs.Driving.Dialogue

/-!
# Two stacks in tandem

A stack of computations can be matched by a single computation that makes the pauses of the
stack, each in one resumption: a `Tandem`.  The stack may take several steps to its next
pause, and meanwhile the single computation waits.

In a dialogue both get the same answers from the same partner, and so they come to the same
end and show the same of their effects (`Tandem.single_of_dialogue`).  What differs is only
what happens between computations: who is told what, and what an inner computation leaves to
an outer one.
-/

namespace DescribedEffects

/-- No inner computation ends with an exception that is not of this kind. -/
def Tame {S R : Type} (kind : Exn → Bool) (step : S → Transition S R) (shows : S → List Event)
    (s : S) : Prop :=
  ∀ u, Transition.Reaches step s u → ∀ e, .passed e ∈ shows u → kind e = true

section

variable {S R : Type} {kind : Exn → Bool} {step : S → Transition S R} {shows : S → List Event}
  {s t : S}

theorem Tame.reaches (h : Tame kind step shows s) (ht : Transition.Reaches step s t) :
    Tame kind step shows t :=
  fun u hu => h u (ht.trans hu)

/-- What a run shows tells whether it is tame. -/
theorem tame_iff_of_ends {ls : List Event} {r : R} (h : Transition.Ends step shows s ls r) :
    Tame kind step shows s ↔ ∀ e, .passed e ∈ ls → kind e = true := by
  constructor
  · intro tame e he
    induction h with
    | last final => exact tame _ (.refl _) e he
    | more first _ ih =>
      rcases List.mem_append.1 he with he | he
      · exact tame _ (.refl _) e he
      · exact ih (tame.reaches (.head first (.refl _))) he
  · intro tame u hu e he
    obtain ⟨ms, hms⟩ := hu.exists_trail shows
    obtain ⟨ns, rfl, hns⟩ := hms.rest h
    refine tame e (List.mem_append_right _ ?_)
    cases hns with
    | last final => exact he
    | more first rest => exact List.mem_append_left _ he

end

/-- Two pauses for the same reason, that leave the computations in related states whatever they
are told next. -/
inductive Pause.Alike {P P' : Type} (M : Solo P → Solo P' → Prop) : Pause P → Pause P' → Prop
  | yielded (item : Value) {p : P} {a : List Nat} {p' : P'} {a' : List Nat}
      (h : ∀ signal, M ⟨p, a, signal⟩ ⟨p', a', signal⟩) :
      Alike M (.yielded item p a) (.yielded item p' a')
  | ended (o : Outcome) (p : P) (p' : P') : Alike M (.ended o p) (.ended o p')

/-- A stack of computations and a single computation that makes the pauses of the stack, each
in one resumption.  Related are also states midway, where the stack has moved already. -/
structure Tandem {P P' : Type} (C : Programs P) (C' : Programs P') (M : Solo P → Solo P' → Prop) :
    Prop where
  active : ∀ q q', M q q' → q.active ≠ []
  single : ∀ q q', M q q' → ∃ g, q'.active = [g]
  step : ∀ q q', M q q' → (∀ e, .passed e ∈ Solo.shows C q → e.isOrdinary = true) →
    (Solo.step C q).Leads (fun r => M r q')
      (fun pause => ∃ pause', Solo.step C' q' = .done pause' ∧ pause.Alike M pause')

/-- A stack always comes to its next pause. -/
def Pausing {P P' : Type} (C : Programs P) (M : Solo P → Solo P' → Prop) : Prop :=
  ∀ q q', M q q' → Tame ExnOf.isOrdinary (Solo.step C) (Solo.shows C) q →
    ∃ ls pause, Transition.Ends (Solo.step C) (Solo.shows C) q ls pause

section

variable {P P' : Type} {C : Programs P} {C' : Programs P'} {M : Solo P → Solo P' → Prop}

/-- The single computation waits while the stack is on its way to the pause. -/
theorem Tandem.reaches (h : Tandem C C' M) {q u : Solo P} {q' : Solo P'} (hq : M q q')
    (tame : Tame ExnOf.isOrdinary (Solo.step C) (Solo.shows C) q)
    (hu : Transition.Reaches (Solo.step C) q u) : M u q' := by
  induction hu with
  | refl q => exact hq
  | @head q t u first _ ih =>
    have hstep := h.step q q' hq (tame q (.refl q))
    rw [first] at hstep
    exact ih hstep (tame.reaches (.head first (.refl t)))

/-! ### What can be told from outside -/

/-- Something that happens between computations. -/
def Event.isAside : Event → Bool
  | .told .. | .passed _ => true
  | _ => false

/-- Something that a computation is told. -/
def Event.isTold : Event → Bool
  | .told .. => true
  | _ => false

/-- What is seen of the effects. -/
def outward (events : List Event) : List Event := events.filter fun ev => !ev.isAside

/-- Everything but what computations are told. -/
def untold (events : List Event) : List Event := events.filter fun ev => !ev.isTold

theorem outward_append (es fs : List Event) : outward (es ++ fs) = outward es ++ outward fs :=
  List.filter_append ..

theorem untold_append (es fs : List Event) : untold (es ++ fs) = untold es ++ untold fs :=
  List.filter_append ..

@[simp] theorem exchanges_outward (events : List Event) :
    exchanges (outward events) = exchanges events := by
  unfold exchanges outward
  rw [List.filterMap_filter]
  congr 1
  funext ev
  cases ev <;> rfl

@[simp] theorem exchanges_untold (events : List Event) :
    exchanges (untold events) = exchanges events := by
  unfold exchanges untold
  rw [List.filterMap_filter]
  congr 1
  funext ev
  cases ev <;> rfl

/-- A stack that moves on its own shows nothing of the effects. -/
@[simp] theorem outward_shows (C : Programs P) (q : Solo P) : outward (Solo.shows C q) = [] := by
  unfold Solo.shows
  split
  · rfl
  · split <;> rfl

/-- A single computation leaves nothing to anybody. -/
theorem untold_shows_single (C : Programs P) (p : P) (g : Nat) (signal : Signal) :
    untold (Solo.shows C ⟨p, [g], signal⟩) = [] := by
  have hshows : Solo.shows C ⟨p, [g], signal⟩ = [.told g signal] := by
    cases h : Host.settle (C.resume g signal p).1 <;> simp [Solo.shows, h]
  rw [hshows]
  rfl

/-! ### In dialogue with the same partner -/

variable {X : Type} {A : Partner X} {y : X}

/-- Two dialogues end alike. -/
inductive Dialogue.Ending.Alike : Dialogue.Ending P X → Dialogue.Ending P' X → Prop
  | ended (o : Outcome) (p : P) (p' : P') (y : X) : Alike (.ended o p y) (.ended o p' y)
  | silent (item : Value) (p : P) (a : List Nat) (p' : P') (a' : List Nat) (y : X) :
      Alike (.silent item p a y) (.silent item p' a' y)

/-- The partner answers the same to both. -/
theorem Pause.Alike.resolve {pause : Pause P} {pause' : Pause P'} (h : pause.Alike M pause')
    (A : Partner X) (y : X) :
    (Dialogue.resolve A y pause).Leads
      (fun D => ∃ q', Dialogue.resolve A y pause' = .next ⟨q', D.partner⟩ ∧ M D.solo q')
      (fun E => ∃ E', Dialogue.resolve A y pause' = .done E' ∧ E.Alike E') := by
  cases h with
  | ended o p p' => exact ⟨_, rfl, .ended o p p' y⟩
  | @yielded item p a p' a' related =>
    cases hanswer : A.answer item y with
    | mk o x =>
      cases o with
      | none =>
        simp only [Dialogue.resolve, hanswer]
        exact ⟨_, rfl, .silent item p a p' a' x⟩
      | some o =>
        rw [Dialogue.resolve_of_answer hanswer, Dialogue.resolve_of_answer hanswer]
        cases o with
        | ok v => exact ⟨_, rfl, related _⟩
        | error e =>
          unfold Dialogue.tell
          dsimp only
          by_cases he : e.isOrdinary = true
          · rw [if_pos he, if_pos he]
            exact ⟨_, rfl, related _⟩
          · rw [if_neg he, if_neg he]
            exact ⟨_, rfl, .ended _ p p' x⟩

/-- Both pauses show the same answer. -/
theorem Pause.Alike.answers {pause : Pause P} {pause' : Pause P'} (h : pause.Alike M pause')
    (A : Partner X) (y : X) : Dialogue.answers A y pause = Dialogue.answers A y pause' := by
  cases h with
  | ended o p p' => rfl
  | yielded item related => rfl

/-- An answer is nothing that computations are told or leave to each other. -/
theorem outward_answers (pause : Pause P) :
    outward (Dialogue.answers A y pause) = Dialogue.answers A y pause := by
  unfold Dialogue.answers
  repeat' split
  all_goals rfl

theorem untold_answers (pause : Pause P) :
    untold (Dialogue.answers A y pause) = Dialogue.answers A y pause := by
  unfold Dialogue.answers
  repeat' split
  all_goals rfl

/-- At a pause both show the same. -/
theorem Tandem.shows_of_pause (h : Tandem C C' M) {q : Solo P} {q' : Solo P'} (hq : M q q')
    {pause : Pause P} {pause' : Pause P'} (hpause : Solo.step C q = .done pause)
    (hpause' : Solo.step C' q' = .done pause') (alike : pause.Alike M pause') :
    outward (Dialogue.shows C A ⟨q, y⟩) = untold (Dialogue.shows C' A ⟨q', y⟩) := by
  obtain ⟨p', a', signal'⟩ := q'
  obtain ⟨g, rfl⟩ := h.single q _ hq
  rw [Dialogue.shows_of_pause hpause, Dialogue.shows_of_pause hpause', outward_append,
    untold_append, outward_shows, untold_shows_single, outward_answers, untold_answers,
    alike.answers A y]

/-- A step of the stack in a dialogue.  The single computation takes it as well, or waits. -/
theorem Tandem.dialogue_step (h : Tandem C C' M) {q : Solo P} {q' : Solo P'} (hq : M q q')
    (tame : ∀ e, .passed e ∈ Solo.shows C q → e.isOrdinary = true) :
    (Dialogue.step C A ⟨q, y⟩).Leads
      (fun D => ∃ q₁, Transition.Trail (Dialogue.step C' A)
          (fun D => untold (Dialogue.shows C' A D)) ⟨q', y⟩
          (outward (Dialogue.shows C A ⟨q, y⟩)) ⟨q₁, D.partner⟩ ∧ M D.solo q₁)
      (fun E => ∃ E', Transition.Ends (Dialogue.step C' A)
          (fun D => untold (Dialogue.shows C' A D)) ⟨q', y⟩
          (outward (Dialogue.shows C A ⟨q, y⟩)) E' ∧ E.Alike E') := by
  have hstep := h.step q q' hq tame
  cases hsolo : Solo.step C q with
  | next r =>
    rw [hsolo] at hstep
    rw [Dialogue.step_of_next hsolo, Dialogue.shows_of_next hsolo, outward_shows]
    exact ⟨q', .refl _, hstep⟩
  | done pause =>
    rw [hsolo] at hstep
    obtain ⟨pause', hsolo', alike⟩ := hstep
    have hresolve := alike.resolve A y
    have hsame : Dialogue.step C' A ⟨q', y⟩ = Dialogue.resolve A y pause' :=
      Dialogue.step_of_pause hsolo'
    rw [Dialogue.step_of_pause hsolo, h.shows_of_pause hq hsolo hsolo' alike]
    refine hresolve.imp ?_ ?_
    · rintro D ⟨q₁, hnext, hrelated⟩
      exact ⟨q₁, .single (hsame.trans hnext), hrelated⟩
    · rintro E ⟨E', hdone, halike⟩
      exact ⟨E', .last (hsame.trans hdone), halike⟩

/-- **The single computation comes to the end of the stack**, in a dialogue with the same
partner. -/
theorem Tandem.single_of_dialogue (h : Tandem C C' M) {D : Dialogue P X} {ls : List Event}
    {E : Dialogue.Ending P X}
    (ends : Transition.Ends (Dialogue.step C A) (Dialogue.shows C A) D ls E)
    (tame : ∀ e, .passed e ∈ ls → e.isOrdinary = true) {q' : Solo P'} (hq : M D.solo q') :
    ∃ ls' E', Transition.Ends (Dialogue.step C' A) (Dialogue.shows C' A) ⟨q', D.partner⟩ ls' E' ∧
      untold ls' = outward ls ∧ E.Alike E' := by
  obtain ⟨E', hends, halike⟩ : ∃ E', Transition.Ends (Dialogue.step C' A)
      (fun D => untold (Dialogue.shows C' A D)) ⟨q', D.partner⟩ (outward ls) E' ∧ E.Alike E' := by
    induction ends generalizing q' with
    | @last D E final =>
      have hstep := h.dialogue_step (A := A) (y := D.partner) hq fun e he =>
        tame e (List.mem_append_left _ he)
      have hfinal : Dialogue.step C A ⟨D.solo, D.partner⟩ = .done E := final
      rw [hfinal] at hstep
      exact hstep
    | @more D D' ls E first rest ih =>
      have hstep := h.dialogue_step (A := A) (y := D.partner) hq fun e he =>
        tame e (List.mem_append_left _ (List.mem_append_left _ he))
      have hfirst : Dialogue.step C A ⟨D.solo, D.partner⟩ = .next D' := first
      rw [hfirst] at hstep
      obtain ⟨q₁, htrail, hrelated⟩ := hstep
      obtain ⟨E', hends, halike⟩ := ih (fun e he => tame e (List.mem_append_right _ he)) hrelated
      rw [outward_append]
      exact ⟨E', htrail.ends hends, halike⟩
  obtain ⟨ls', hends, hls⟩ := hends.of_filter
  exact ⟨ls', E', hends, hls, halike⟩

end

end DescribedEffects
