import DescribedEffects.Proofs.Harness.Dialogues

/-!
# Expectations as a script

A list of expectations that are met one after the other is a list of outcomes that are known
in advance (`Scripted`).  As long as the effects of a computation are the ones that are
expected, the partner who answers from the expectations agrees with the partner who answers
from the outcomes (`script_agrees`), whatever else is made or called meanwhile.  And whatever
a test has answered, the answers are a script (`desk_agrees`).

An exception that the harness keeps from a computation would have been told to it in a
dialogue.  So in a dialogue no verdict is ever told exactly when it is calm
(`Dialogue.calm_of_told`), and in a test none is told at all (`spared_of_ends`).
-/

namespace DescribedEffects

variable {P W X : Type}

/-- What an expectation that is met says of an effect, and the world after that. -/
def ExpectationOf.response (x : Expectation) (V : World W) (d : Descriptor) (w : W) : Outcome × W :=
  match ExpectationOf.answer x d with
  | .value v => (.ok v, w)
  | .raise e => (.error e, w)
  | .call f args => V.call f args w

/-- The expectations are met by these effects, one after the other, and say these outcomes.
There may be more of them. -/
inductive Scripted (V : World W) (matchArgs : Bool) :
    List Expectation → W → List (Descriptor × Outcome) → Prop
  | none (E : List Expectation) (w : W) : Scripted V matchArgs E w []
  | met {x : Expectation} {E : List Expectation} {d expected : Descriptor} {o : Outcome}
      {w w' : W} {xs : List (Descriptor × Outcome)} (reads : x.descriptor = .ok expected)
      (meets : ExpectationOf.compare expected d matchArgs = .ok true)
      (responds : x.response V d w = (o, w')) (rest : Scripted V matchArgs E w' xs) :
      Scripted V matchArgs (x :: E) w ((d, o) :: xs)

/-! ## What a dialogue tells -/

/-- No verdict is told to a computation. -/
def Spared (events : List Event) : Prop := ∀ g e, .told g (.throw e) ∈ events → e.isVerdict = false

theorem Spared.append {es fs : List Event} (h : Spared es) (k : Spared fs) : Spared (es ++ fs) :=
  fun g e he => (List.mem_append.1 he).elim (h g e) (k g e)

theorem Spared.right {es fs : List Event} (h : Spared (es ++ fs)) : Spared fs :=
  fun g e he => h g e (List.mem_append_right _ he)

/-- A verdict that an inner computation leaves to the next one is what that one is told. -/
theorem Solo.calm_or_told {C : Programs P} {q : Solo P} :
    (Solo.step C q).Leads
      (fun q' => Calm (Solo.shows C q) ∨ ∃ e, q'.signal = .throw e ∧ e.isVerdict = true)
      (fun _ => Calm (Solo.shows C q)) := by
  obtain ⟨p, _ | ⟨g, rest⟩, signal⟩ := q
  · exact calm_nil
  · have htold : Calm [.told g signal] := calm_cons.2 ⟨rfl, calm_nil⟩
    rw [Solo.step_cons]
    unfold Solo.shows
    dsimp only
    cases hreply : Host.settle (C.resume g signal p).1 with
    | yielded item => exact (Transition.leads_trivial _).imp (fun _ _ => .inl htold) fun _ _ => htold
    | returned v => exact (Transition.leads_trivial _).imp (fun _ _ => .inl htold) fun _ _ => htold
    | raised e =>
      cases rest with
      | nil => exact htold
      | cons h rest =>
        unfold Solo.react Solo.leave
        dsimp only
        cases hv : e.isVerdict with
        | true =>
          rw [if_pos (Harness.isOrdinary_of_verdict hv)]
          exact .inr ⟨e, rfl, hv⟩
        | false =>
          have hcalm : Calm [.told g signal, .passed e] :=
            calm_cons.2 ⟨rfl, calm_cons.2 ⟨by simp [Event.isCalm, hv], calm_nil⟩⟩
          split
          · exact .inl hcalm
          · exact hcalm

namespace Dialogue

variable {C : Programs P} {A : Partner X}

/-- Nothing is told but what the innermost computation is about to be told. -/
theorem signal_of_told {D : Dialogue P X} {g : Nat} {signal : Signal}
    (h : .told g signal ∈ shows C A D) : D.solo.signal = signal := by
  rcases List.mem_append.1 h with h | h
  · unfold Solo.shows at h
    split at h
    · cases h
    · rcases List.mem_cons.1 h with h | h
      · cases h
        rfl
      · split at h
        · cases List.mem_singleton.1 h
        · cases h
  · unfold answers at h
    split at h
    · cases h
    · split at h
      · cases h
      · split at h
        · cases h
        · split at h <;> cases List.mem_singleton.1 h

/-- An exception that the innermost computation is about to be told is the first thing that is
shown. -/
theorem told_of_signal {D : Dialogue P X} {ls : List Event} {E : Ending P X} {e : Exn}
    (h : Transition.Ends (step C A) (shows C A) D ls E) (hD : D.solo.active ≠ [])
    (he : D.solo.signal = .throw e) : ∃ g, .told g (.throw e) ∈ ls := by
  obtain ⟨g, rest, hactive⟩ := List.exists_cons_of_ne_nil hD
  have hshown : Event.told g (.throw e) ∈ shows C A D := by
    unfold shows Solo.shows
    rw [hactive]
    dsimp only
    rw [he]
    exact List.mem_append_left _ (List.mem_cons_self ..)
  cases h with
  | last _ => exact ⟨g, hshown⟩
  | more _ _ => exact ⟨g, List.mem_append_left _ hshown⟩

/-- What becomes of a verdict that is fed back: the innermost computation is told it next. -/
theorem calm_or_told_of_pause (A : Partner X) (x : X) (pause : Pause P) :
    (resolve A x pause).Leads
      (fun D => Calm (answers A x pause) ∨ ∃ e, D.solo.signal = .throw e ∧ e.isVerdict = true)
      (fun E => ∀ o p x', E = .ended o p x' → Calm (answers A x pause)) := by
  cases pause with
  | ended o p => exact fun _ _ _ _ => calm_nil
  | yielded item p a =>
    cases hparse : Descriptor.parse item with
    | error m =>
      rw [answers_of_malformed hparse]
      exact (Transition.leads_trivial _).imp (fun _ _ => .inl calm_nil) fun _ _ _ _ _ _ => calm_nil
    | ok d =>
      cases hanswer : A.answer item x with
      | mk o x' =>
        cases o with
        | none =>
          simp only [resolve, hanswer]
          intro o p x'' hE
          cases hE
        | some o =>
          rw [resolve_of_answer hanswer, answers_of_answer hparse (congrArg Prod.fst hanswer)]
          cases o with
          | ok v => exact .inl (calm_cons.2 ⟨rfl, calm_nil⟩)
          | error e =>
            unfold tell
            dsimp only
            cases hv : e.isVerdict with
            | true =>
              rw [if_pos (Harness.isOrdinary_of_verdict hv)]
              exact .inr ⟨e, rfl, hv⟩
            | false =>
              have hcalm : Calm [.answered d (.error e)] :=
                calm_cons.2 ⟨by simp [Event.isCalm, hv], calm_nil⟩
              split
              · exact .inl hcalm
              · exact fun _ _ _ _ => hcalm

/-- A verdict that is passed on or fed back is what the innermost computation is told next. -/
theorem calm_or_told {D : Dialogue P X} :
    (step C A D).Leads
      (fun D' => Calm (shows C A D) ∨ ∃ e, D'.solo.signal = .throw e ∧ e.isVerdict = true)
      (fun E => ∀ o p x, E = .ended o p x → Calm (shows C A D)) := by
  obtain ⟨q, x⟩ := D
  have hsolo := Solo.calm_or_told (C := C) (q := q)
  cases hq : Solo.step C q with
  | next q' =>
    rw [hq] at hsolo
    rw [step_of_next hq, shows_of_next hq]
    exact hsolo
  | done pause =>
    rw [hq] at hsolo
    rw [step_of_pause hq, shows_of_pause hq]
    refine (calm_or_told_of_pause A x pause).imp ?_ ?_
    · rintro D' (hcalm | htold)
      · exact .inl (hsolo.append hcalm)
      · exact .inr htold
    · intro E hcalm o p x' hE
      exact hsolo.append (hcalm o p x' hE)

/-- **A dialogue in which no verdict is told is calm.** -/
theorem calm_of_told {D : Dialogue P X} {ls : List Event} {E : Ending P X}
    (h : Transition.Ends (step C A) (shows C A) D ls E) (hD : D.solo.active ≠ []) {o : Outcome}
    {p : P} {x : X} (hE : E = .ended o p x) (spared : Spared ls) : Calm ls := by
  induction h with
  | @last D E final =>
    have hcalm := calm_or_told (C := C) (A := A) (D := D)
    rw [final] at hcalm
    exact hcalm o p x hE
  | @more D D' ls E first rest ih =>
    have hD' := active_of_step hD first
    have hlater := ih hD' hE spared.right
    have hcalm := calm_or_told (C := C) (A := A) (D := D)
    rw [first] at hcalm
    rcases hcalm with hcalm | ⟨e, he, hv⟩
    · exact hcalm.append hlater
    · obtain ⟨g, hg⟩ := told_of_signal rest hD' he
      rw [spared.right g e hg] at hv
      cases hv

end Dialogue

/-! ## What a test tells -/

namespace Harness

section

variable {σ : Type} {H : Host σ} {matchArgs : Bool}

/-- No verdict is about to be told. -/
def State.Spares (s : State σ) : Prop :=
  ∀ e, s.control = .deliver (.throw e) → e.isVerdict = false

theorem spares_send (s : State σ) (v : Value) : (s.deliver (.send v)).Spares := by
  intro e he
  cases he

theorem spares_fail (e : Exn) (s : State σ) : (s.fail e).Spares := by
  unfold State.fail
  intro e' he
  split at he
  · cases he
  · next h =>
    cases he
    have hneither : e.isVerdict = false ∧ e.isOrdinary = true := by simpa using h
    exact hneither.1

theorem spares_answer (o : Outcome) (s : State σ) : (answer s o).Spares := by
  cases o with
  | ok v => exact spares_send s v
  | error e => exact spares_fail e s

theorem spares_produce (x : Expectation) (d : Descriptor) (s : State σ) :
    (produce H x d s).Spares := by
  unfold produce
  split <;> exact spares_answer _ _

theorem spares_examine (d : Descriptor) (s : State σ) : (examine H matchArgs d s).Spares := by
  unfold examine
  split
  · exact spares_fail _ _
  · split
    · exact spares_fail _ _
    · split
      · exact spares_fail _ _
      · exact spares_fail _ _
      · exact spares_produce _ _ _

theorem spares_receive (item : Value) (s : State σ) : (receive H matchArgs item s).Spares := by
  unfold receive
  split
  · intro e he
    cases he
  · split
    · exact spares_fail _ _
    · exact spares_examine _ _

/-- The harness keeps verdicts from the computations. -/
theorem spares_of_step {s t : State σ} (h : step H matchArgs s = .next t) : t.Spares := by
  obtain ⟨host, active, pending, consumed, notes, signal | e⟩ := s
  · cases active with
    | nil => cases h
    | cons g rest =>
      simp only [step, stepDeliver] at h
      unfold react at h
      split at h
      · cases h
        exact spares_receive _ _
      · unfold leave at h
        split at h
        · cases h
        · cases h
          exact spares_send _ _
      · cases h
        intro e he
        cases he
  · cases active with
    | nil => cases h
    | cons g rest =>
      simp only [step, stepEscape] at h
      split at h
      · cases h
      · cases h
        exact spares_fail _ _

end

section

variable {C : Programs P} {V : World W} {matchArgs : Bool}

/-- What a state tells is what it is about to deliver. -/
theorem spared_of_spares {s : State (P × Site W)} (h : s.Spares) :
    Spared (shows C V matchArgs s) := by
  intro g e he
  unfold shows at he
  split at he
  · next signal hcontrol =>
    obtain rfl := Dialogue.signal_of_told he
    exact h e hcontrol
  · cases he

/-- **No verdict is told in a test.** -/
theorem spared_of_ends {s : State (P × Site W)} {ls : List Event} {r : Ending (P × Site W)}
    (h : Transition.Ends (step (C.host V) matchArgs) (shows C V matchArgs) s ls r)
    (hs : s.Spares) : Spared ls := by
  induction h with
  | last _ => exact spared_of_spares hs
  | more first _ ih => exact (spared_of_spares hs).append (ih (spares_of_step first))

end

/-! ## Partners who follow a script -/

section

variable {V : World W} {matchArgs : Bool} {k : Desk W} {d : Descriptor}

theorem feed_eq (V : World W) (x : Expectation) (d : Descriptor) (k : Desk W) :
    feed V x d k = (some (x.response V d k.site.world).1,
      { k with site := { k.site with world := (x.response V d k.site.world).2 } }) := by
  unfold feed ExpectationOf.response
  cases x.answer d <;> rfl

/-- What the partner makes of an item that is no descriptor. -/
theorem partner_of_malformed {item : Value} {m : Malformed} (hplain : item.isComputation = false)
    (h : Descriptor.parse item = .error m) (k : Desk W) :
    (partner V matchArgs).answer item k =
      (some (.error ⟨Nat.pair (k.site.items + 1) 0, m.body⟩),
        { k with site := ⟨k.site.world, k.site.items + 1, 1⟩ }) := by
  simp only [partner, h, Site.hear_item _ hplain]
  rfl

/-- What the partner makes of an effect. -/
theorem partner_of_effect {item : Value} (hplain : item.isComputation = false)
    (h : Descriptor.parse item = .ok d) (k : Desk W) :
    (partner V matchArgs).answer item k =
      answerEffect V matchArgs d { k with site := ⟨k.site.world, k.site.items + 1, 0⟩ } := by
  simp only [partner, h, Site.hear_item _ hplain]

/-- No items are yielded while an effect is answered. -/
theorem items_answerEffect (V : World W) (matchArgs : Bool) (d : Descriptor) (k : Desk W) :
    (answerEffect V matchArgs d k).2.site.items = k.site.items := by
  unfold answerEffect
  split
  · rfl
  · split
    · rfl
    · split
      · rfl
      · rfl
      · rw [feed_eq]

/-- An effect that meets the next expectation is answered with what that one says. -/
theorem answerEffect_of_meets {x : Expectation} {rest : List Expectation} {expected : Descriptor}
    {o : Outcome} {w : W} (hpending : k.pending = x :: rest) (reads : x.descriptor = .ok expected)
    (meets : ExpectationOf.compare expected d matchArgs = .ok true)
    (responds : x.response V d k.site.world = (o, w)) :
    answerEffect V matchArgs d k =
      (some o, ⟨{ k.site with world := w }, rest, k.consumed + 1,
        k.notes ++ [.matched k.consumed d]⟩) := by
  simp only [answerEffect, hpending, reads, meets, feed_eq, responds]

variable (V matchArgs) in
/-- What is before one who answers from a script and before one who answers from
expectations: the same effects are to come, and in the end so many expectations have been met
and these are left. -/
structure Ahead (total : Nat) (left : List Expectation) (xs : List (Descriptor × Outcome))
    (s : Script) (k : Desk W) : Prop where
  items : s.items = k.site.items
  scripted : Scripted V matchArgs k.pending k.site.world xs
  left : k.pending.drop xs.length = left
  total : k.consumed + xs.length = total

variable (V matchArgs) in
/-- **Expectations that are met one after the other are as good as their outcomes.** -/
theorem script_agrees (total : Nat) (left : List Expectation) :
    Dialogue.Agree .script (partner V matchArgs) (Ahead V matchArgs total left) where
  malformed := by
    rintro item m xs ⟨items, outcomes⟩ k hplain hparse ⟨rfl, hscripted, hleft, htotal⟩
    rw [Partner.script_of_malformed hparse, partner_of_malformed hplain hparse]
    exact ⟨_, rfl, rfl, hscripted, hleft, htotal⟩
  effect := by
    rintro item d o xs ⟨items, outcomes⟩ k hplain hparse ⟨rfl, hscripted, hleft, htotal⟩ hanswer
    have hitems : (Partner.script.answer item ⟨k.site.items, outcomes⟩).2.items =
        k.site.items + 1 := by
      unfold Partner.script
      dsimp only
      rw [hparse]
      cases outcomes <;> rfl
    rw [partner_of_effect hplain hparse]
    obtain ⟨site, pending, consumed, notes⟩ := k
    cases hscripted with
    | met reads meets responds rest =>
      refine ⟨_, answerEffect_of_meets rfl reads meets responds, hitems, rest, hleft, ?_⟩
      have htotal : consumed + (xs.length + 1) = total := htotal
      show consumed + 1 + xs.length = total
      omega

variable (V matchArgs) in
/-- **The answers of a test are a script.** -/
theorem desk_agrees :
    Dialogue.Agree (partner V matchArgs) .script
      fun xs k s => s.items = k.site.items ∧ s.outcomes = xs.map Prod.snd where
  malformed := by
    rintro item m xs k ⟨items, outcomes⟩ hplain hparse ⟨rfl, rfl⟩
    rw [Partner.script_of_malformed hparse, partner_of_malformed hplain hparse]
    exact ⟨_, rfl, rfl, rfl⟩
  effect := by
    rintro item d o xs k ⟨items, outcomes⟩ hplain hparse ⟨rfl, rfl⟩ hanswer
    refine ⟨_, Partner.script_of_effect hparse _ o (xs.map Prod.snd), ?_, rfl⟩
    rw [partner_of_effect hplain hparse, items_answerEffect]

end

end Harness
end DescribedEffects
