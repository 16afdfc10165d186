import DescribedEffects.Proofs.Driving.Dialogue
import DescribedEffects.Proofs.Harness.Mismatch

/-!
# The harness as a dialogue

Under test, computations are in dialogue with a partner who answers from the list of
expectations: the `Desk` is what the partner has before it, and `partner` says how it
answers.  It has no answer to an effect that does not meet the next expectation.

The harness is that dialogue as long as no verdict is kept from the computations that it
would be told in a dialogue: `Calm` says so of what is shown.  Then a test ends exactly as the
dialogue does (`ends_of_dialogue`, `dialogue_of_ends`).
-/

namespace DescribedEffects

/-- What the partner of a computation under test has before it. -/
structure Desk (W : Type) where
  site : Site W
  pending : List Expectation
  consumed : Nat
  notes : List Note

/-- The harness does not come between a computation and an exception that it should be
told, and an effect has an outcome. -/
def Event.isCalm : Event → Bool
  | .told .. => true
  | .passed e => !e.isVerdict
  | .answered _ (.ok _) => true
  | .answered _ (.error e) => !e.isVerdict
  | .unanswered _ => false

/-- No verdict is passed on or fed back, and every effect has an outcome. -/
def Calm (events : List Event) : Prop := ∀ ev ∈ events, ev.isCalm = true

theorem Calm.left {es fs : List Event} (h : Calm (es ++ fs)) : Calm es :=
  fun ev hev => h ev (List.mem_append_left _ hev)

theorem calm_nil : Calm [] := fun _ h => absurd h (List.not_mem_nil)

theorem calm_cons {ev : Event} {es : List Event} :
    Calm (ev :: es) ↔ ev.isCalm = true ∧ Calm es := List.forall_mem_cons

theorem Calm.append {es fs : List Event} (h : Calm es) (k : Calm fs) : Calm (es ++ fs) :=
  fun ev hev => (List.mem_append.1 hev).elim (h ev) (k ev)

theorem Calm.right {es fs : List Event} (h : Calm (es ++ fs)) : Calm fs :=
  fun ev hev => h ev (List.mem_append_right _ hev)

namespace Harness

variable {P W : Type}

/-! ## The partner -/

/-- An exception is made and answered with. -/
def refuseWith (V : World W) (body : ExnBody Value) (k : Desk W) : Option Outcome × Desk W :=
  (some (.error (V.still.raise body k.site).1), { k with site := (V.still.raise body k.site).2 })

/-- What an expectation that is met says. -/
def feed (V : World W) (x : Expectation) (d : Descriptor) (k : Desk W) :
    Option Outcome × Desk W :=
  match x.answer d with
  | .value v => (some (.ok v), k)
  | .raise e => (some (.error e), k)
  | .call f args =>
    (some (V.still.call f args k.site).1, { k with site := (V.still.call f args k.site).2 })

/-- An effect is held against the next expectation. -/
def answerEffect (V : World W) (matchArgs : Bool) (d : Descriptor) (k : Desk W) :
    Option Outcome × Desk W :=
  match k.pending with
  | [] => (none, k)
  | x :: rest =>
    match x.descriptor with
    | .error m => refuseWith V m.body k
    | .ok expected =>
      match ExpectationOf.compare expected d matchArgs with
      | .error f => refuseWith V f.body k
      | .ok false => (none, k)
      | .ok true =>
        feed V x d { k with
          pending := rest
          consumed := k.consumed + 1
          notes := k.notes ++ [.matched k.consumed d] }

/-- The partner of a computation under test. -/
def partner (V : World W) (matchArgs : Bool) : Partner (Desk W) where
  answer item k :=
    let k := { k with site := k.site.hear (.yielded item) }
    match Descriptor.parse item with
    | .error m => refuseWith V m.body k
    | .ok d => answerEffect V matchArgs d k

/-- The harness at its desk. -/
def place (p : P) (a : List Nat) (k : Desk W) (control : Control) : State (P × Site W) :=
  ⟨(p, k.site), a, k.pending, k.consumed, k.notes, control⟩

/-- What the harness shows of the computations under test. -/
def shows (C : Programs P) (V : World W) (matchArgs : Bool) (s : State (P × Site W)) :
    List Event :=
  match s.control with
  | .deliver signal =>
    Dialogue.shows C (partner V matchArgs)
      ⟨⟨s.host.1, s.active, signal⟩, ⟨s.host.2, s.pending, s.consumed, s.notes⟩⟩
  | .escape _ => []

variable (C : Programs P) (V : World W) {matchArgs : Bool} {p : P} {a : List Nat} {k : Desk W}
  {c : Control}

theorem failWith_place (body : ExnBody Value) :
    failWith (C.host V) body (place p a k c) =
      (place p a { k with site := (V.still.raise body k.site).2 } c).fail
        (V.still.raise body k.site).1 := rfl

/-- The harness finds the answers of the partner. -/
theorem produce_place (x : Expectation) (d : Descriptor) :
    ∃ o, (feed V x d k).1 = some o ∧
      produce (C.host V) x d (place p a k c) = answer (place p a (feed V x d k).2 c) o := by
  unfold feed produce
  cases x.answer d with
  | value v => exact ⟨_, rfl, rfl⟩
  | raise e => exact ⟨_, rfl, rfl⟩
  | call f args => exact ⟨_, rfl, rfl⟩

/-- An effect has the same outcome in the harness as with the partner. -/
theorem examine_place {d : Descriptor} {o : Outcome} {k' : Desk W}
    (h : answerEffect V matchArgs d k = (some o, k')) :
    examine (C.host V) matchArgs d (place p a k c) = answer (place p a k' c) o := by
  have hrefuse : ∀ body, refuseWith V body k = (some o, k') →
      failWith (C.host V) body (place p a k c) = answer (place p a k' c) o := by
    intro body h
    cases h
    exact failWith_place C V body
  unfold answerEffect at h
  unfold examine
  have hpending : (place p a k c).pending = k.pending := rfl
  rw [hpending]
  cases hk : k.pending with
  | nil => rw [hk] at h; cases h
  | cons x rest =>
    rw [hk] at h
    dsimp only at h ⊢
    cases hx : x.descriptor with
    | error m => rw [hx] at h; exact hrefuse _ h
    | ok expected =>
      rw [hx] at h
      dsimp only at h ⊢
      cases hcompare : ExpectationOf.compare expected d matchArgs with
      | error f => rw [hcompare] at h; exact hrefuse _ h
      | ok meets =>
        rw [hcompare] at h
        cases meets with
        | false => cases h
        | true =>
          let met : Desk W := { k with
            pending := rest, consumed := k.consumed + 1, notes := k.notes ++ [.matched k.consumed d] }
          have hfeed : feed V x d met = (some o, k') := h
          obtain ⟨o', ho', hproduce⟩ := produce_place C V (p := p) (a := a) (k := met) (c := c) x d
          rw [hfeed] at ho' hproduce
          cases ho'
          exact hproduce

/-- **The harness gives the answers of the partner.** -/
theorem receive_place {item : Value} {o : Outcome} {k' : Desk W}
    (hplain : item.isComputation = false)
    (h : (partner V matchArgs).answer item k = (some o, k')) :
    receive (C.host V) matchArgs item
        (place p a { k with site := k.site.hear (.yielded item) } c) =
      answer (place p a k' c) o := by
  rw [receive_of_plain hplain]
  simp only [partner] at h
  cases hparse : Descriptor.parse item with
  | error m =>
    rw [hparse] at h
    cases h
    exact failWith_place C V m.body
  | ok d =>
    rw [hparse] at h
    exact examine_place C V h

/-- The partner is silent only when an effect is not expected. -/
theorem parse_of_silent {item : Value} {k' : Desk W}
    (h : (partner V matchArgs).answer item k = (none, k')) : ∃ d, Descriptor.parse item = .ok d := by
  simp only [partner] at h
  cases hparse : Descriptor.parse item with
  | error m => rw [hparse] at h; cases h
  | ok d => exact ⟨d, rfl⟩

/-! ## One step of the dialogue -/

/-- How a test ends at its desk. -/
def ending (o : Outcome) (p : P) (k : Desk W) : Ending (P × Site W) :=
  ⟨o, (p, k.site), k.pending, k.consumed, k.notes⟩

/-- Nothing is shown while an exception leaves a computation. -/
theorem shows_escape (s : State (P × Site W)) (e : Exn) (h : s.control = .escape e) :
    shows C V matchArgs s = [] := by
  unfold shows
  rw [h]

/-- An exception that an inner computation raised reaches the next one. -/
theorem trail_of_passed {e : Exn} (ho : e.isOrdinary = true) (hv : e.isVerdict = false)
    (g h : Nat) (rest : List Nat) :
    Transition.Trail (step (C.host V) matchArgs) (shows C V matchArgs)
      (place p (g :: h :: rest) k (.escape e)) []
      (place p (h :: rest) k (.deliver (.throw e))) := by
  have hstep := step_escape (H := C.host V) matchArgs e (p, k.site) g (h :: rest) k.pending
    k.consumed k.notes
  rw [closeFor_of_not_verdict hv, fail_of_ordinary hv ho] at hstep
  have htrail : Transition.Trail _ (shows C V matchArgs) _ _ _ := .single hstep
  rwa [shows_escape C V _ e rfl] at htrail

/-- An exception that the last computation raised is the outcome of the test. -/
theorem ends_of_last {e : Exn} {g : Nat} (hclosed : (C.close g e p).1 = none) :
    ∃ p', Transition.Ends (step (C.host V) matchArgs) (shows C V matchArgs)
      (place p [g] k (.escape e)) [] (ending (.error e) p' k) := by
  have hstep := step_escape (H := C.host V) matchArgs e (p, k.site) g [] k.pending k.consumed
    k.notes
  obtain ⟨p', hclose⟩ : ∃ p', closeFor (C.host V) e g (p, k.site) = (e, p', k.site) := by
    cases hv : e.isVerdict with
    | true =>
      have hraised : ((C.host V).close g e (p, k.site)).1 = none := hclosed
      exact ⟨(C.close g e p).2, by rw [closeFor_of_verdict hv, hraised]; rfl⟩
    | false => exact ⟨p, closeFor_of_not_verdict hv g _⟩
  rw [hclose] at hstep
  have hlast : Transition.Ends _ (shows C V matchArgs) _ _ _ := .last hstep
  rw [shows_escape C V _ e rfl] at hlast
  exact ⟨p', hlast⟩

/-- The innermost computation is told an outcome that is no verdict. -/
theorem answer_place {o : Outcome} (hv : ∀ e, o = .error e → e.isVerdict = false) :
    (Dialogue.tell p a k o).Leads
      (fun D => answer (place p a k c) o =
        place D.solo.programs D.solo.active D.partner (.deliver D.solo.signal))
      (fun E => ∃ e, o = .error e ∧ e.isOrdinary = false ∧ E = .ended o p k ∧
        answer (place p a k c) o = place p a k (.escape e)) := by
  cases o with
  | ok v => rfl
  | error e =>
    unfold Dialogue.tell
    dsimp only
    by_cases he : e.isOrdinary = true
    · rw [if_pos he]
      exact fail_of_ordinary (hv e rfl) he _
    · rw [if_neg he]
      have he : e.isOrdinary = false := Bool.eq_false_iff.2 he
      exact ⟨e, rfl, he, rfl, fail_of_not_ordinary he _⟩

/-- What a step of the dialogue means to the harness. -/
def Follows (C : Programs P) (V : World W) (matchArgs : Bool) (q : Solo P) (k : Desk W) :
    Transition (Dialogue P (Desk W)) (Dialogue.Ending P (Desk W)) → Prop :=
  Transition.Leads
    (fun D => ∃ t, step (C.host V) matchArgs (place q.programs q.active k (.deliver q.signal)) =
        .next t ∧
      Transition.Trail (step (C.host V) matchArgs) (shows C V matchArgs) t []
        (place D.solo.programs D.solo.active D.partner (.deliver D.solo.signal)))
    (fun E => ∀ o p k', E = .ended o p k' → ∃ p',
      Transition.Ends (step (C.host V) matchArgs) (shows C V matchArgs)
        (place q.programs q.active k (.deliver q.signal))
        (Dialogue.shows C (partner V matchArgs) ⟨q, k⟩) (ending o p' k'))

section

variable {g : Nat} {rest : List Nat} {signal : Signal}

/-- The first step of a harness that then ends and shows nothing more. -/
theorem ends_of_next {t : State (P × Site W)} {r : Ending (P × Site W)}
    (ht : step (C.host V) matchArgs (place p a k (.deliver signal)) = .next t)
    (h : Transition.Ends (step (C.host V) matchArgs) (shows C V matchArgs) t [] r) :
    Transition.Ends (step (C.host V) matchArgs) (shows C V matchArgs)
      (place p a k (.deliver signal))
      (Dialogue.shows C (partner V matchArgs) ⟨⟨p, a, signal⟩, k⟩) r := by
  have hall := Transition.Ends.more ht h
  rwa [List.append_nil] at hall

/-- The innermost computation has yielded an item that is no computation. -/
theorem follows_item {item : Value} {p' : P} (hplain : item.isComputation = false)
    (hstep : step (C.host V) matchArgs (place p (g :: rest) k (.deliver signal)) =
      .next (receive (C.host V) matchArgs item (place p' (g :: rest)
        { k with site := k.site.hear (.yielded item) } (.deliver signal))))
    (hsolo : Solo.step C ⟨p, g :: rest, signal⟩ = .done (.yielded item p' (g :: rest)))
    (calm : Calm (Dialogue.shows C (partner V matchArgs) ⟨⟨p, g :: rest, signal⟩, k⟩)) :
    Follows C V matchArgs ⟨p, g :: rest, signal⟩ k
      (Dialogue.step C (partner V matchArgs) ⟨⟨p, g :: rest, signal⟩, k⟩) := by
  rw [Dialogue.shows_of_pause hsolo] at calm
  have calm := calm.right
  rw [Dialogue.step_of_pause hsolo]
  cases hanswer : (partner V matchArgs).answer item k with
  | mk o k' =>
    cases o with
    | none =>
      obtain ⟨d, hparse⟩ := parse_of_silent V hanswer
      have hsilent : Dialogue.answers (partner V matchArgs) k
          (.yielded item p' (g :: rest)) = [.unanswered d] := by
        simp only [Dialogue.answers, hparse, hanswer]
      rw [hsilent] at calm
      cases calm (.unanswered d) (List.mem_singleton_self _)
    | some o =>
      have hv : ∀ e, o = .error e → e.isVerdict = false := by
        rintro e rfl
        cases hparse : Descriptor.parse item with
        | error m =>
          simp only [partner, hparse] at hanswer
          cases hanswer
          exact isVerdict_malformed _ m
        | ok d =>
          rw [Dialogue.answers_of_answer hparse (congrArg Prod.fst hanswer)] at calm
          have hcalm := calm _ (List.mem_singleton_self _)
          simpa [Event.isCalm] using hcalm
      rw [Dialogue.resolve_of_answer hanswer]
      rw [receive_place C V hplain hanswer] at hstep
      have htell := answer_place (p := p') (a := g :: rest) (k := k')
        (c := .deliver signal) (o := o) hv
      cases hD : Dialogue.tell p' (g :: rest) k' o with
      | next D =>
        rw [hD] at htell
        exact ⟨_, hstep, htell ▸ .refl _⟩
      | done E =>
        rw [hD] at htell
        obtain ⟨e, rfl, he, rfl, hescape⟩ := htell
        intro o p'' k'' hE
        cases hE
        rw [hescape] at hstep
        exact ⟨p', ends_of_next C V hstep
          (ends_of_not_ordinary (shows_escape C V) he (g :: rest) _)⟩

/-- The innermost computation has returned. -/
theorem follows_returned {v : Value} {p' : P}
    (hstep : step (C.host V) matchArgs (place p (g :: rest) k (.deliver signal)) =
      leave v (place p' (g :: rest) k (.deliver signal)))
    (hsolo : Solo.step C ⟨p, g :: rest, signal⟩ = Solo.leave p' (.ok v) rest) :
    Follows C V matchArgs ⟨p, g :: rest, signal⟩ k
      (Dialogue.step C (partner V matchArgs) ⟨⟨p, g :: rest, signal⟩, k⟩) := by
  cases rest with
  | nil =>
    rw [Dialogue.step_of_pause hsolo]
    intro o p'' k' h
    cases h
    have hlast : Transition.Ends _ (shows C V matchArgs) _ _ _ := .last hstep
    exact ⟨p', hlast⟩
  | cons h rest =>
    rw [Dialogue.step_of_next hsolo]
    exact ⟨_, hstep, .refl _⟩

/-- The innermost computation has raised an exception. -/
theorem follows_raised {e : Exn} {p' : P}
    (hstep : step (C.host V) matchArgs (place p (g :: rest) k (.deliver signal)) =
      .next (place p' (g :: rest) k (.escape e)))
    (hsolo : Solo.step C ⟨p, g :: rest, signal⟩ = Solo.leave p' (.error e) rest)
    (hpassed : rest ≠ [] → e.isVerdict = false) (hclosed : (C.close g e p').1 = none) :
    Follows C V matchArgs ⟨p, g :: rest, signal⟩ k
      (Dialogue.step C (partner V matchArgs) ⟨⟨p, g :: rest, signal⟩, k⟩) := by
  cases rest with
  | nil =>
    rw [Dialogue.step_of_pause hsolo]
    intro o p'' k' h
    cases h
    obtain ⟨p'', hends⟩ := ends_of_last C V (k := k) hclosed
    exact ⟨p'', ends_of_next C V hstep hends⟩
  | cons h rest =>
    have hv := hpassed (List.cons_ne_nil _ _)
    by_cases he : e.isOrdinary = true
    · rw [Solo.leave, if_pos he] at hsolo
      rw [Dialogue.step_of_next hsolo]
      exact ⟨_, hstep, trail_of_passed C V he hv g h rest⟩
    · rw [Solo.leave, if_neg he] at hsolo
      rw [Dialogue.step_of_pause hsolo]
      intro o p'' k' hE
      cases hE
      exact ⟨p', ends_of_next C V hstep
        (ends_of_not_ordinary (shows_escape C V) (Bool.eq_false_iff.2 he) _ _)⟩

end

/-- **One step of the dialogue** is one or two steps of the harness, or as many as it takes to
end the test. -/
theorem follows_step {q : Solo P} (hq : q.active ≠ [])
    (calm : Calm (Dialogue.shows C (partner V matchArgs) ⟨q, k⟩)) :
    Follows C V matchArgs q k (Dialogue.step C (partner V matchArgs) ⟨q, k⟩) := by
  obtain ⟨p, a, signal⟩ := q
  obtain ⟨g, rest, rfl⟩ := List.exists_cons_of_ne_nil hq
  have hstep : step (C.host V) matchArgs (place p (g :: rest) k (.deliver signal)) =
      react (C.host V) matchArgs
        (place (C.resume g signal p).2 (g :: rest)
          { k with site := k.site.hear (C.resume g signal p).1 } (.deliver signal))
        (Host.settle (C.resume g signal p).1) := rfl
  have hsolo := Solo.step_cons C p g rest signal
  rcases hreply : (C.resume g signal p).1 with item | v | e
  · rw [hreply] at hstep hsolo
    cases hitem : item.isComputation with
    | true =>
      cases item with
      | computation inner =>
        rw [Dialogue.step_of_next hsolo]
        exact ⟨_, hstep, .refl _⟩
      | _ => cases hitem
    | false =>
      have hpause := hsolo.trans (Solo.react_of_plain _ g rest hitem)
      exact follows_item C V hitem hstep hpause calm
  · rw [hreply] at hstep hsolo
    exact follows_returned C V hstep hsolo
  · by_cases he : e.isExhausted = true
    · have hsettle : Host.settle (.raised e) = .returned e.returned := if_pos he
      rw [hreply, hsettle] at hstep hsolo
      exact follows_returned C V hstep hsolo
    · have hsettle : Host.settle (.raised e) = .raised e := if_neg he
      rw [hreply, hsettle] at hstep hsolo
      have hclosed : (C.close g e (C.resume g signal p).2).1 = none :=
        C.close_ended g signal e p fun item => by rw [hreply]; exact fun h => (by cases h)
      refine follows_raised C V hstep hsolo (fun hrest => ?_) hclosed
      obtain ⟨h, rest, rfl⟩ := List.exists_cons_of_ne_nil hrest
      have hpassed : Event.passed e ∈ Dialogue.shows C (partner V matchArgs)
          ⟨⟨p, g :: h :: rest, signal⟩, k⟩ := by
        unfold Dialogue.shows Solo.shows
        simp only [hreply, hsettle]
        simp
      have hcalm := calm _ hpassed
      simpa [Event.isCalm] using hcalm

/-! ## Whole runs -/

/-- **A calm dialogue is what the harness does.** -/
theorem ends_of_dialogue {D : Dialogue P (Desk W)} {ls : List Event}
    {E : Dialogue.Ending P (Desk W)}
    (h : Transition.Ends (Dialogue.step C (partner V matchArgs))
      (Dialogue.shows C (partner V matchArgs)) D ls E)
    (calm : Calm ls) (hD : D.solo.active ≠ []) {o : Outcome} {k' : Desk W}
    (hE : E = .ended o p k') :
    ∃ p', Transition.Ends (step (C.host V) matchArgs) (shows C V matchArgs)
      (place D.solo.programs D.solo.active D.partner (.deliver D.solo.signal)) ls
      (ending o p' k') := by
  induction h with
  | @last D E final =>
    have hfollows := follows_step C V (q := D.solo) (k := D.partner) hD calm
    have hfinal : Dialogue.step C (partner V matchArgs) ⟨D.solo, D.partner⟩ = .done E := final
    rw [hfinal] at hfollows
    exact hfollows o p k' hE
  | @more D D' ls E first _ ih =>
    have hfollows := follows_step C V (q := D.solo) (k := D.partner) hD calm.left
    have hfirst : Dialogue.step C (partner V matchArgs) ⟨D.solo, D.partner⟩ = .next D' := first
    rw [hfirst] at hfollows
    obtain ⟨t, ht, htrail⟩ := hfollows
    obtain ⟨p', hends⟩ := ih calm.right (Dialogue.active_of_step hD first) hE
    have hall : Transition.Ends _ (shows C V matchArgs) _ _ _ := .more ht (htrail.ends hends)
    exact ⟨p', hall⟩

/-- A dialogue in which the partner falls silent is not calm. -/
theorem not_calm_of_silent {q : Solo P} {item : Value} {k' : Desk W}
    (h : Dialogue.step C (partner V matchArgs) ⟨q, k⟩ = .done (.silent item p a k')) :
    ¬ Calm (Dialogue.shows C (partner V matchArgs) ⟨q, k⟩) := by
  intro calm
  cases hq : Solo.step C q with
  | next q' => rw [Dialogue.step_of_next hq] at h; cases h
  | done pause =>
    rw [Dialogue.step_of_pause hq] at h
    rw [Dialogue.shows_of_pause hq] at calm
    have calm := calm.right
    cases pause with
    | ended o p => cases h
    | yielded item' p' a' =>
      cases hanswer : (partner V matchArgs).answer item' k with
      | mk o k'' =>
        cases o with
        | some o =>
          rw [Dialogue.resolve_of_answer hanswer] at h
          unfold Dialogue.tell at h
          split at h
          · cases h
          · split at h <;> cases h
        | none =>
          obtain ⟨d, hparse⟩ := parse_of_silent V hanswer
          have hsilent : Dialogue.answers (partner V matchArgs) k (.yielded item' p' a') =
              [.unanswered d] := by
            simp only [Dialogue.answers, hparse, hanswer]
          rw [hsilent] at calm
          cases calm (.unanswered d) (List.mem_singleton_self _)

/-- **A calm run of the harness is what the dialogue does.** -/
theorem dialogue_of_ends {q : Solo P} {ls : List Event} {r : Ending (P × Site W)}
    (h : Transition.Ends (step (C.host V) matchArgs) (shows C V matchArgs)
      (place q.programs q.active k (.deliver q.signal)) ls r)
    (calm : Calm ls) (hq : q.active ≠ []) :
    ∃ o p p' k', r = ending o p' k' ∧
      Transition.Ends (Dialogue.step C (partner V matchArgs))
        (Dialogue.shows C (partner V matchArgs)) ⟨q, k⟩ ls (.ended o p k') := by
  obtain ⟨s, hs⟩ : ∃ s, s = place q.programs q.active k (.deliver q.signal) := ⟨_, rfl⟩
  rw [← hs] at h
  have hend := h
  -- The induction is on the run of the harness, which takes one or two steps at a time.
  refine Transition.Ends.later_induction (P := fun s => ∀ q k ls,
    s = place q.programs q.active k (.deliver q.signal) → Calm ls → q.active ≠ [] →
    Transition.Ends (step (C.host V) matchArgs) (shows C V matchArgs) s ls r →
    ∃ o p p' k', r = ending o p' k' ∧
      Transition.Ends (Dialogue.step C (partner V matchArgs))
        (Dialogue.shows C (partner V matchArgs)) ⟨q, k⟩ ls (.ended o p k'))
    (fun s ih q k ls hs calm hq h => ?_) h q k ls hs calm hq hend
  subst hs
  have hfirst : ∃ ms, ls = Dialogue.shows C (partner V matchArgs) ⟨q, k⟩ ++ ms := by
    cases h with
    | last _ => exact ⟨[], (List.append_nil _).symm⟩
    | more _ _ => exact ⟨_, rfl⟩
  obtain ⟨ms, hms⟩ := hfirst
  have hcalm : Calm (Dialogue.shows C (partner V matchArgs) ⟨q, k⟩) := (hms ▸ calm).left
  have hfollows := follows_step C V hq hcalm
  cases hstep : Dialogue.step C (partner V matchArgs) ⟨q, k⟩ with
  | next D =>
    rw [hstep] at hfollows
    obtain ⟨t, ht, htrail⟩ := hfollows
    obtain ⟨ns, rfl, hrest⟩ := (Transition.Trail.head ht htrail).rest h
    have hshows : shows C V matchArgs (place q.programs q.active k (.deliver q.signal)) ++ [] =
        Dialogue.shows C (partner V matchArgs) ⟨q, k⟩ := List.append_nil _
    rw [hshows] at calm ⊢
    obtain ⟨o, p, p', k', hr, hends⟩ :=
      ih t _ ht htrail.reaches D.solo D.partner ns rfl calm.right
        (Dialogue.active_of_step hq hstep) hrest
    exact ⟨o, p, p', k', hr, .more hstep hends⟩
  | done E =>
    rw [hstep] at hfollows
    cases E with
    | silent item p a k' => exact absurd hcalm (not_calm_of_silent C V hstep)
    | ended o p k' =>
      obtain ⟨p', hends⟩ := hfollows o p k' rfl
      obtain ⟨rfl, rfl⟩ := h.unique hends
      exact ⟨o, p, p', k', rfl, .last hstep⟩

end Harness
end DescribedEffects
