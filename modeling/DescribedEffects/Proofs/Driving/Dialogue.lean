import DescribedEffects.Descriptor.Parse
import DescribedEffects.Proofs.Driving.Solo

/-!
# Computations and who answers them

Whatever drives a stack of computations answers the items that they yield.  Take away how
the answers are found, and every driver is the same machine: `Dialogue.step` moves the stack
to its next pause, has the item answered by the other party, the `Partner`, and tells the
innermost computation the outcome.  An exception that ordinary handlers do not take ends the
dialogue.

A partner can be a list of outcomes that are known in advance (`Partner.script`).  An item
that is no descriptor is refused with an exception whose identity depends only on how many
items have been yielded.
-/

namespace DescribedEffects

variable {P X Y : Type}

/-- An outcome that a driver records: a value, or an exception that ordinary handlers take. -/
def Recordable (o : Outcome) : Prop := ∀ e, o = .error e → e.isOrdinary = true

/-- One who answers items, and may have no answer. -/
structure Partner (X : Type) where
  answer : Value → X → Option Outcome × X

/-- A stack of computations and the state of their partner. -/
structure Dialogue (P X : Type) where
  solo : Solo P
  partner : X

namespace Dialogue

/-- How a dialogue ends. -/
inductive Ending (P X : Type) where
  | ended (o : Outcome) (programs : P) (partner : X)
  /-- The partner has no answer to an item. -/
  | silent (item : Value) (programs : P) (active : List Nat) (partner : X)

/-- The innermost computation is told an outcome. -/
def tell (programs : P) (active : List Nat) (partner : X) :
    Outcome → Transition (Dialogue P X) (Ending P X)
  | .ok v => .next ⟨⟨programs, active, .send v⟩, partner⟩
  | .error e =>
    if e.isOrdinary then .next ⟨⟨programs, active, .throw e⟩, partner⟩
    else .done (.ended (.error e) programs partner)

/-- What comes of a pause. -/
def resolve (A : Partner X) (partner : X) : Pause P → Transition (Dialogue P X) (Ending P X)
  | .ended o programs => .done (.ended o programs partner)
  | .yielded item programs active =>
    match A.answer item partner with
    | (some o, partner) => tell programs active partner o
    | (none, partner) => .done (.silent item programs active partner)

/-- Tells the innermost computation what it is about to be told, and answers it if that
brings the stack to a pause. -/
def step (C : Programs P) (A : Partner X) (s : Dialogue P X) :
    Transition (Dialogue P X) (Ending P X) :=
  match Solo.step C s.solo with
  | .next solo => .next ⟨solo, s.partner⟩
  | .done pause => resolve A s.partner pause

/-- What a pause shows. -/
def answers (A : Partner X) (partner : X) : Pause P → List Event
  | .ended .. => []
  | .yielded item .. =>
    match Descriptor.parse item with
    | .error _ => []
    | .ok d =>
      match (A.answer item partner).1 with
      | some o => [.answered d o]
      | none => [.unanswered d]

/-- What a resumption shows, with the answer to it. -/
def shows (C : Programs P) (A : Partner X) (s : Dialogue P X) : List Event :=
  Solo.shows C s.solo ++
    match Solo.step C s.solo with
    | .next _ => []
    | .done pause => answers A s.partner pause

section

variable {C : Programs P} {A : Partner X} {solo q : Solo P} {partner : X} {pause : Pause P}

theorem step_of_next (h : Solo.step C solo = .next q) :
    step C A ⟨solo, partner⟩ = .next ⟨q, partner⟩ := by
  simp only [step, h]

theorem step_of_pause (h : Solo.step C solo = .done pause) :
    step C A ⟨solo, partner⟩ = resolve A partner pause := by
  simp only [step, h]

theorem shows_of_next (h : Solo.step C solo = .next q) :
    shows C A ⟨solo, partner⟩ = Solo.shows C solo := by
  simp only [shows, h, List.append_nil]

theorem shows_of_pause (h : Solo.step C solo = .done pause) :
    shows C A ⟨solo, partner⟩ = Solo.shows C solo ++ answers A partner pause := by
  simp only [shows, h]

theorem resolve_of_answer {item : Value} {partner' : X} {o : Outcome}
    (h : A.answer item partner = (some o, partner')) (p : P) (a : List Nat) :
    resolve A partner (.yielded item p a) = tell p a partner' o := by
  simp only [resolve, h]

theorem answers_of_malformed {item : Value} {m : Malformed}
    (h : Descriptor.parse item = .error m) (p : P) (a : List Nat) :
    answers A partner (.yielded item p a) = [] := by
  simp only [answers, h]

theorem answers_of_answer {item : Value} {d : Descriptor} {o : Outcome}
    (hparse : Descriptor.parse item = .ok d) (h : (A.answer item partner).1 = some o) (p : P)
    (a : List Nat) : answers A partner (.yielded item p a) = [.answered d o] := by
  simp only [answers, hparse, h]

/-- There is always somebody to be told something. -/
theorem active_of_step {s D : Dialogue P X} (hs : s.solo.active ≠ [])
    (h : step C A s = .next D) : D.solo.active ≠ [] := by
  cases hq : Solo.step C s.solo with
  | next q =>
    simp only [step, hq] at h
    cases h
    exact Solo.active_of_step hq
  | done pause =>
    simp only [step, hq] at h
    cases pause with
    | ended o p => cases h
    | yielded item p a =>
      obtain ⟨-, rfl⟩ := Solo.yielded_of_step hq
      cases hanswer : A.answer item s.partner with
      | mk o x =>
        cases o with
        | none => simp [resolve, hanswer] at h
        | some o =>
          rw [resolve_of_answer hanswer] at h
          unfold tell at h
          split at h
          · cases h
            exact hs
          · split at h
            · cases h
              exact hs
            · cases h

end

/-! ## Outcomes that are recorded -/

section

variable {C : Programs P} {A : Partner X}

/-- A dialogue goes on only after an outcome that is recorded, or else has come to it. -/
theorem recordable_of_step {D : Dialogue P X} :
    (step C A D).Leads (fun _ => ∀ y ∈ exchanges (shows C A D), Recordable y.2)
      (fun E => ∀ o p x, E = .ended o p x → Recordable o →
        ∀ y ∈ exchanges (shows C A D), Recordable y.2) := by
  obtain ⟨q, x⟩ := D
  cases hq : Solo.step C q with
  | next q' =>
    rw [step_of_next hq, shows_of_next hq, Solo.exchanges_shows]
    intro y hy
    cases hy
  | done pause =>
    rw [step_of_pause hq, shows_of_pause hq, exchanges_append, Solo.exchanges_shows,
      List.nil_append]
    cases pause with
    | ended o p =>
      intro o p x _ _ y hy
      cases hy
    | yielded item p a =>
      cases hparse : Descriptor.parse item with
      | error m =>
        rw [answers_of_malformed hparse]
        refine (Transition.leads_trivial _).imp ?_ ?_
        · intro _ _ y hy
          cases hy
        · intro _ _ _ _ _ _ _ y hy
          cases hy
      | ok d =>
        cases hanswer : A.answer item x with
        | mk o x' =>
          cases o with
          | none =>
            simp only [resolve, hanswer]
            intro o p x hE
            cases hE
          | some o =>
            rw [resolve_of_answer hanswer, answers_of_answer hparse (congrArg Prod.fst hanswer),
              exchanges_answered]
            have hone : Recordable o → ∀ y ∈ [(d, o)], Recordable y.2 := by
              intro ho y hy
              rw [List.mem_singleton.1 hy]
              exact ho
            cases o with
            | ok v => exact hone fun e he => (by cases he)
            | error e =>
              unfold tell
              dsimp only
              split
              · next he =>
                refine hone fun e' he' => ?_
                cases he'
                exact he
              · intro o p x hE ho
                cases hE
                exact hone ho

/-- A dialogue that comes to an outcome that is recorded has had no others. -/
theorem recordable_of_ends {D : Dialogue P X} {ls : List Event} {E : Ending P X}
    (h : Transition.Ends (step C A) (shows C A) D ls E) {o : Outcome} {p : P} {x : X}
    (hE : E = .ended o p x) (ho : Recordable o) : ∀ y ∈ exchanges ls, Recordable y.2 := by
  induction h with
  | @last D E final =>
    have hstep := recordable_of_step (C := C) (A := A) (D := D)
    rw [final] at hstep
    exact hstep o p x hE ho
  | @more D D' ls E first _ ih =>
    have hstep := recordable_of_step (C := C) (A := A) (D := D)
    rw [first] at hstep
    intro y hy
    rw [exchanges_append] at hy
    rcases List.mem_append.1 hy with hy | hy
    · exact hstep y hy
    · exact ih hE y hy

end

/-! ## Partners who agree -/

section

variable {C : Programs P} {A : Partner X} {B : Partner Y}
  {M : List (Descriptor × Outcome) → X → Y → Prop}

/-- Two partners give the same answers, as long as the effects have the outcomes that are
still to come. -/
structure Agree (A : Partner X) (B : Partner Y) (M : List (Descriptor × Outcome) → X → Y → Prop) :
    Prop where
  malformed : ∀ {item m xs x y}, item.isComputation = false → Descriptor.parse item = .error m →
    M xs x y → ∃ y', B.answer item y = ((A.answer item x).1, y') ∧ M xs (A.answer item x).2 y'
  effect : ∀ {item d o xs x y}, item.isComputation = false → Descriptor.parse item = .ok d →
    M ((d, o) :: xs) x y → (A.answer item x).1 = some o →
      ∃ y', B.answer item y = (some o, y') ∧ M xs (A.answer item x).2 y'

/-- With the second partner the dialogue comes to the same as with the first, unless the first
has no answer.  It then shows the same. -/
def Echoes (N : X → Y → Prop) (shown : Prop) (t : Transition (Dialogue P X) (Ending P X))
    (u : Transition (Dialogue P Y) (Ending P Y)) : Prop :=
  t.Leads (fun D => ∃ y, u = .next ⟨D.solo, y⟩ ∧ shown ∧ N D.partner y)
    (fun E => ∀ o p x, E = .ended o p x → ∃ y, u = .done (.ended o p y) ∧ shown ∧ N x y)

section

variable {N : X → Y → Prop} {shown : Prop} {x : X} {y : Y} {item : Value} {p : P} {a : List Nat}
  {xs : List (Descriptor × Outcome)}

/-- The innermost computation is told the same. -/
theorem echoes_tell (o : Outcome) (hshown : shown) (hN : N x y) :
    Echoes N shown (tell p a x o) (tell p a y o) := by
  cases o with
  | ok v => exact ⟨y, rfl, hshown, hN⟩
  | error e =>
    unfold tell
    dsimp only
    by_cases he : e.isOrdinary = true
    · rw [if_pos he, if_pos he]
      exact ⟨y, rfl, hshown, hN⟩
    · rw [if_neg he, if_neg he]
      intro o' p' x' hE
      cases hE
      exact ⟨y, rfl, hshown, hN⟩

/-- The first partner has no answer. -/
theorem echoes_of_silent {u : Transition (Dialogue P Y) (Ending P Y)}
    (silent : (A.answer item x).1 = none) :
    Echoes N shown (resolve A x (.yielded item p a)) u := by
  rcases hanswer : A.answer item x with ⟨o, x'⟩
  rw [hanswer] at silent
  cases silent
  simp only [resolve, hanswer]
  intro o p' x'' hE
  cases hE

/-- Something that is no computation is yielded. -/
theorem Agree.resolve (h : Agree A B M) (hplain : item.isComputation = false)
    (hM : M (exchanges (answers A x (.yielded item p a)) ++ xs) x y) :
    Echoes (M xs) (answers B y (.yielded item p a) = answers A x (.yielded item p a))
      (resolve A x (.yielded item p a)) (resolve B y (.yielded item p a)) := by
  cases hsome : (A.answer item x).1 with
  | none => exact echoes_of_silent hsome
  | some o =>
    have hanswer : A.answer item x = (some o, (A.answer item x).2) := by rw [← hsome]
    cases hparse : Descriptor.parse item with
    | error m =>
      rw [answers_of_malformed hparse] at hM
      obtain ⟨y', hy', hM'⟩ := h.malformed hplain hparse hM
      rw [hsome] at hy'
      rw [resolve_of_answer hanswer, resolve_of_answer hy', answers_of_malformed hparse,
        answers_of_malformed hparse]
      exact echoes_tell o rfl hM'
    | ok d =>
      rw [answers_of_answer hparse hsome] at hM
      obtain ⟨y', hy', hM'⟩ := h.effect hplain hparse hM hsome
      rw [resolve_of_answer hanswer, resolve_of_answer hy', answers_of_answer hparse hsome,
        answers_of_answer hparse (congrArg Prod.fst hy')]
      exact echoes_tell o rfl hM'

/-- A step is the same with either partner. -/
theorem step_of_agree (h : Agree A B M) {q : Solo P}
    (hM : M (exchanges (shows C A ⟨q, x⟩) ++ xs) x y) :
    Echoes (M xs) (shows C B ⟨q, y⟩ = shows C A ⟨q, x⟩) (step C A ⟨q, x⟩) (step C B ⟨q, y⟩) := by
  cases hq : Solo.step C q with
  | next q' =>
    rw [shows_of_next hq, Solo.exchanges_shows] at hM
    rw [step_of_next hq, step_of_next hq, shows_of_next hq, shows_of_next hq]
    exact ⟨y, rfl, rfl, hM⟩
  | done pause =>
    rw [shows_of_pause hq, exchanges_append, Solo.exchanges_shows, List.nil_append] at hM
    rw [step_of_pause hq, step_of_pause hq, shows_of_pause hq, shows_of_pause hq,
      List.append_cancel_left_eq]
    cases pause with
    | ended o p =>
      intro o' p' x' hE
      cases hE
      exact ⟨y, rfl, rfl, hM⟩
    | yielded item p a => exact h.resolve (Solo.yielded_of_step hq).1 hM

end

/-- **A dialogue is the same with partners who agree.** -/
theorem ends_of_agree (h : Agree A B M) {D : Dialogue P X} {ls : List Event} {E : Ending P X}
    (hends : Transition.Ends (step C A) (shows C A) D ls E) {o : Outcome} {p : P} {x' : X}
    (hE : E = .ended o p x') {y : Y} (hM : M (exchanges ls) D.partner y) :
    ∃ y', Transition.Ends (step C B) (shows C B) ⟨D.solo, y⟩ ls (.ended o p y') ∧ M [] x' y' := by
  induction hends generalizing y with
  | @last D E final =>
    have hM : M (exchanges (shows C A D) ++ []) D.partner y := by rwa [List.append_nil]
    have hstep := step_of_agree (C := C) (q := D.solo) (x := D.partner) (y := y) h hM
    have hfinal : step C A ⟨D.solo, D.partner⟩ = .done E := final
    rw [hfinal] at hstep
    obtain ⟨y', hy', hshows, hM'⟩ := hstep o p x' hE
    have hlast : Transition.Ends _ (shows C B) _ _ _ := .last hy'
    rw [hshows] at hlast
    exact ⟨y', hlast, hM'⟩
  | @more D D' ls E first _ ih =>
    rw [exchanges_append] at hM
    have hstep := step_of_agree (C := C) (q := D.solo) (x := D.partner) (y := y) h hM
    have hfirst : step C A ⟨D.solo, D.partner⟩ = .next D' := first
    rw [hfirst] at hstep
    obtain ⟨y', hy', hshows, hM'⟩ := hstep
    obtain ⟨y'', hrest, hM''⟩ := ih hE hM'
    have hmore : Transition.Ends _ (shows C B) _ _ _ := .more hy' hrest
    rw [hshows] at hmore
    exact ⟨y'', hmore, hM''⟩

end

end Dialogue

/-- How many items have been yielded, and the outcomes that are left for later ones. -/
structure Script where
  items : Nat
  outcomes : List Outcome

/-- A partner who knows the outcomes of all effects in advance. -/
def Partner.script : Partner Script where
  answer item s :=
    match Descriptor.parse item with
    | .error m => (some (.error ⟨Nat.pair (s.items + 1) 0, m.body⟩), ⟨s.items + 1, s.outcomes⟩)
    | .ok _ =>
      match s.outcomes with
      | [] => (none, ⟨s.items + 1, []⟩)
      | o :: rest => (some o, ⟨s.items + 1, rest⟩)

theorem Partner.script_of_malformed {item : Value} {m : Malformed}
    (h : Descriptor.parse item = .error m) (items : Nat) (outcomes : List Outcome) :
    Partner.script.answer item ⟨items, outcomes⟩ =
      (some (.error ⟨Nat.pair (items + 1) 0, m.body⟩), ⟨items + 1, outcomes⟩) := by
  simp only [Partner.script, h]

theorem Partner.script_of_effect {item : Value} {d : Descriptor}
    (h : Descriptor.parse item = .ok d) (items : Nat) (o : Outcome) (outcomes : List Outcome) :
    Partner.script.answer item ⟨items, o :: outcomes⟩ =
      (some o, ⟨items + 1, outcomes⟩) := by
  simp only [Partner.script, h]

/-- A malformed descriptor is reported by an exception that ordinary handlers take. -/
@[simp] theorem isOrdinary_malformed (id : Nat) (m : Malformed) :
    (⟨id, m.body⟩ : Exn).isOrdinary = true := by
  show ExnKind.malformed.isOrdinary = true
  decide

/-- It is no verdict of a test. -/
@[simp] theorem isVerdict_malformed (id : Nat) (m : Malformed) :
    (⟨id, m.body⟩ : Exn).isVerdict = false := by
  show ExnKind.malformed.isVerdict = false
  decide

end DescribedEffects
