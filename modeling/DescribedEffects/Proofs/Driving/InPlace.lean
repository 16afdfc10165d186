import DescribedEffects.Proofs.Computation.Behaviour
import DescribedEffects.Proofs.Driving.Tandem
import Mathlib.Data.List.Forall2

/-!
# Running inner computations in place

A computation that yields another one waits for it.  It might as well run the other one
itself, at the very point where it yields it: what the inner computation returns is then
what it is sent, and what the inner computation raises is what is thrown into it.
`Behaviour.InPlace` is that run of a whole stack of computations, innermost first, up to
the next item that is no computation.

A *flattening* of a behaviour is a behaviour that does what running in place comes to
(`Behaviour.Flattens`).  Every behaviour has one (`exists_flattens`): where running in
place never comes to anything a flattening may do what it likes.

On their own, a stack of computations and one computation of a flattening make the same
pauses (`tandem_of_flattens`).  The stack takes several steps where the other one takes one;
midway the stack has moved and the other one has not, which is what `Midway` says.
-/

namespace DescribedEffects

/-! ## Running in place -/

namespace Behaviour

variable {S T : Type}

/-- One resumption in a stack of computations that is run in place.  A computation that is
yielded is begun there and then; what it returns is sent to the one that yielded it, and what
it raises is thrown into that one. -/
def runStep (B : Behaviour S) : List S × Signal → Transition (List S × Signal) (Move (List S))
  | ([], _) => .done (.returned .null)
  | (s :: outer, signal) =>
    match B.resume s signal, outer with
    | .nested inner next, outer => .next (inner :: next :: outer, .send .null)
    | .yielded item plain next, outer => .done (.yielded item plain (next :: outer))
    | .returned v, [] => .done (.returned v)
    | .returned v, s :: outer => .next (s :: outer, .send v)
    | .raised e passes, [] => .done (.raised e passes)
    | .raised e _, s :: outer => .next (s :: outer, .throw e)

/-- What running a stack of computations in place comes to. -/
def InPlace (B : Behaviour S) (stack : List S) (signal : Signal) (m : Move (List S)) : Prop :=
  ∃ n, Transition.runFor B.runStep n (stack, signal) = some m

/-- A run in place comes to one thing. -/
theorem InPlace.unique {B : Behaviour S} {stack : List S} {signal : Signal}
    {m m' : Move (List S)} (h : InPlace B stack signal m) (k : InPlace B stack signal m') :
    m = m' := by
  obtain ⟨n, hn⟩ := h
  obtain ⟨n', hn'⟩ := k
  exact Transition.runFor_unique hn hn'

theorem inPlace_of_done {B : Behaviour S} {stack : List S} {signal : Signal}
    {m : Move (List S)} (h : B.runStep (stack, signal) = .done m) : InPlace B stack signal m :=
  ⟨1, Transition.runFor_succ_of_done h 0⟩

theorem inPlace_of_next {B : Behaviour S} {stack stack' : List S} {signal signal' : Signal}
    (h : B.runStep (stack, signal) = .next (stack', signal')) (m : Move (List S)) :
    InPlace B stack signal m ↔ InPlace B stack' signal' m :=
  Transition.exists_runFor_iff_of_reaches (.head h (.refl _))

/-- What it comes to is never another computation. -/
theorem InPlace.ne_nested {B : Behaviour S} {stack : List S} {signal : Signal}
    {m : Move (List S)} (h : InPlace B stack signal m) (inner next : List S) :
    m ≠ .nested inner next := by
  obtain ⟨⟨stack', signal'⟩, -, hdone⟩ := Transition.exists_runFor_iff.1 h
  rintro rfl
  unfold runStep at hdone
  repeat' split at hdone
  all_goals cases hdone

/-- Two moves are the same if they leave the computations in related states. -/
inductive Same (R : List S → T → Prop) : Move (List S) → Move T → Prop
  | returned (v : Value) : Same R (.returned v) (.returned v)
  | raised (e : Exn) (passes : e.isExhausted = false) : Same R (.raised e passes) (.raised e passes)
  | yielded (item : Value) (plain : item.isComputation = false) {stack : List S} {t : T}
      (h : R stack t) : Same R (.yielded item plain stack) (.yielded item plain t)

/-- The second behaviour is a flattening of the first: from related states it does what
running the stack in place comes to. -/
def Flattens (B : Behaviour S) (F : Behaviour T) (R : List S → T → Prop) : Prop :=
  ∀ stack t, R stack t → ∀ signal m, InPlace B stack signal m → Same R m (F.resume t signal)

/-- Running in place always comes to something. -/
def Settles (B : Behaviour S) (R : List S → T → Prop) : Prop :=
  ∀ stack t, R stack t → ∀ signal, ∃ m, InPlace B stack signal m

open Classical in
/-- **Every behaviour has a flattening.** -/
theorem exists_flattens (B : Behaviour S) : ∃ F : Behaviour (List S), Flattens B F Eq := by
  refine ⟨⟨fun stack signal =>
    if h : ∃ m, InPlace B stack signal m then h.choose else .returned .null⟩, ?_⟩
  rintro stack _ rfl signal m hm
  have h : ∃ m, InPlace B stack signal m := ⟨m, hm⟩
  have hchoice : (if h : ∃ m, InPlace B stack signal m then h.choose else .returned .null) = m := by
    rw [dif_pos h]
    exact h.choose_spec.unique hm
  show Same Eq m (if h : ∃ m, InPlace B stack signal m then h.choose else .returned .null)
  rw [hchoice]
  cases m with
  | returned v => exact .returned v
  | raised e passes => exact .raised e passes
  | yielded item plain next => exact .yielded item plain rfl
  | nested inner next => exact absurd rfl (hm.ne_nested inner next)

end Behaviour

/-! ## The computations of a stack -/

namespace Computations

variable {S : Type} {c : Computations S} {g : Nat} {s : S} {signal : Signal}

/-- A computation that is going to go on from a state when it is resumed so. -/
inductive Ready (c : Computations S) (g : Nat) (s : S) : Signal → Prop
  | suspended (h : c.standings[g]? = some (.suspended s)) (signal : Signal) : Ready c g s signal
  | unstarted (h : c.standings[g]? = some (.unstarted s)) (v : Value) : Ready c g s (.send v)

/-- These computations are suspended in these states. -/
abbrev Suspended (c : Computations S) : List Nat → List S → Prop :=
  List.Forall₂ fun g s => c.standings[g]? = some (.suspended s)

/-- A stack of different computations, the innermost about to be resumed. -/
inductive Stacked (c : Computations S) : List Nat → List S → Signal → Prop
  | intro {g : Nat} {rest : List Nat} {s : S} {outer : List S} {signal : Signal}
      (distinct : (g :: rest).Nodup) (ready : Ready c g s signal)
      (suspended : Suspended c rest outer) : Stacked c (g :: rest) (s :: outer) signal

/-- A stack of different computations that wait for something. -/
structure Rests (c : Computations S) (active : List Nat) (stack : List S) : Prop where
  distinct : active.Nodup
  suspended : Suspended c active stack
  nonempty : active ≠ []

theorem Rests.stacked {active : List Nat} {stack : List S} (h : Rests c active stack)
    (signal : Signal) : Stacked c active stack signal := by
  obtain ⟨distinct, suspended, nonempty⟩ := h
  cases suspended with
  | nil => exact absurd rfl nonempty
  | cons first later => exact .intro distinct (.suspended first signal) later

theorem Ready.lt (h : Ready c g s signal) : g < c.standings.length := by
  cases h with
  | suspended h _ => exact (List.getElem?_eq_some_iff.1 h).1
  | unstarted h _ => exact (List.getElem?_eq_some_iff.1 h).1

@[simp] theorem length_stand (c : Computations S) (g : Nat) (standing : Standing S) :
    (c.stand g standing).standings.length = c.standings.length := List.length_set

theorem getElem?_stand_self (h : g < c.standings.length) (standing : Standing S) :
    (c.stand g standing).standings[g]? = some standing := by
  simp [stand, h]

/-- Moving one computation leaves the others alone. -/
theorem Suspended.stand {active : List Nat} {stack : List S} (h : Suspended c active stack)
    (hg : g ∉ active) (standing : Standing S) : Suspended (c.stand g standing) active stack := by
  induction h with
  | nil => exact .nil
  | @cons k x active stack first _ ih =>
    refine .cons ?_ (ih (List.not_mem_of_not_mem_cons hg))
    show (c.standings.set g standing)[k]? = _
    rw [List.getElem?_set_ne (List.ne_of_not_mem_cons hg)]
    exact first

/-- Making one more computation leaves the others alone. -/
theorem Suspended.make {active : List Nat} {stack : List S} (h : Suspended c active stack)
    (s : S) : Suspended (c.make s) active stack := by
  refine h.imp fun k x hk => ?_
  exact (List.getElem?_append_left (List.getElem?_eq_some_iff.1 hk).1).trans hk

/-- The number of a computation that has not been made yet is in no stack. -/
theorem Suspended.length_not_mem {active : List Nat} {stack : List S}
    (h : Suspended c active stack) : c.standings.length ∉ active := by
  intro hmem
  obtain ⟨i, hi, hget⟩ := List.mem_iff_getElem.1 hmem
  have hlt : i < stack.length := h.length_eq ▸ hi
  have hsuspended := List.Forall₂.get h hi hlt
  rw [List.get_eq_getElem, hget] at hsuspended
  have hself := (List.getElem?_eq_some_iff.1 hsuspended).1
  omega

end Computations

namespace Behaviour

open Computations

variable {S T : Type} {B : Behaviour S} {c : Computations S} {g : Nat} {rest : List Nat} {s : S}
  {outer : List S} {signal : Signal}

/-- A computation that is ready does what its behaviour says. -/
theorem resume_of_ready (h : Ready c g s signal) :
    B.programs.resume g signal c = answer g c (B.resume s signal) := by
  show B.resumeAt g signal c = _
  cases h with
  | suspended h signal => simp only [resumeAt, h]
  | unstarted h v => simp only [resumeAt, h]

/-- What the stack does when its innermost computation is resumed. -/
theorem step_of_ready (h : Ready c g s signal) :
    Solo.step B.programs ⟨c, g :: rest, signal⟩ =
      Solo.react (answer g c (B.resume s signal)).2 g rest
        (Host.settle (answer g c (B.resume s signal)).1) := by
  rw [Solo.step_cons, resume_of_ready h]

/-- What it left to the next one is what that one is resumed with. -/
theorem stacked_of_left (distinct : (g :: rest).Nodup) (suspended : Suspended c rest outer)
    (standing : Standing S) (signal : Signal) {h : Nat} {rest' : List Nat}
    (hrest : rest = h :: rest') : Stacked (c.stand g standing) rest outer signal := by
  have hrests : Rests (c.stand g standing) rest outer :=
    ⟨distinct.of_cons, suspended.stand (List.nodup_cons.1 distinct).1 standing, by simp [hrest]⟩
  exact hrests.stacked signal

/-- How a move of a stack and a pause of its computations go together. -/
inductive Pauses : Move (List S) → Pause (Computations S) → Prop
  | returned (v : Value) (c : Computations S) : Pauses (.returned v) (.ended (.ok v) c)
  | raised (e : Exn) (passes : e.isExhausted = false) (c : Computations S) :
      Pauses (.raised e passes) (.ended (.error e) c)
  | yielded (item : Value) (plain : item.isComputation = false) {stack : List S}
      {c : Computations S} {active : List Nat} (rests : Rests c active stack) :
      Pauses (.yielded item plain stack) (.yielded item c active)

/-- **One step of a stack** is a step of its run in place.  Ordinary handlers take what an
inner computation raises. -/
theorem step_of_stacked {active : List Nat} {stack : List S} (h : Stacked c active stack signal)
    (tame : ∀ e, .passed e ∈ Solo.shows B.programs ⟨c, active, signal⟩ → e.isOrdinary = true) :
    (B.runStep (stack, signal)).Leads
      (fun r => ∃ q, Solo.step B.programs ⟨c, active, signal⟩ = .next q ∧
        q.signal = r.2 ∧ Stacked q.programs q.active r.1 r.2)
      (fun m => ∃ pause, Solo.step B.programs ⟨c, active, signal⟩ = .done pause ∧
        Pauses m pause) := by
  cases h with
  | @intro g rest s outer signal distinct ready suspended =>
    have hstep : Solo.step B.programs ⟨c, g :: rest, signal⟩ = _ := step_of_ready ready
    have hinner := (List.nodup_cons.1 distinct).1
    have hsuspends : ∀ next, Suspended (c.stand g (.suspended next)) (g :: rest) (next :: outer) :=
      fun next => .cons (getElem?_stand_self ready.lt _) (suspended.stand hinner _)
    cases hmove : B.resume s signal with
    | nested inner next =>
      rw [hmove] at hstep
      simp only [runStep, hmove]
      refine ⟨_, hstep, rfl,
        .intro (List.nodup_cons.2 ⟨?_, distinct⟩) ?_ ((hsuspends next).make inner)⟩
      · have hfresh := (hsuspends next).length_not_mem
        rwa [length_stand] at hfresh
      · refine .unstarted ?_ .null
        have hlast : (c.stand g (.suspended next)).standings.length = c.standings.length :=
          length_stand ..
        show ((c.stand g (.suspended next)).standings ++
          [.unstarted inner])[c.standings.length]? = _
        rw [← hlast, List.getElem?_append_right (Nat.le_refl _), Nat.sub_self]
        rfl
    | yielded item plain next =>
      rw [hmove] at hstep
      simp only [runStep, hmove]
      exact ⟨_, hstep.trans (Solo.react_of_plain _ g rest plain),
        .yielded item plain ⟨distinct, hsuspends next, List.cons_ne_nil _ _⟩⟩
    | returned v =>
      rw [hmove] at hstep
      cases suspended with
      | nil =>
        simp only [runStep, hmove]
        exact ⟨_, hstep, .returned v _⟩
      | cons first later =>
        simp only [runStep, hmove]
        exact ⟨_, hstep, rfl, stacked_of_left distinct (.cons first later) _ _ rfl⟩
    | raised e passes =>
      have hsettle : Host.settle (answer g c (B.resume s signal)).1 = .raised e := by
        rw [hmove]
        exact settle_raised passes
      rw [hsettle, hmove] at hstep
      cases suspended with
      | nil =>
        simp only [runStep, hmove]
        exact ⟨_, hstep, .raised e passes _⟩
      | @cons k _ rest _ first later =>
        have hpassed : .passed e ∈ Solo.shows B.programs ⟨c, g :: k :: rest, signal⟩ := by
          simp [Solo.shows, resume_of_ready ready, hsettle]
        have hleave := hstep
        simp only [Solo.react, Solo.leave, if_pos (tame e hpassed)] at hleave
        simp only [runStep, hmove]
        exact ⟨_, hleave, rfl, stacked_of_left distinct (.cons first later) _ _ rfl⟩

end Behaviour

/-! ## In tandem -/

namespace Behaviour

open Computations

variable {S T : Type} {B : Behaviour S} {F : Behaviour T} {R : List S → T → Prop}

/-- The stack is midway in a run in place that the single computation is about to make. -/
inductive Midway (B : Behaviour S) (R : List S → T → Prop) :
    Solo (Computations S) → Solo (Computations T) → Prop
  | intro {c : Computations S} {active : List Nat} {stack begun : List S} {signal : Signal}
      {c' : Computations T} {g : Nat} {t : T} {signal' : Signal}
      (stacked : Stacked c active stack signal) (ready : Ready c' g t signal')
      (related : R begun t)
      (place : ∀ m, InPlace B stack signal m ↔ InPlace B begun signal' m) :
      Midway B R ⟨c, active, signal⟩ ⟨c', [g], signal'⟩

/-- The single computation makes its move. -/
theorem step_of_same {pause : Pause (Computations S)} {m : Move (List S)} {c' : Computations T}
    {g : Nat} {t : T} {signal' : Signal} (ready : Ready c' g t signal')
    (same : Same R m (F.resume t signal')) (pauses : Pauses m pause) :
    ∃ pause', Solo.step F.programs ⟨c', [g], signal'⟩ = .done pause' ∧
      pause.Alike (Midway B R) pause' := by
  have hstep : Solo.step F.programs ⟨c', [g], signal'⟩ = _ := step_of_ready ready
  generalize hmove : F.resume t signal' = move at same hstep
  cases same with
  | returned v =>
    cases pauses with
    | returned _ _ => exact ⟨_, hstep, .ended _ _ _⟩
  | raised e passes =>
    cases pauses with
    | raised _ _ _ =>
      have hsettle : Host.settle (answer g c' (.raised e passes)).1 = .raised e :=
        settle_raised passes
      rw [hsettle] at hstep
      exact ⟨_, hstep, .ended _ _ _⟩
  | yielded item plain related =>
    cases pauses with
    | yielded _ _ rests =>
      refine ⟨_, hstep.trans (Solo.react_of_plain _ g [] plain), .yielded item fun signal => ?_⟩
      have hready := getElem?_stand_self ready.lt
      exact .intro (rests.stacked signal) (.suspended (hready _) signal) related fun _ => Iff.rfl

/-- **A stack of computations and its flattening make the same pauses.** -/
theorem tandem_of_flattens (h : Flattens B F R) :
    Tandem B.programs F.programs (Midway B R) where
  active q q' hq := by
    cases hq with
    | intro stacked => cases stacked; exact List.cons_ne_nil _ _
  single q q' hq := by
    cases hq with
    | @intro _ _ _ _ _ _ g => exact ⟨g, rfl⟩
  step q q' hq tame := by
    cases hq with
    | @intro c active stack begun signal c' g t signal' stacked ready related place =>
      have hstep := step_of_stacked stacked tame
      cases hplace : B.runStep (stack, signal) with
      | next r =>
        rw [hplace] at hstep
        obtain ⟨⟨c₁, active₁, signal₁⟩, hq, rfl, hstacked⟩ := hstep
        rw [hq]
        exact .intro hstacked ready related fun m => (inPlace_of_next hplace m).symm.trans (place m)
      | done m =>
        rw [hplace] at hstep
        obtain ⟨pause, hpause, hpauses⟩ := hstep
        rw [hpause]
        have hsame := h begun t related signal' m ((place m).1 (inPlace_of_done hplace))
        exact step_of_same ready hsame hpauses

/-- A stack whose run in place comes to something pauses. -/
theorem ends_of_inPlace {c : Computations S} {active : List Nat} {stack : List S}
    {signal : Signal} (stacked : Stacked c active stack signal)
    (tame : Tame ExnOf.isOrdinary (Solo.step B.programs) (Solo.shows B.programs)
      ⟨c, active, signal⟩)
    {m : Move (List S)} (h : InPlace B stack signal m) :
    ∃ ls pause, Transition.Ends (Solo.step B.programs) (Solo.shows B.programs)
      ⟨c, active, signal⟩ ls pause := by
  obtain ⟨n, hn⟩ := h
  induction n generalizing c active stack signal with
  | zero => cases hn
  | succ n ih =>
    have hstep := step_of_stacked stacked (tame _ (.refl _))
    cases hplace : B.runStep (stack, signal) with
    | next r =>
      rw [hplace] at hstep
      rw [Transition.runFor_succ_of_next hplace] at hn
      obtain ⟨⟨c₁, active₁, signal₁⟩, hq, rfl, hstacked⟩ := hstep
      obtain ⟨ls, pause, hends⟩ := ih hstacked (tame.reaches (.head hq (.refl _))) hn
      exact ⟨_, pause, .more hq hends⟩
    | done m =>
      rw [hplace] at hstep
      obtain ⟨pause, hpause, -⟩ := hstep
      exact ⟨_, pause, .last hpause⟩

/-- Where running in place always comes to something the stack always pauses. -/
theorem pausing_of_settles (h : Settles B R) :
    Pausing B.programs (Midway (T := T) B R) := by
  intro q q' hq tame
  cases hq with
  | intro stacked ready related place =>
    obtain ⟨m, hm⟩ := h _ _ related _
    exact ends_of_inPlace stacked tame ((place m).2 hm)

/-- One computation that has not been started, and one of the flattening. -/
theorem midway_single {s : S} {t : T} (h : R [s] t) :
    Midway B R ⟨.single s, [0], .send .null⟩ ⟨.single t, [0], .send .null⟩ :=
  .intro (.intro (by decide) (.unstarted rfl .null) .nil) (.unstarted rfl .null) h
    fun _ => Iff.rfl

end Behaviour
end DescribedEffects
