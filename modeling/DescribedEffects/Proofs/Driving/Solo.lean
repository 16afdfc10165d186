import DescribedEffects.Proofs.Computation.Joint
import DescribedEffects.Proofs.Trail

/-!
# A stack of computations on its own

A driver keeps a stack of computations, innermost first.  `Solo` is that stack and what the
innermost computation is about to be told; `Solo.step` tells it.  A computation that is
yielded goes on top, and one that ends leaves its result or its exception to the next.  The
stack comes to a `Pause` when an item is yielded that is no computation, or when the last
computation has ended.

Nothing here depends on what an effect is, on the loop or on a test.
-/

namespace DescribedEffects

/-- What can be seen of computations that are driven. -/
inductive Event where
  /-- A computation was told something. -/
  | told (computation : Nat) (signal : Signal)
  /-- A computation raised an exception and left it to the one that yielded it. -/
  | passed (e : Exn)
  /-- An effect was yielded and had an outcome. -/
  | answered (d : Descriptor) (o : Outcome)
  /-- An effect was yielded and had none. -/
  | unanswered (d : Descriptor)

/-- The effects that were yielded and had outcomes. -/
def exchanges (events : List Event) : List (Descriptor × Outcome) :=
  events.filterMap fun
    | .answered d o => some (d, o)
    | _ => none

@[simp] theorem exchanges_nil : exchanges [] = [] := rfl

@[simp] theorem exchanges_append (es fs : List Event) :
    exchanges (es ++ fs) = exchanges es ++ exchanges fs := List.filterMap_append ..

@[simp] theorem exchanges_answered (d : Descriptor) (o : Outcome) :
    exchanges [.answered d o] = [(d, o)] := rfl

@[simp] theorem exchanges_unanswered (d : Descriptor) : exchanges [.unanswered d] = [] := rfl

/-- A stack of computations, the innermost about to be told something. -/
structure Solo (P : Type) where
  programs : P
  active : List Nat
  signal : Signal

/-- Where a stack of computations comes to rest. -/
inductive Pause (P : Type) where
  /-- An item was yielded that is no computation. -/
  | yielded (item : Value) (programs : P) (active : List Nat)
  | ended (o : Outcome) (programs : P)

/-- What a pause leaves of the computations. -/
def Pause.programs {P : Type} : Pause P → P
  | .yielded _ programs _ | .ended _ programs => programs

/-- The computations that are active at a pause. -/
def Pause.active {P : Type} : Pause P → List Nat
  | .yielded _ _ active => active
  | .ended .. => []

namespace Solo

variable {P : Type}

/-- What the innermost computation left to the next one. -/
def leave (programs : P) (o : Outcome) : List Nat → Transition (Solo P) (Pause P)
  | [] => .done (.ended o programs)
  | g :: rest =>
    match o with
    | .ok v => .next ⟨programs, g :: rest, .send v⟩
    | .error e =>
      if e.isOrdinary then .next ⟨programs, g :: rest, .throw e⟩
      else .done (.ended o programs)

/-- What the innermost computation did when it was told something. -/
def react (programs : P) (g : Nat) (rest : List Nat) : Reply → Transition (Solo P) (Pause P)
  | .yielded (.computation inner) => .next ⟨programs, inner :: g :: rest, .send .null⟩
  | .yielded item => .done (.yielded item programs (g :: rest))
  | .returned v => leave programs (.ok v) rest
  | .raised e => leave programs (.error e) rest

/-- An item that is no computation brings the stack to a pause. -/
theorem react_of_plain (programs : P) (g : Nat) (rest : List Nat) {item : Value}
    (h : item.isComputation = false) :
    react programs g rest (.yielded item) = .done (.yielded item programs (g :: rest)) := by
  cases item with
  | computation inner => cases h
  | _ => rfl

/-- Tells the innermost computation what it is about to be told. -/
def step (C : Programs P) (s : Solo P) : Transition (Solo P) (Pause P) :=
  match s.active with
  | [] => .done (.ended (.ok .null) s.programs)
  | g :: rest =>
    let (reply, programs) := C.resume g s.signal s.programs
    react programs g rest (Host.settle reply)

theorem step_cons (C : Programs P) (programs : P) (g : Nat) (rest : List Nat) (signal : Signal) :
    step C ⟨programs, g :: rest, signal⟩ =
      react (C.resume g signal programs).2 g rest
        (Host.settle (C.resume g signal programs).1) := rfl

/-- What a resumption shows: who is told what, and what an inner computation raises and
leaves to the next one. -/
def shows (C : Programs P) (s : Solo P) : List Event :=
  match s.active with
  | [] => []
  | g :: rest =>
    .told g s.signal ::
      match Host.settle (C.resume g s.signal s.programs).1, rest with
      | .raised e, _ :: _ => [.passed e]
      | _, _ => []

/-- There is always somebody to be told something. -/
theorem active_of_step {C : Programs P} {s t : Solo P} (h : step C s = .next t) :
    t.active ≠ [] := by
  have hleave : ∀ {programs : P} {o : Outcome} {rest : List Nat},
      leave programs o rest = .next t → t.active ≠ [] := by
    intro programs o rest h
    unfold leave at h
    split at h
    · cases h
    · split at h
      · cases h
        exact List.cons_ne_nil _ _
      · split at h
        · cases h
          exact List.cons_ne_nil _ _
        · cases h
  unfold step at h
  split at h
  · cases h
  · dsimp only at h
    unfold react at h
    split at h
    · cases h
      exact List.cons_ne_nil _ _
    · cases h
    · exact hleave h
    · exact hleave h

/-- The item at a pause is no computation, and nobody has left the stack. -/
theorem yielded_of_step {C : Programs P} {s : Solo P} {item : Value} {programs : P}
    {active : List Nat} (h : step C s = .done (.yielded item programs active)) :
    item.isComputation = false ∧ active = s.active := by
  have hleave : ∀ {q : P} {o : Outcome} {rest : List Nat},
      leave q o rest ≠ .done (.yielded item programs active) := by
    intro q o rest h
    unfold leave at h
    split at h
    · cases h
    · split at h
      · cases h
      · split at h <;> cases h
  unfold step at h
  split at h
  · cases h
  · next g rest hactive =>
    dsimp only at h
    cases hr : Host.settle (C.resume g s.signal s.programs).1 with
    | yielded item' =>
      rw [hr] at h
      cases hitem : item'.isComputation with
      | true =>
        cases item' with
        | computation inner => cases h
        | _ => cases hitem
      | false =>
        rw [react_of_plain _ g rest hitem] at h
        cases h
        exact ⟨hitem, hactive.symm⟩
    | returned v => rw [hr] at h; exact absurd h hleave
    | raised e => rw [hr] at h; exact absurd h hleave

/-- No effect has an outcome while the stack moves on its own. -/
@[simp] theorem exchanges_shows (C : Programs P) (s : Solo P) : exchanges (shows C s) = [] := by
  unfold shows
  split
  · rfl
  · split <;> rfl

end Solo
end DescribedEffects
