import DescribedEffects.Proofs.Computation.Joint

/-!
# Computations by their behaviour

A computation is known by how it goes on when something is sent or thrown into it: it
returns, raises, yields an item, or yields another computation, and in the last two
cases it is left in some state.  A `Behaviour` is such a description for all states of
a type at once, so that the computations it describes can run without end and branch on
whatever they receive.

Two things that cannot happen are ruled out by the type of a `Move`: an item is no
computation, and an exception that would mark the end of the computation never leaves
its body.

`Behaviour.programs` keeps computations of one behaviour under numbers.  A computation
that is yielded is always a new one and gets the next free number.
-/

namespace DescribedEffects

/-- What a computation does when it is resumed, and the state it is left in. -/
inductive Move (S : Type) where
  | returned (v : Value)
  | raised (e : Exn) (passes : e.isExhausted = false)
  | yielded (item : Value) (plain : item.isComputation = false) (next : S)
  /-- It yields another computation, which has not been started. -/
  | nested (inner next : S)

/-- It yields a list, which is no computation. -/
abbrev Move.listed {S : Type} (items : List Value) (next : S) : Move S :=
  .yielded (.list items) rfl next

/-- How computations go on. -/
structure Behaviour (S : Type) where
  resume : S → Signal → Move S

/-- Where a computation stands. -/
inductive Standing (S : Type) where
  | unstarted (s : S)
  | suspended (s : S)
  | ended

/-- The computations that have been made, by their numbers, and a count of the
exceptions that were made to close some of them. -/
structure Computations (S : Type) where
  standings : List (Standing S)
  exceptions : Nat

namespace Computations

variable {S : Type}

/-- Moves a computation. -/
def stand (c : Computations S) (g : Nat) (standing : Standing S) : Computations S :=
  { c with standings := c.standings.set g standing }

/-- Makes a computation. -/
def make (c : Computations S) (s : S) : Computations S :=
  { c with standings := c.standings ++ [.unstarted s] }

/-- One computation that has not been started. -/
def single (s : S) : Computations S := ⟨[.unstarted s], 0⟩

end Computations

namespace Behaviour

variable {S : Type} (B : Behaviour S)

/-- A raised exception that is not the end of the computation stays what it is. -/
theorem settle_raised {e : Exn} (h : e.isExhausted = false) :
    Host.settle (.raised e) = .raised e := if_neg (by rw [h]; exact Bool.false_ne_true)

/-- What a move means to whoever resumed the computation. -/
def answer (g : Nat) (c : Computations S) : Move S → Reply × Computations S
  | .returned v => (.returned v, c.stand g .ended)
  | .raised e _ => (.raised e, c.stand g .ended)
  | .yielded item _ next => (.yielded item, c.stand g (.suspended next))
  | .nested inner next =>
    (.yielded (.computation c.standings.length), (c.stand g (.suspended next)).make inner)

/-- Resumes a computation.  One that has not been started can only be begun, and one
that has ended returns nothing or raises what is thrown into it. -/
def resumeAt (g : Nat) (signal : Signal) (c : Computations S) : Reply × Computations S :=
  match c.standings[g]?, signal with
  | some (.suspended s), signal => answer g c (B.resume s signal)
  | some (.unstarted s), .send v => answer g c (B.resume s (.send v))
  | some (.unstarted _), .throw e => (.raised e, c.stand g .ended)
  | _, .send _ => (.returned .null, c)
  | _, .throw e => (.raised e, c)

/-- What comes of a closing exception that was thrown into a computation: it must not
yield, and a closing exception that comes out again is no failure. -/
def afterClosing (c : Computations S) : Reply × Computations S → Option Exn × Computations S
  | (.returned _, c) => (none, c)
  | (.raised e, c) => (if e.kind.isA .closing || e.isExhausted then none else some e, c)
  | (.yielded _, d) =>
    (some ⟨c.exceptions + 1, ValueFault.ignoredClosing.body⟩,
      { d with exceptions := c.exceptions + 2 })

/-- Closes a computation. -/
def closeAt (g : Nat) (_because : Exn) (c : Computations S) : Option Exn × Computations S :=
  match c.standings[g]? with
  | some (.suspended s) =>
    afterClosing c (answer g { c with exceptions := c.exceptions + 1 }
      (B.resume s (.throw ⟨c.exceptions, .plain .closing []⟩)))
  | some (.unstarted _) => (none, c.stand g .ended)
  | _ => (none, c)

/-- A computation that has ended is closed quietly. -/
theorem closeAt_of_ended {g : Nat} {c : Computations S} (because : Exn)
    (h : c.standings[g]? = some .ended ∨ c.standings[g]? = none) :
    (B.closeAt g because c).1 = none := by
  rcases h with h | h <;> simp [closeAt, h]

/-- A move that yields nothing ends the computation. -/
theorem answer_ended {g : Nat} {c : Computations S} {m : Move S}
    (h : ∀ item, (answer g c m).1 ≠ .yielded item) :
    (answer g c m).2.standings[g]? = some .ended ∨ (answer g c m).2.standings[g]? = none := by
  cases m with
  | returned v =>
    by_cases hg : g < c.standings.length <;> simp [answer, Computations.stand, hg]
  | raised e _ =>
    by_cases hg : g < c.standings.length <;> simp [answer, Computations.stand, hg]
  | yielded item _ next => exact absurd rfl (h item)
  | nested inner next => exact absurd rfl (h _)

/-- A computation that yields nothing when it is resumed has ended. -/
theorem resumeAt_ended {g : Nat} {signal : Signal} {c : Computations S}
    (h : ∀ item, (B.resumeAt g signal c).1 ≠ .yielded item) :
    (B.resumeAt g signal c).2.standings[g]? = some .ended ∨
      (B.resumeAt g signal c).2.standings[g]? = none := by
  unfold resumeAt at h ⊢
  rcases hs : c.standings[g]? with _ | s | s | _
  · cases signal <;> exact .inr hs
  · cases signal with
    | send v =>
      rw [hs] at h
      exact answer_ended h
    | throw e =>
      by_cases hg : g < c.standings.length <;> simp [Computations.stand, hg]
  · rw [hs] at h
    exact answer_ended h
  · cases signal <;> exact .inl hs

/-- The computations of a behaviour. -/
def programs : Programs (Computations S) where
  resume := B.resumeAt
  close := B.closeAt
  close_ended _ _ because _ h := B.closeAt_of_ended because (B.resumeAt_ended h)

end Behaviour
end DescribedEffects
