import DescribedEffects.Computation.Host
import DescribedEffects.Note
import DescribedEffects.Trace

/-!
# The state of the event loop

Effects are performed by an event loop.  This module holds what the loop
consists of; `EventLoop.Step` says how it moves.

## Promises, jobs and tasks

A *promise* is an outcome that may not be there yet, with the jobs that wait for
it.  A *job* is one entry of the ready queue; jobs run in the order in which they
were queued, each to its end.  A *task* is a piece of work that can block on a
promise: a lone effect, a computation that is driven, a watch over an awaitable,
or several computations side by side.  Every task has a promise for its own
outcome.

Completing a promise queues the jobs that wait for it, in the order in which they
began to wait, and does nothing else.  So nobody is ever resumed from inside
somebody else's step.

## Callback-style effects

An effect that is performed with a completion callback can be completed from many
sides.  It is *claimed* by the first of them; a claim made by the callback itself
is carried out by a job of its own (`Job.settle`), so between the two the effect is
claimed and its promise still open.  It stays open if what was reported is an exception
that marks the end of a computation, since no promise takes one.

## Time

The clock counts whole units.  A timer holds a job; when the ready queue is empty
the clock moves to the earliest timer, and of equally early ones to the one that
was set first.  The timers are kept in that order.

A clock that runs by itself would differ in two ways.  All timers that are due would
go into the next batch together, where here one of them fires and the queue is emptied
before the next does.  And a timer would complete a promise that a sleeping coroutine
waits for, so that the task went on one turn later, where here the timer holds the
turn of the task itself.  What comes first of two things that are due at the same time
is therefore a matter of this clock.
-/

namespace DescribedEffects
namespace EventLoop

/-- One entry of the ready queue. -/
inductive Job where
  /-- Begin a task or go on with it. -/
  | step (task : Nat)
  /-- Let a group notice that one of its members is complete. -/
  | notice (group member : Nat)
  /-- Carry out a completion that claimed an effect. -/
  | settle (effect : Nat) (error value : Value)
  /-- Complete a promise. -/
  | fulfil (promise : Nat) (o : Outcome)
  /-- Call a function for its effects. -/
  | invoke (f : Value) (args : List Value)
  /-- Stop the loop after the current batch. -/
  | stop

/-- An outcome that may not be there yet, and the jobs that wait for it. -/
structure Promise where
  outcome : Option Outcome
  waiters : List Job

/-- An effect that is performed with a completion callback. -/
structure PendingEffect where
  descriptor : Descriptor
  claimed : Bool
  promise : Nat

/-- A group of tasks whose outcomes are awaited together. -/
structure Group where
  /-- The promises of the members, in order. -/
  members : List Nat
  /-- How many members have not been noticed yet. -/
  remaining : Nat
  promise : Nat

/-- A job that is due at some time. -/
structure Timer where
  due : Nat
  job : Job

/-- How far a computation has been driven: the active computations, innermost
first, the effect being performed, and the effects performed so far. -/
structure Journey where
  active : List Nat
  current : Option Descriptor
  /-- Present when a trace is kept. -/
  trace : Option Trace

/-- What a task is to do. -/
inductive Errand where
  /-- Perform one effect, written as an item. -/
  | perform (item : Value)
  /-- Watch over the awaitable that a callback-style function returned. -/
  | watch (effect : Nat) (awaited : Value)
  /-- Drive a computation.  When the run is captured, a failure is a result. -/
  | drive (program : Value) (trace : Option Trace) (captured : Bool)
  /-- Drive several computations side by side, capturing each. -/
  | convene (programs : List Value) (bound : TraceBound)

/-- What becomes of the outcome that a task waits for. -/
inductive Goal where
  /-- It is the outcome of the task. -/
  | answer
  /-- It says how the awaitable of a callback-style effect ended. -/
  | watch (effect : Nat)
  /-- It answers the effect that a driven computation yielded. -/
  | drive (journey : Journey) (captured : Bool)

/-- A driven computation at its end. -/
structure Report where
  outcome : Outcome
  trace : Option Trace

/-- Where a task stands. -/
inductive Phase where
  | fresh (errand : Errand)
  | running
  /-- Inside a coroutine that sleeps. -/
  | asleep (goal : Goal) (coroutine : Nat)
  | blocked (goal : Goal) (promise : Nat)
  | finished (report : Option Report)

/-- A task, with the promise of its outcome. -/
structure Task where
  phase : Phase
  promise : Nat

/-- What the loop is in the middle of. -/
inductive Control where
  /-- Nothing: the next job is due. -/
  | idle
  /-- A task is about to perform an effect. -/
  | perform (task : Nat) (goal : Goal) (d : Descriptor)
  /-- The outcome that a task waited for is there. -/
  | outcome (task : Nat) (goal : Goal) (o : Outcome)
  /-- A task is about to resume the innermost computation it drives. -/
  | deliver (task : Nat) (journey : Journey) (captured : Bool) (signal : Signal)

/-- A state of the loop. -/
structure State (σ : Type) where
  host : σ
  /-- The number of this run of the loop. -/
  run : Nat
  clock : Nat
  ready : List Job
  timers : List Timer
  tasks : List Task
  promises : List Promise
  effects : List PendingEffect
  groups : List Group
  /-- The promises of the futures that the host made. -/
  futures : List (Nat × Nat)
  /-- The outcomes of futures of earlier runs of the loop. -/
  earlier : List (Nat × Outcome)
  /-- How many jobs of the current batch are left. -/
  batch : Nat
  stopping : Bool
  notes : List Note
  control : Control

namespace State

variable {σ : Type}

/-- Puts a job at the end of the ready queue. -/
def enqueue (s : State σ) (j : Job) : State σ := { s with ready := s.ready ++ [j] }

/-- Adds a note to the log. -/
def note (s : State σ) (n : Note) : State σ := { s with notes := s.notes ++ [n] }

/-- Sets a timer, behind those that are due no later. -/
def setTimer (s : State σ) (delay : Nat) (j : Job) : State σ :=
  let due := s.clock + delay
  let (sooner, later) := s.timers.span fun t => decide (t.due ≤ due)
  { s with timers := sooner ++ ⟨due, j⟩ :: later }

/-- Makes an open promise. -/
def newPromise (s : State σ) : Nat × State σ :=
  (s.promises.length, { s with promises := s.promises ++ [⟨none, []⟩] })

/-- The outcome of a promise, if it is there. -/
def outcome? (s : State σ) (p : Nat) : Option Outcome := (s.promises[p]?).bind (·.outcome)

/-- Completes a promise and queues the jobs that wait for it.  A promise is
completed once; later completions change nothing. -/
def complete (s : State σ) (p : Nat) (o : Outcome) : State σ :=
  match s.promises[p]? with
  | some ⟨none, waiters⟩ =>
    { s with promises := s.promises.set p ⟨some o, []⟩, ready := s.ready ++ waiters }
  | _ => s

/-- Lets a job wait for a promise that is open. -/
def subscribe (s : State σ) (p : Nat) (j : Job) : State σ :=
  match s.promises[p]? with
  | some ⟨none, waiters⟩ => { s with promises := s.promises.set p ⟨none, waiters ++ [j]⟩ }
  | _ => s

/-- Makes a task, which begins at its turn. -/
def newTask (s : State σ) (errand : Errand) : Nat × State σ :=
  let (p, s) := s.newPromise
  let t := s.tasks.length
  let tasks := s.tasks ++ [(⟨.fresh errand, p⟩ : Task)]
  (t, { s with tasks }.enqueue (.step t))

/-- Moves a task to another phase. -/
def setPhase (s : State σ) (t : Nat) (phase : Phase) : State σ :=
  match s.tasks[t]? with
  | some task => { s with tasks := s.tasks.set t { task with phase } }
  | none => s

/-- Returns to the ready queue. -/
def toIdle (s : State σ) : State σ := { s with control := .idle }

/-- The state in which a task has the outcome it waited for. -/
def arrive (s : State σ) (t : Nat) (goal : Goal) (o : Outcome) : State σ :=
  { s with control := .outcome t goal o }

/-- Claims an effect, if nobody has: the answer says whether this was the first
claim. -/
def claim (s : State σ) (effect : Nat) : Bool × State σ :=
  match s.effects[effect]? with
  | some e =>
    if e.claimed then (false, s)
    else (true, { s with effects := s.effects.set effect { e with claimed := true } })
  | none => (false, s)

/-! ## What the operations come to

Four of the operations look something up and do nothing if it is not there.  What they do
otherwise is said here once, and then what they leave alone. -/

section

variable (s : State σ) (t : Nat) (phase : Phase) (p : Nat) (o : Outcome) (j : Job) (i : Nat)

theorem setPhase_cases :
    (∃ task, s.tasks[t]? = some task ∧
      s.setPhase t phase = { s with tasks := s.tasks.set t { task with phase } }) ∨
    s.setPhase t phase = s := by
  unfold setPhase
  split
  · next task ht => exact .inl ⟨task, ht, rfl⟩
  · exact .inr rfl

theorem subscribe_cases :
    (∃ waiters, s.promises[p]? = some ⟨none, waiters⟩ ∧
      s.subscribe p j = { s with promises := s.promises.set p ⟨none, waiters ++ [j]⟩ }) ∨
    s.subscribe p j = s := by
  unfold subscribe
  split
  · next waiters hw => exact .inl ⟨waiters, hw, rfl⟩
  · exact .inr rfl

theorem complete_cases :
    (∃ waiters, s.promises[p]? = some ⟨none, waiters⟩ ∧
      s.complete p o =
        { s with promises := s.promises.set p ⟨some o, []⟩, ready := s.ready ++ waiters }) ∨
    s.complete p o = s := by
  unfold complete
  split
  · next waiters hw => exact .inl ⟨waiters, hw, rfl⟩
  · exact .inr rfl

theorem claim_cases :
    (∃ e, s.effects[i]? = some e ∧ e.claimed = false ∧
      s.claim i = (true, { s with effects := s.effects.set i { e with claimed := true } })) ∨
    s.claim i = (false, s) := by
  unfold claim
  split
  · next e he =>
    split
    · exact .inr rfl
    · next hc => exact .inl ⟨e, he, eq_false_of_ne_true hc, rfl⟩
  · exact .inr rfl

theorem setPhase_frame : s.setPhase t phase = { s with tasks := (s.setPhase t phase).tasks } := by
  rcases s.setPhase_cases t phase with ⟨_, -, hu⟩ | hu <;> rw [hu]

theorem subscribe_frame :
    s.subscribe p j = { s with promises := (s.subscribe p j).promises } := by
  rcases s.subscribe_cases p j with ⟨_, -, hu⟩ | hu <;> rw [hu]

theorem complete_frame :
    s.complete p o =
      { s with promises := (s.complete p o).promises, ready := (s.complete p o).ready } := by
  rcases s.complete_cases p o with ⟨_, -, hu⟩ | hu <;> rw [hu]

theorem claim_frame : (s.claim i).2 = { s with effects := (s.claim i).2.effects } := by
  rcases s.claim_cases i with ⟨_, -, -, hu⟩ | hu <;> rw [hu]

variable {s i}

/-- The first claim of an effect. -/
theorem claim_of_unclaimed {e : PendingEffect} (he : s.effects[i]? = some e)
    (hc : e.claimed = false) :
    s.claim i = (true, { s with effects := s.effects.set i { e with claimed := true } }) := by
  simp only [claim, he, hc, Bool.false_eq_true, if_false]

/-- Any other claim changes nothing. -/
theorem claim_of_claimed (h : ∀ e, s.effects[i]? = some e → e.claimed = true) :
    s.claim i = (false, s) := by
  rcases s.claim_cases i with ⟨e, he, hc, -⟩ | hu
  · rw [h e he] at hc
    cases hc
  · exact hu

end

/-- The futures of this run and of earlier ones that have outcomes. -/
def settledFutures (s : State σ) : List (Nat × Outcome) :=
  s.earlier ++ s.futures.filterMap fun (id, p) => (s.outcome? p).map fun o => (id, o)

/-- The loop before anything has happened: one task, whose end stops the loop. -/
def start (host : σ) (run : Nat) (earlier : List (Nat × Outcome)) (errand : Errand) :
    State σ where
  host := host
  run := run
  clock := 0
  ready := [.step 0]
  timers := []
  tasks := [⟨.fresh errand, 0⟩]
  promises := [⟨none, [.stop]⟩]
  effects := []
  groups := []
  futures := []
  earlier := earlier
  batch := 0
  stopping := false
  notes := []
  control := .idle

end State
end EventLoop
end DescribedEffects
