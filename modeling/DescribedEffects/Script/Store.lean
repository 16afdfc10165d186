import DescribedEffects.Computation.Host
import DescribedEffects.Script.Term

/-!
# What scripts remember

The store holds the state that scripts share: the global variables, the log, the
computations and coroutines that have been made, and the numbers that have been
given out.  A computation that is not running is kept as an activation: its
variables and what it has left to do.

Exceptions carry what they say in themselves.  Only their causes are kept here,
because raising an exception "from" another changes the one that is raised.  An
entry of the log keeps the causes as they were when it was made.
-/

namespace DescribedEffects
namespace Script

/-- How a body of statements, or a part of it, comes to its end early. -/
inductive Exit where
  | return (v : Value)
  | raise (e : Exn)

/-- What is left to do in a body, innermost first. -/
inductive Frame where
  /-- The rest of a block. -/
  | block (rest : List Stmt)
  /-- A loop over items. -/
  | items (name : String) (rest : List Value) (body : List Stmt)
  /-- A loop over what a computation yields. -/
  | stepping (name : String) (computation : Nat) (body : List Stmt)
  /-- The body of an attempt. -/
  | guarded (handlers : List Handler) (cleanup : Option (List Stmt))
  /-- A handler that is at work on an exception. -/
  | handling (e : Exn) (cleanup : Option (List Stmt))
  /-- A cleanup, and the exit that it interrupts. -/
  | cleaning (interrupted : Option Exit)
  /-- What comes back is bound to a name. -/
  | receive (bind : Option String)

/-- Whose body an activation runs. -/
inductive Role where
  | function
  /-- A call that is made aside, by code that ran aside itself or did not. -/
  | aside (already : Bool)
  | computation (id : Nat)
  | coroutine (id : Nat)

/-- A body that is being run: its variables and what is left to do. -/
structure Activation where
  role : Role
  locals : List (String × Value)
  frames : List Frame

/-- Where a computation or coroutine stands. -/
inductive Standing where
  | unstarted (body : Activation)
  | running
  | suspended (body : Activation)
  | finished

/-- The causes of exceptions, by their numbers. -/
abbrev Causes := List (Nat × Option Exn)

/-- An entry of the log, with the causes known when it was made. -/
structure LogEntry where
  value : Value
  causes : Causes

/-- What scripts remember. -/
structure Store where
  definitions : List (String × Definition)
  globals : List (String × Value)
  standings : List (Nat × Standing)
  causes : Causes
  log : List LogEntry
  requests : List Request
  /-- The next free number. -/
  next : Nat
  /-- The run of the event loop that is under way. -/
  loop : Option Nat
  /-- What runs at the moment runs aside and does not know of the loop. -/
  isAside : Bool
  /-- Effects of ended runs that nobody had completed. -/
  abandoned : List (Nat × Nat)
  surroundings : Surroundings

namespace Store

/-- A store in which nothing has happened. -/
def empty : Store := ⟨[], [], [], [], [], [], 0, none, false, [], {}⟩

/-- What runs at the moment can ask the event loop for something. -/
def knowsLoop (s : Store) : Bool := s.loop.isSome && !s.isAside

/-- Binds a name, replacing an earlier binding. -/
def bind {α : Type} (name : String) (v : α) : List (String × α) → List (String × α)
  | [] => [(name, v)]
  | (n, w) :: rest => if n = name then (n, v) :: rest else (n, w) :: bind name v rest

/-- Gives out a number. -/
def fresh (s : Store) : Nat × Store := (s.next, { s with next := s.next + 1 })

/-- Makes an exception. -/
def raise (body : ExnBody Value) (s : Store) : Exn × Store :=
  (⟨s.next, body⟩, { s with next := s.next + 1 })

/-- Notes the cause of an exception. -/
def blame (id : Nat) (cause : Option Exn) (s : Store) : Store :=
  { s with causes := (id, cause) :: s.causes.filter (·.1 != id) }

/-- Where a computation or coroutine stands. -/
def standing (s : Store) (id : Nat) : Standing := (s.standings.lookup id).getD .finished

/-- Moves a computation or coroutine. -/
def stand (s : Store) (id : Nat) (standing : Standing) : Store :=
  { s with standings := (id, standing) :: s.standings.filter (·.1 != id) }

/-- Asks something of the event loop. -/
def request (s : Store) (r : Request) : Store := { s with requests := s.requests ++ [r] }

/-- Adds an entry to the log. -/
def write (s : Store) (v : Value) : Store :=
  let entry : LogEntry := ⟨v, s.causes⟩
  { s with log := s.log ++ [entry] }

end Store

/-- The cause of an exception. -/
def Causes.causeOf (causes : Causes) (e : Exn) : Option Exn := (causes.lookup e.id).join

/-- The variables a body starts with: its parameters by position, all its
arguments in one sequence, and the last of them. -/
def Definition.locals (d : Definition) (args : List Value) (sequence : Value) :
    List (String × Value) :=
  let parameters := d.parameters.mapIdx fun i p => (p, args.getD i .null)
  let own := parameters.foldl (fun acc p => Store.bind p.1 p.2 acc) []
  Store.bind "done" (args.getLastD .null) (Store.bind "args" sequence own)

/-- A body at its beginning. -/
def Definition.activation (d : Definition) (role : Role) (args : List Value)
    (sequence : Value) : Activation :=
  let locals := d.locals args sequence
  match role with
  | .computation id => ⟨role, Store.bind "self" (.computation id) locals, [.block d.body]⟩
  | _ => ⟨role, locals, [.block d.body]⟩

/-- A body at its beginning, as a call begins it: the arguments are in a tuple. -/
def Definition.called (d : Definition) (role : Role) (args : List Value) : Activation :=
  d.activation role args (.tuple args)

end Script
end DescribedEffects
