import DescribedEffects.Descriptor.Factory

/-!
# The script language

Programs for the drivers, and the functions and coroutines of a context, can be
written in a small imperative language.  Its terms are here; `Script.Evaluation`
gives expressions their values and `Script.Machine` runs statements.

An expression builds a value: the structures of the value language, the library's
own descriptors and expectations, new exceptions, and the objects that run.
Evaluating it can fail, and it can make things that have an identity.  Running
bodies of statements is what the statements `call` and `iterate` are for; the one
expression that runs any is a new exception that keeps the items of a computation.

A call can be made in three ways: at once, later by a timer of the event loop, or
aside.  A call aside runs at once too, but on its own: it does not know of the event
loop, nor of an exception that is being handled, and nothing comes back from it, no
failure either.
-/

namespace DescribedEffects
namespace Script

/-- Expressions. -/
inductive Expr where
  /-- A value that needs no evaluation. -/
  | lit (v : Value)
  /-- A new NaN. -/
  | nan
  | list (items : List Expr)
  | tuple (items : List Expr)
  | record (entries : List (Expr × Expr))
  | view (entries : List (Expr × Expr))
  /-- A mapping whose every access raises the given exception. -/
  | faulty (exn : Expr)
  /-- A descriptor put together by hand, without any check. -/
  | descriptor (mode : Mode) (path args : List Expr) (createdAt : Option String)
  | make (maker : Maker) (args : List Expr)
  /-- A new exception. -/
  | exception (kind : ExnKind) (args : List Expr) (named : List (String × Expr))
  /-- A new expectation, from the fields that are given. -/
  | expectation (fields : List (String × Expr))
  | ok (v : Expr)
  | err (v : Expr)
  /-- A new computation of a definition. -/
  | computation (name : String) (args : List Expr)
  /-- A new awaitable that completes, or fails, at once. -/
  | settled (v : Expr)
  | broken (exn : Expr)
  /-- A new future, complete at once or after a delay. -/
  | future (value : Expr) (failed : Bool) (delay : Option Nat)
  | variable (name : String)
  | sum (a b : Expr)
  | product (a b : Expr)
  | equal (a b : Expr)
  | less (a b : Expr)
  | item (v key : Expr)
  | size (v : Expr)
  | negation (v : Expr)
  | field (v : Expr) (name : String)
  | isInstance (v : Expr) (kind : ExnKind)
  | text (v : Expr)
  | display (v : Expr)

/-- Statements.  A name after a yield or a call is bound to what comes back. -/
inductive Stmt where
  | yield (item : Expr) (bind : Option String)
  | return (v : Expr)
  | log (v : Expr)
  /-- Raises an exception, or again the one being handled. -/
  | raise (exn : Option Expr) (cause : Option Expr)
  | assign (name : String) (v : Expr)
  | assignGlobal (name : String) (v : Expr)
  | branch (condition : Expr) (yes no : List Stmt)
  | iterate (name : String) (source : Expr) (body : List Stmt)
  | attempt (body : List Stmt) (handlers : List (List ExnKind × Option String × List Stmt))
      (cleanup : Option (List Stmt))
  | sleep (units : Nat)
  | call (callee : Expr) (args : List Expr) (bind : Option String)
  | callLater (delay : Nat) (callee : Expr) (args : List Expr) (bind : Option String)
  | callAside (callee : Expr) (args : List Expr) (bind : Option String)

/-- A handler: the kinds it takes, the name the exception is bound to, and what it
does. -/
abbrev Handler := List ExnKind × Option String × List Stmt

/-- What a definition defines. -/
inductive DefKind where
  | computation
  | function
  | coroutine
  deriving DecidableEq

/-- A definition. -/
structure Definition where
  kind : DefKind
  parameters : List String
  body : List Stmt

end Script
end DescribedEffects
