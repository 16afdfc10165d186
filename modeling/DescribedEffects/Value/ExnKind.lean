import DescribedEffects.Value.SystemCondition

/-!
# Kinds of exceptions

An exception is an instance of a kind, and a handler names the kinds it is
willing to take.  The kinds form a small directed graph rather than a tree: the
library's own errors each stand below `effect` and, most of them, below a general
kind as well, so that code that knows nothing of effects can still handle a
missing path as a missing key.

`ExnKind.parents` is the graph; `ExnKind.isA` is its reflexive transitive
closure.  The graph is four levels deep, which is what `ancestors` unfolds.

Two sorts of kinds have no name that a program could use: a number that does not fit is
an ordinary exception, a condition of the operating system is one of its failures, and
handlers take them as such.  `named` lists all the others.
-/

namespace DescribedEffects

/-- The kinds of exceptions. -/
inductive ExnKind where
  /-- The root of all. -/
  | base
  /-- What a computation receives when it is closed. -/
  | closing
  /-- The root of the kinds that ordinary handlers take. -/
  | ordinary
  | value
  | type
  | lookup
  | key
  | index
  | runtime
  /-- The operating system reports a failure. -/
  | system
  /-- It reports one that has a name. -/
  | condition (c : SystemCondition)
  | assertion
  | attribute
  /-- A number does not fit. -/
  | overflow
  /-- What a finished computation answers with; it carries the returned value. -/
  | exhausted
  /-- The root of the library's own errors. -/
  | effect
  | execution
  | malformed
  | notFound
  | unexpected
  | unused
  deriving DecidableEq, Repr

namespace ExnKind

/-- The kinds that a program can name. -/
def named : List ExnKind :=
  [.base, .closing, .ordinary, .value, .type, .lookup, .key, .index, .runtime, .system,
   .assertion, .attribute, .exhausted, .effect, .execution, .malformed, .notFound,
   .unexpected, .unused]

/-- The kinds directly above a kind. -/
def parents : ExnKind → List ExnKind
  | .base => []
  | .closing => [.base]
  | .ordinary => [.base]
  | .value | .type | .lookup | .runtime | .system | .assertion | .attribute
  | .overflow | .exhausted | .effect => [.ordinary]
  | .key | .index => [.lookup]
  | .condition _ => [.system]
  | .execution => [.effect]
  | .malformed => [.effect, .type]
  | .notFound => [.effect, .key]
  | .unexpected => [.effect, .assertion]
  | .unused => [.effect, .assertion]

/-- The kinds reached in at most `n` upward steps. -/
def ancestors : Nat → ExnKind → List ExnKind
  | 0, k => [k]
  | n + 1, k => k :: k.parents.flatMap (ancestors n)

/-- Whether an instance of the first kind is an instance of the second. -/
def isA (k above : ExnKind) : Bool := (ancestors 4 k).contains above

/-- The kinds that ordinary handlers, those of the drivers included, take. -/
def isOrdinary (k : ExnKind) : Bool := k.isA .ordinary

/-- The verdicts of the test harness, which it never hands to the program under
test. -/
def isVerdict (k : ExnKind) : Bool := k.isA .unexpected || k.isA .unused

/-- The name a kind is written with. -/
def label : ExnKind → String
  | .base => "BaseException"
  | .closing => "GeneratorExit"
  | .ordinary => "Exception"
  | .value => "ValueError"
  | .type => "TypeError"
  | .lookup => "LookupError"
  | .key => "KeyError"
  | .index => "IndexError"
  | .runtime => "RuntimeError"
  | .system => "OSError"
  | .condition c => c.label
  | .assertion => "AssertionError"
  | .attribute => "AttributeError"
  | .overflow => "OverflowError"
  | .exhausted => "StopIteration"
  | .effect => "EffectError"
  | .execution => "EffectExecutionError"
  | .malformed => "MalformedDescriptorError"
  | .notFound => "PathNotFoundError"
  | .unexpected => "UnexpectedEffectError"
  | .unused => "UnusedExpectationsError"

/-- The kind with a given name. -/
def ofLabel? (name : String) : Option ExnKind := named.find? fun k => k.label == name

/-- How the kind itself, as a value, is written: the library's own kinds by their
full name. -/
def display (k : ExnKind) : String :=
  if k.isA .effect then "<class 'effectpath.errors." ++ k.label ++ "'>"
  else "<class '" ++ k.label ++ "'>"

/-- The graph is no deeper than `isA` looks. -/
theorem ancestors_closed (k : ExnKind) :
    ∀ a ∈ ancestors 4 k, ∀ p ∈ a.parents, p ∈ ancestors 4 k := by
  cases k with
  | condition c => cases c <;> decide
  | _ => decide

@[simp] theorem isA_refl (k : ExnKind) : k.isA k = true := by
  cases k with
  | condition c => cases c <;> decide
  | _ => decide

/-- A verdict is an ordinary exception. -/
theorem isOrdinary_of_isVerdict (k : ExnKind) (h : k.isVerdict = true) :
    k.isOrdinary = true := by
  revert h
  cases k with
  | condition c => cases c <;> decide
  | _ => decide

example : ofLabel? "KeyError" = some .key := by decide +kernel
example : isA .notFound .lookup = true ∧ isA .unused .type = false := by decide

end ExnKind
end DescribedEffects
