import DescribedEffects.Decimal.Binary64
import DescribedEffects.Value.ExnKind

/-!
# Values

Programs, contexts and expectations are made of values of one dynamic type.
Dynamic values are the job here: an effect descriptor is read off a plain list, a
context is a nest of mappings, and whatever a program yields may be malformed.

## What has an identity

Most values are compared by content and carry no identity.  Four sorts do:
exceptions (`Exn.id`), so that "the same exception" can be said; computations,
coroutines, futures and completion callbacks, whose state lives elsewhere under
their number; NaN, which is equal to nothing and yet is found inside a container
that holds the very same one; and one-shot awaitables.

## Ill-formed descriptors

`Descriptor` is what the fields of a descriptor hold, not what a valid one
looks like: a descriptor can be put together by hand with any path and any
members.  Validity is a predicate of its own, beside the parser that establishes
it.

The three structures are written over a type parameter because the value type is
recursive through them; `Descriptor`, `Exn` and `Expectation` are their instances
at `Value`.
-/

namespace DescribedEffects

/-- How a descriptor asks to be performed. -/
inductive Mode where
  | direct
  | parallel
  | callback
  deriving DecidableEq, Repr

/-- The name a mode is written with. -/
def Mode.label : Mode → String
  | .direct => "DIRECT"
  | .parallel => "PARALLEL"
  | .callback => "CALLBACK"

/-- The fields of an effect descriptor.  In parallel mode the arguments are the
members of the group. -/
structure DescriptorOf (α : Type) where
  mode : Mode
  path : List α
  args : List α
  createdAt : Option String

/-- What an exception says, by the kinds that say something of their own. -/
inductive ExnBody (α : Type) where
  /-- A kind without fields, and its arguments. -/
  | plain (kind : ExnKind) (args : List α)
  /-- A malformed descriptor, the reason, and the reason as the message embeds it. -/
  | malformed (descriptor reason : α) (said : String)
  /-- The path as it was given, its segments, the segment where the walk stopped,
  and why. -/
  | notFound (path : α) (segments : List α) (segment reason : α)
  | execution (effect cause : α)
  | unexpected (actual expected index : α)
  | unused (remaining : List α)

/-- An exception: an identity and what it says. -/
structure ExnOf (α : Type) where
  id : Nat
  body : ExnBody α

/-- One expected effect and the outcome to feed back for it. -/
structure ExpectationOf (α : Type) where
  effect : α
  yields : α
  raises : Option (ExnOf α)

/-- Values. -/
inductive Value where
  | null
  | truth (b : Bool)
  | int (n : Int)
  | real (x : Binary64)
  /-- Not a number; each has an identity. -/
  | nan (id : Nat)
  | text (s : String)
  | bytes (bs : List UInt8)
  | list (items : List Value)
  | tuple (items : List Value)
  /-- A mapping, in insertion order. -/
  | record (entries : List (Value × Value))
  /-- A read-only mapping. -/
  | view (entries : List (Value × Value))
  /-- A mapping whose every access raises. -/
  | faulty (exn : ExnOf Value)
  | mode (m : Mode)
  | descriptor (d : DescriptorOf Value)
  | expectation (e : ExpectationOf Value)
  /-- A successful result. -/
  | ok (v : Value)
  /-- A failed result. -/
  | err (v : Value)
  | exn (e : ExnOf Value)
  /-- A kind of exception, which can be called to make an instance. -/
  | kind (k : ExnKind)
  /-- A named function of the program at hand. -/
  | function (name : String)
  /-- A suspended computation that can be stepped. -/
  | computation (id : Nat)
  | coroutine (id : Nat)
  | future (id : Nat)
  /-- The completion callback of the effect with the given number in the given
  run of the event loop. -/
  | done (run effect : Nat)
  /-- An awaitable that completes at once. -/
  | settled (id : Nat) (v : Value)
  /-- An awaitable that fails at once. -/
  | broken (id : Nat) (e : ExnOf Value)

/-- An effect descriptor. -/
abbrev Descriptor := DescriptorOf Value

/-- An exception. -/
abbrev Exn := ExnOf Value

/-- An expectation. -/
abbrev Expectation := ExpectationOf Value

/-- How something that was performed came out. -/
abbrev Outcome := Except Exn Value

/-- The kind of an exception. -/
def ExnBody.kind {α : Type} : ExnBody α → ExnKind
  | .plain k _ => k
  | .malformed .. => .malformed
  | .notFound .. => .notFound
  | .execution .. => .execution
  | .unexpected .. => .unexpected
  | .unused .. => .unused

/-- The kind of an exception. -/
def ExnOf.kind {α : Type} (e : ExnOf α) : ExnKind := e.body.kind

/-- Ordinary handlers take the exception. -/
def ExnOf.isOrdinary {α : Type} (e : ExnOf α) : Bool := e.kind.isOrdinary

/-- The exception is a verdict of the test harness. -/
def ExnOf.isVerdict {α : Type} (e : ExnOf α) : Bool := e.kind.isVerdict

/-- The exception marks the end of a computation. -/
def ExnOf.isExhausted {α : Type} (e : ExnOf α) : Bool := e.kind.isA .exhausted

/-- The value is an exception that marks the end of a computation. -/
def Value.isMark : Value → Bool
  | .exn e => e.isExhausted
  | _ => false

/-- The value an end-of-computation exception carries. -/
def ExnOf.returned (e : Exn) : Value :=
  match e.body with
  | .plain _ (v :: _) => v
  | _ => .null

namespace Value

instance : Inhabited Value := ⟨.null⟩

/-- The value is a suspended computation. -/
def isComputation : Value → Bool
  | .computation _ => true
  | _ => false

/-- The value can be called. -/
def isCallable : Value → Bool
  | .function _ | .kind _ | .done .. => true
  | _ => false

/-- The value can be awaited. -/
def isAwaitable : Value → Bool
  | .coroutine _ | .future _ | .settled .. | .broken .. => true
  | _ => false

/-- The value is a mapping. -/
def isMapping : Value → Bool
  | .record _ | .view _ | .faulty _ => true
  | _ => false

/-- The name of a value's type, as messages give it. -/
def typeName : Value → String
  | .null => "NoneType"
  | .truth _ => "bool"
  | .int _ => "int"
  | .real _ | .nan _ => "float"
  | .text _ => "str"
  | .bytes _ => "bytes"
  | .list _ => "list"
  | .tuple _ => "tuple"
  | .record _ => "dict"
  | .view _ => "mappingproxy"
  | .faulty _ => "FaultMapping"
  | .mode _ => "Mode"
  | .descriptor _ => "EffectDescriptor"
  | .expectation _ => "Expectation"
  | .ok _ => "Ok"
  | .err _ => "Err"
  | .exn e => e.kind.label
  | .kind _ => "type"
  | .function _ => "Fn"
  | .computation _ => "generator"
  | .coroutine _ => "coroutine"
  | .future _ => "Future"
  | .done .. => "function"
  | .settled .. | .broken .. => "Awaitable"

/-- Whether a condition on the value holds: nothing, zero and the empty
containers are false. -/
def isTrue : Value → Bool
  | .null => false
  | .truth b => b
  | .int n => n != 0
  | .real x => !x.isZero
  | .text s => s != ""
  | .bytes bs => !bs.isEmpty
  | .list xs | .tuple xs => !xs.isEmpty
  | .record es | .view es => !es.isEmpty
  | .faulty _ => false
  | _ => true

/-- The integer a truth value or integer stands for. -/
def integer? : Value → Option Int
  | .truth b => some (if b then 1 else 0)
  | .int n => some n
  | _ => none

/-- The integer fits a signed word of sixty-four bits, as positions and counts must. -/
def isMachineInteger (n : Int) : Bool := -Int.pow 2 63 ≤ n && n < Int.pow 2 63

end Value
end DescribedEffects
