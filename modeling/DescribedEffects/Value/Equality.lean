import DescribedEffects.Value.Basic

/-!
# When two values are equal

Equality is by content.  Truth values count as the integers one and zero,
integers and reals are compared exactly, mappings ignore the order of their
entries and whether they are read-only, and a descriptor is its mode, path and
arguments: where it was created never matters.  Exceptions, functions,
computations and everything else that runs are equal only to themselves.

Two relations are needed, because a container finds a NaN that it holds although
no NaN equals any number.  `Value.same` is the relation a container uses on its
elements, under which a value is always the same as itself; `Value.equal` is the
equality of two values standing alone, which differs from `same` at NaN and
nowhere else.

Two mappings are equal when they have the same number of entries and each entry
of the one has a counterpart in the other; keys are distinct, so that is a
bijection.  A mapping whose access raises has no entries to show.
-/

namespace DescribedEffects
namespace Value

/-- The exact number a value stands for, if it is a truth value, an integer or a
real. -/
def number? : Value → Option Binary64.Scaled
  | .truth b => some (.ofInt (if b then 1 else 0))
  | .int n => some (.ofInt n)
  | .real x => some x.scaled
  | _ => none

/-- Two values are the same number. -/
def sameNumber (a b : Value) : Bool :=
  match a.number?, b.number? with
  | some x, some y => x.compare y == .eq
  | _, _ => false

/-- The entries that a mapping shows. -/
def entries : Value → List (Value × Value)
  | .record es | .view es => es
  | _ => []

mutual

/-- The relation by which containers compare their elements. -/
def same : Value → Value → Bool
  | .null, b => match b with
    | .null => true
    | _ => false
  | .truth a, b => sameNumber (.truth a) b
  | .int a, b => sameNumber (.int a) b
  | .real a, b => sameNumber (.real a) b
  | .nan i, b => match b with
    | .nan j => i == j
    | _ => false
  | .text a, b => match b with
    | .text b => a == b
    | _ => false
  | .bytes a, b => match b with
    | .bytes b => a == b
    | _ => false
  | .list a, b => match b with
    | .list b => sameAll a b
    | _ => false
  | .tuple a, b => match b with
    | .tuple b => sameAll a b
    | _ => false
  | .record a, b => b.isMapping && a.length == b.entries.length && sameEntries a b.entries
  | .view a, b => b.isMapping && a.length == b.entries.length && sameEntries a b.entries
  | .faulty _, b => b.isMapping && b.entries.isEmpty
  | .mode a, b => match b with
    | .mode b => a == b
    | _ => false
  | .descriptor a, b => match b with
    | .descriptor b => sameDescriptor a b
    | _ => false
  | .expectation a, b => match b with
    | .expectation b => sameExpectation a b
    | _ => false
  | .ok a, b => match b with
    | .ok b => same a b
    | _ => false
  | .err a, b => match b with
    | .err b => same a b
    | _ => false
  | .exn a, b => match b with
    | .exn b => a.id == b.id
    | _ => false
  | .kind a, b => match b with
    | .kind b => a == b
    | _ => false
  | .function a, b => match b with
    | .function b => a == b
    | _ => false
  | .computation a, b => match b with
    | .computation b => a == b
    | _ => false
  | .coroutine a, b => match b with
    | .coroutine b => a == b
    | _ => false
  | .future a, b => match b with
    | .future b => a == b
    | _ => false
  | .done a i, b => match b with
    | .done b j => a == b && i == j
    | _ => false
  | .settled i _, b => match b with
    | .settled j _ => i == j
    | _ => false
  | .broken i _, b => match b with
    | .broken j _ => i == j
    | _ => false
termination_by structural a => a

/-- Two sequences agree position by position. -/
def sameAll : List Value → List Value → Bool
  | [], bs => bs.isEmpty
  | a :: as, bs => match bs with
    | [] => false
    | b :: bs => same a b && sameAll as bs
termination_by structural as => as

/-- Every entry has a counterpart. -/
def sameEntries : List (Value × Value) → List (Value × Value) → Bool
  | [], _ => true
  | e :: es, bs => hasEntry e bs && sameEntries es bs
termination_by structural es => es

/-- One entry has a counterpart. -/
def hasEntry : Value × Value → List (Value × Value) → Bool
  | (k, v), bs => bs.any fun b => same k b.1 && same v b.2
termination_by structural e => e

/-- Descriptors agree in mode, path and arguments. -/
def sameDescriptor : Descriptor → Descriptor → Bool
  | ⟨m, p, a, _⟩, d => m == d.mode && sameAll p d.path && sameAll a d.args
termination_by structural d => d

/-- Expectations agree in effect and outcome, as given. -/
def sameExpectation : Expectation → Expectation → Bool
  | ⟨f, y, r⟩, e => same f e.effect && same y e.yields && r.map (·.id) == e.raises.map (·.id)
termination_by structural e => e

end

/-- Equality of two values. -/
def equal (a b : Value) : Bool :=
  match a with
  | .nan _ => false
  | _ => same a b

/-- The value found under a key. -/
def find? (key : Value) (es : List (Value × Value)) : Option Value :=
  (es.find? fun e => same e.1 key).map (·.2)

/-- Puts a value under a key: a key that is there keeps its place and its own
spelling, a new one goes to the end. -/
def put (key v : Value) : List (Value × Value) → List (Value × Value)
  | [] => [(key, v)]
  | (k, w) :: es => if same k key then (k, v) :: es else (k, w) :: put key v es

end Value

/-- Equality of descriptors. -/
def DescriptorOf.same (d e : Descriptor) : Bool := Value.sameDescriptor d e

end DescribedEffects
