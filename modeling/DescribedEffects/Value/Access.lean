import DescribedEffects.Value.Equality
import DescribedEffects.Value.Fault

/-!
# Looking into values

Length, items, keys, positions and attributes, each with the fault it fails for.
Looking a key up in a mapping can also fail with an exception of the mapping's
own (`Value.faulty`), so those operations answer with a `Refusal`.

A key must be a value whose equality never changes.  `Value.unhashable?` names
the type that spoils it: a list, a mapping, or anything that contains one.
-/

namespace DescribedEffects

/-- Why an access failed: for a reason of the language of values, or because the
mapping itself raised. -/
inductive Refusal where
  | fault (f : ValueFault)
  | raised (e : Exn)

namespace Value

mutual

/-- The type that keeps a value from being a key, if any. -/
def unhashable? : Value → Option String
  | .list _ => some "list"
  | .record _ => some "dict"
  | .view _ => some "mappingproxy"
  | .faulty _ => some "FaultMapping"
  | .tuple xs => unhashableAmong? xs
  | .descriptor d => unhashableDescriptor? d
  | .expectation e => unhashableExpectation? e
  | .ok v => unhashable? v
  | .err v => unhashable? v
  | _ => none
termination_by structural v => v

/-- The first type among several values that keeps them from being keys. -/
def unhashableAmong? : List Value → Option String
  | [] => none
  | v :: vs => (unhashable? v).or (unhashableAmong? vs)
termination_by structural vs => vs

/-- A descriptor is a key if its path and arguments are. -/
def unhashableDescriptor? : Descriptor → Option String
  | ⟨_, p, a, _⟩ => (unhashableAmong? p).or (unhashableAmong? a)
termination_by structural d => d

/-- An expectation is a key if its effect and outcome are. -/
def unhashableExpectation? : Expectation → Option String
  | ⟨f, y, _⟩ => (unhashable? f).or (unhashable? y)
termination_by structural e => e

end

/-- A value that is to be used as a key. -/
def asKey (v : Value) : Except ValueFault Value :=
  match v.unhashable? with
  | some t => .error (.unhashable t)
  | none => .ok v

/-- A mapping from entries given in order; a later equal key overwrites the value
and keeps the place. -/
def entriesOf : List (Value × Value) → Except ValueFault (List (Value × Value))
  | es => es.foldlM (fun acc e => do pure (put (← asKey e.1) e.2 acc)) []

/-- The items that iterating over a value yields.  Computations are stepped, not
read off, so they have none here. -/
def items : Value → Except ValueFault (List Value)
  | .list xs | .tuple xs => .ok xs
  | .text s => .ok (s.toList.map fun c => .text (String.singleton c))
  | .bytes bs => .ok (bs.map fun b => .int b.toNat)
  | .record es | .view es => .ok (es.map (·.1))
  | .faulty _ => .ok []
  | v => .error (.notIterable v.typeName)

/-- The number of items. -/
def size : Value → Except ValueFault Nat
  | .list xs | .tuple xs => .ok xs.length
  | .text s => .ok s.length
  | .bytes bs => .ok bs.length
  | .record es | .view es => .ok es.length
  | .faulty _ => .ok 0
  | v => .error (.notSized v.typeName)

/-- The item of a sequence at a position; negative positions count from the end. -/
def atPosition (owner : String) (xs : List Value) (position : Value) : Except ValueFault Value :=
  match position.integer? with
  | none => .error (.badPosition owner position.typeName)
  | some n =>
    let i := if n < 0 then n + xs.length else n
    if !isMachineInteger n then .error (.beyondPositions .index)
    else if i < 0 then .error (.outOfRange owner)
    else
      match xs[i.toNat]? with
      | some v => .ok v
      | none => .error (.outOfRange owner)

/-- The value a mapping holds under a key. -/
def atKey (key : Value) : Value → Except Refusal Value
  | .faulty e => .error (.raised e)
  | v =>
    match key.unhashable? with
    | some t => .error (.fault (.unhashable t))
    | none =>
      match find? key v.entries with
      | some w => .ok w
      | none => .error (.fault (.missingKey key))

/-- What stands between brackets: a position in a sequence or a key of a mapping. -/
def access (v key : Value) : Except Refusal Value :=
  match v with
  | .record _ | .view _ | .faulty _ => atKey key v
  | .list xs => (atPosition "list" xs key).mapError .fault
  | .tuple xs => (atPosition "tuple" xs key).mapError .fault
  | .text _ | .bytes _ =>
    ((items v).bind fun xs => atPosition v.typeName xs key).mapError .fault
  | v => .error (.fault (.notSubscriptable v.typeName))

/-- The arguments an exception was made with, as it reports them. -/
def arguments : ExnBody Value → List Value
  | .plain k args => k.shown args args
  | .malformed d _ said =>
    [.text ("Malformed effect descriptor " ++ d.display ++ ": " ++ said)]
  | .notFound p _ s _ => [p, s]
  | .execution f c => [f, c]
  | .unexpected a e i => [a, e, i]
  | .unused rs => [.tuple rs]

/-- The named fields of an exception, by what it says. -/
def exnField? (name : String) : ExnBody Value → Option Value
  | .malformed d r _ =>
    if name = "descriptor" then some d else if name = "reason" then some r else none
  | .notFound _ segments s r =>
    if name = "path" then some (.tuple segments)
    else if name = "segment" then some s
    else if name = "reason" then some r
    else none
  | .execution f c =>
    if name = "effect" then some f else if name = "cause" then some c else none
  | .unexpected a e i =>
    if name = "actual" then some a
    else if name = "expected" then some e
    else if name = "index" then some i
    else none
  | .unused rs => if name = "remaining" then some (.tuple rs) else none
  | .plain k args =>
    if name = "value" ∧ k.isA .exhausted then some (args.headD .null) else none

/-- An attribute of a value. -/
def field (name : String) (v : Value) : Except ValueFault Value :=
  let found :=
    match v with
    | .exn e => (exnField? name e.body).or
        (if name = "args" then some (.tuple (arguments e.body)) else none)
    | .descriptor d =>
      if name = "mode" then some (.mode d.mode)
      else if name = "path" then some (.tuple d.path)
      else if name = "args" then some (.tuple d.args)
      else if name = "created_at" then some ((d.createdAt.map Value.text).getD .null)
      else if name = "members" then
        some (.tuple (if d.mode = .parallel then d.args else []))
      else none
    | .expectation e =>
      if name = "effect" then some e.effect
      else if name = "yields" then some e.yields
      else if name = "raises" then some ((e.raises.map Value.exn).getD .null)
      else none
    | .ok w => if name = "value" then some w else none
    | .err w => if name = "error" then some w else none
    | .mode m => if name = "name" then some (.text m.label) else none
    | _ => none
  match found with
  | some w => .ok w
  | none => .error (.noAttribute v name)

end Value
end DescribedEffects
