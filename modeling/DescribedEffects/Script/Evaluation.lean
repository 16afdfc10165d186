import DescribedEffects.Expectation
import DescribedEffects.Script.Store
import DescribedEffects.Text.Anonymous
import DescribedEffects.Value.Arithmetic

/-!
# The values of expressions

An expression is evaluated in a store, with the variables of the running body.
The result is a value or an exception, and the store that evaluation leaves
behind.  Operands are evaluated from left to right, and the first failure wins.

A new exception can keep the items of a computation, which has to be stepped to its
end for that.  Stepping is not the evaluator's business: it is given a `Stepper` that
does it.
-/

namespace DescribedEffects
namespace Script

/-- A calculation over the store that may fail with an exception. -/
abbrev Eval (α : Type) := ExceptT Exn (StateM Store) α

namespace Eval

/-- Fails with a new exception. -/
def fail {α : Type} (body : ExnBody Value) : Eval α := do
  let s ← get
  let (e, s) := s.raise body
  set s
  throw e

/-- Fails with the exception for a complaint. -/
def complain {α : Type} : Complaint → Eval α
  | .make body => fail body
  | .pass e => throw e

/-- A result of the value language. -/
def ofFault {α : Type} : Except ValueFault α → Eval α
  | .ok a => pure a
  | .error f => fail f.body

/-- Gives out a number. -/
def fresh : Eval Nat := do
  let s ← get
  let (n, s) := s.fresh
  set s
  pure n

end Eval

/-- Steps a computation to its end and collects what it yields. -/
abbrev Stepper := Nat → Eval (List Value)

/-- Makes an exception. -/
def newException (body : ExnBody Value) : Eval Exn := do
  let s ← get
  let (e, s) := s.raise body
  set s
  pure e

/-- Calls a kind. -/
def instantiate (items : Stepper) (k : ExnKind) (args : List Value)
    (named : List (String × Value)) : Eval Exn := do
  match ← Eval.ofFault (k.draft args named) with
  | .settled body => newException body
  | .keeping (.computation g) body => do newException (body (← items g))
  | .keeping source body => do newException (body (← Eval.ofFault source.items))

/-- The value as an exception: an exception, or a kind, of which one is made.  A kind
that keeps items cannot be called without them. -/
def asException (v : Value) : Eval Exn :=
  match v with
  | .exn e => pure e
  | .kind k => instantiate (fun _ => pure []) k [] []
  | _ => Eval.fail ValueFault.notException.body

/-- A new computation of a definition.  It holds its arguments in a list. -/
def newComputation (name : String) (args : List Value) : Eval Value := do
  let s ← get
  match s.definitions.lookup name with
  | none => Eval.fail (ValueFault.notCallable "str").body
  | some d =>
    let id ← Eval.fresh
    modify fun s =>
      s.stand id (.unstarted (d.activation (.computation id) args (.list args)))
    pure (.computation id)

/-- The value of a variable: of the body, or a global one. -/
def lookupVariable (locals : List (String × Value)) (name : String) : Eval Value := do
  let s ← get
  pure (((locals.lookup name).or (s.globals.lookup name)).getD .null)

/-- A new expectation from the fields that are given. -/
def newExpectation (fields : List (String × Value)) : Eval Value := do
  let signature : Signature :=
    ⟨"Expectation.__init__",
      [⟨"effect", none⟩, ⟨"yields", some .null⟩, ⟨"raises", some .null⟩], 1⟩
  let values ← Eval.ofFault (signature.bindParameters [] fields)
  match ExpectationOf.make (values.getD 0 .null) (values.getD 1 .null) (values.getD 2 .null) with
  | .ok x => pure (.expectation x)
  | .error fault => Eval.complain fault.complaint

/-- The value as an exception that a future can fail with. -/
def asFailure (v : Value) : Eval Exn := do
  if v matches .exn _ | .kind _ then
    let e ← asException v
    if e.isExhausted then Eval.fail ValueFault.exhaustedFuture.body else pure e
  else Eval.fail ValueFault.invalidException.body

/-- The outcome of a future that fails with a value.  A value that it cannot fail with
is refused when it is to fail: at once, or by a timer, and then nobody hears of it and
the future has no outcome. -/
def newFailure (v : Value) (delay : Option Nat) : Eval (Option Outcome) :=
  match delay with
  | none => do pure (some (.error (← asFailure v)))
  | some _ => tryCatch (do pure (some (.error (← asFailure v)))) fun _ => pure none

/-- A new future. -/
def newFuture (v : Value) (failed : Bool) (delay : Option Nat) : Eval Value := do
  if !(← get).knowsLoop then Eval.fail ValueFault.noLoop.body
  else
    let outcome ← if failed then newFailure v delay else pure (some (.ok v))
    let id ← Eval.fresh
    modify fun s => s.request (.future id outcome delay)
    pure (.future id)

mutual

/-- The value of an expression. -/
def eval (items : Stepper) (locals : List (String × Value)) : Expr → Eval Value
  | .lit v => pure v
  | .nan => do pure (.nan (← Eval.fresh))
  | .list es => do pure (.list (← evalAll items locals es))
  | .tuple es => do pure (.tuple (← evalAll items locals es))
  | .record es => do
    let entries ← evalEntries items locals es
    pure (.record (← Eval.ofFault (Value.entriesOf entries)))
  | .view es => do
    let entries ← evalEntries items locals es
    pure (.view (← Eval.ofFault (Value.entriesOf entries)))
  | .faulty e => do pure (.faulty (← asException (← eval items locals e)))
  | .descriptor m path args site => do
    let p ← evalAll items locals path
    let a ← evalAll items locals args
    pure (.descriptor ⟨m, p, a, site⟩)
  | .make maker args => do
    let values ← evalAll items locals args
    match maker.apply (← get).surroundings values with
    | .ok v => pure v
    | .error f => Eval.fail f.body
  | .exception k args named => do
    let values ← evalAll items locals args
    let fields ← evalNamed items locals named
    pure (.exn (← instantiate items k values fields))
  | .expectation fields => do newExpectation (← evalNamed items locals fields)
  | .ok e => do pure (.ok (← eval items locals e))
  | .err e => do pure (.err (← eval items locals e))
  | .computation name args => do newComputation name (← evalAll items locals args)
  | .settled e => do
    let v ← eval items locals e
    pure (.settled (← Eval.fresh) v)
  | .broken e => do
    let x ← asException (← eval items locals e)
    pure (.broken (← Eval.fresh) x)
  | .future e failed delay => do newFuture (← eval items locals e) failed delay
  | .variable name => lookupVariable locals name
  | .sum a b => do
    let x ← eval items locals a
    let y ← eval items locals b
    Eval.ofFault (Value.sum (← Eval.fresh) x y)
  | .product a b => do
    let x ← eval items locals a
    let y ← eval items locals b
    Eval.ofFault (Value.product (← Eval.fresh) x y)
  | .equal a b => do
    let x ← eval items locals a
    let y ← eval items locals b
    pure (.truth (x.equal y))
  | .less a b => do
    let x ← eval items locals a
    let y ← eval items locals b
    pure (.truth (← Eval.ofFault (x.less y)))
  | .item v key => do
    let x ← eval items locals v
    let k ← eval items locals key
    match x.access k with
    | .ok w => pure w
    | .error (.fault f) => Eval.fail f.body
    | .error (.raised e) => throw e
  | .size v => do pure (.int (← Eval.ofFault (← eval items locals v).size))
  | .negation v => do pure (.truth !(← eval items locals v).isTrue)
  | .field v name => do Eval.ofFault ((← eval items locals v).field name)
  | .isInstance v k => do
    match ← eval items locals v with
    | .exn e => pure (.truth (e.kind.isA k))
    | _ => pure (.truth false)
  | .text v => do
    let said ← Eval.ofFault (← eval items locals v).embed
    pure (.text (Text.anonymous said))
  | .display v => do
    let shown := (← eval items locals v).display
    pure (.text (Text.anonymous shown))
termination_by structural e => e

/-- The values of expressions, from the left. -/
def evalAll (items : Stepper) (locals : List (String × Value)) : List Expr → Eval (List Value)
  | [] => pure []
  | e :: es => do
    let v ← eval items locals e
    let vs ← evalAll items locals es
    pure (v :: vs)
termination_by structural es => es

/-- The values of entries: each key before its value. -/
def evalEntries (items : Stepper) (locals : List (String × Value)) :
    List (Expr × Expr) → Eval (List (Value × Value))
  | [] => pure []
  | e :: es => do
    let v ← evalEntry items locals e
    let vs ← evalEntries items locals es
    pure (v :: vs)
termination_by structural es => es

/-- The value of an entry. -/
def evalEntry (items : Stepper) (locals : List (String × Value)) :
    Expr × Expr → Eval (Value × Value)
  | (k, v) => do
    let key ← eval items locals k
    let value ← eval items locals v
    pure (key, value)
termination_by structural e => e

/-- The values of named expressions. -/
def evalNamed (items : Stepper) (locals : List (String × Value)) :
    List (String × Expr) → Eval (List (String × Value))
  | [] => pure []
  | e :: es => do
    let v ← evalField items locals e
    let vs ← evalNamed items locals es
    pure (v :: vs)
termination_by structural es => es

/-- The value of a named expression. -/
def evalField (items : Stepper) (locals : List (String × Value)) :
    String × Expr → Eval (String × Value)
  | (name, e) => do
    let v ← eval items locals e
    pure (name, v)
termination_by structural e => e

end

/-- Evaluates an expression. -/
def evaluate (items : Stepper) (locals : List (String × Value)) (e : Expr) (s : Store) :
    Except Exn Value × Store :=
  (eval items locals e).run s

/-- Evaluates expressions, from the left. -/
def evaluateAll (items : Stepper) (locals : List (String × Value)) (es : List Expr)
    (s : Store) : Except Exn (List Value) × Store :=
  (evalAll items locals es).run s

end Script
end DescribedEffects
