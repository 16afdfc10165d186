import DescribedEffects.Value.Access

/-!
# Making an exception of a kind

A kind can be called.  The kinds without fields take any arguments by position
and none by name, except that a missing attribute can be told its name and owner,
which it does not say.  The library's own kinds have parameters, and the call is
matched against them: an argument by name that is no parameter, or one given
twice, is refused first, then too many arguments by position, then missing ones.

`bindParameters` does the matching for any list of parameters; the factories of
descriptors share it.

## Drafts

Two of the kinds keep the items of one of their arguments, and that argument can be
a computation, whose items come out only when somebody steps it.  So a call makes a
`Draft`: what the exception says, or what it will say of the items of a value.
-/

namespace DescribedEffects

/-- A parameter of a callable, with its default if it has one. -/
structure Parameter where
  name : String
  default? : Option Value := none

/-- The parameters of a callable, as messages count them: a bound callable counts
the value it is bound to. -/
structure Signature where
  callee : String
  parameters : List Parameter
  bound : Nat := 0

namespace Signature

/-- A count and its noun. -/
def counted (n : Nat) (noun : String) : String :=
  toString n ++ " " ++ noun ++ (if n = 1 then "" else "s")

/-- Quoted names, the last two joined by "and". -/
def listNames : List String → String
  | [] => ""
  | [a] => "'" ++ a ++ "'"
  | [a, b] => "'" ++ a ++ "' and '" ++ b ++ "'"
  | names =>
    ", ".intercalate (names.dropLast.map fun n => "'" ++ n ++ "'") ++ ", and '" ++
      names.getLastD "" ++ "'"

/-- The wording when too many arguments are given. -/
def surplusMessage (s : Signature) (given : Nat) : String :=
  let most := s.parameters.length + s.bound
  let least := (s.parameters.filter (·.default?.isNone)).length + s.bound
  let takes :=
    if least = most then counted most "positional argument"
    else "from " ++ toString least ++ " to " ++ counted most "positional argument"
  s.callee ++ "() takes " ++ takes ++ " but " ++ toString (given + s.bound) ++
    (if given + s.bound = 1 then " was given" else " were given")

/-- The wording when arguments are missing. -/
def missingMessage (s : Signature) (names : List String) : String :=
  s.callee ++ "() missing " ++ counted names.length "required positional argument" ++ ": " ++
    listNames names

/-- The first named argument that cannot be taken, with the wording. -/
def badName? (s : Signature) (given : Nat) : List (String × Value) → Option String
  | [] => none
  | (n, _) :: rest =>
    if !(s.parameters.any (·.name == n)) then
      some (s.callee ++ "() got an unexpected keyword argument '" ++ n ++ "'")
    else if (s.parameters.take given).any (·.name == n) then
      some (s.callee ++ "() got multiple values for argument '" ++ n ++ "'")
    else badName? s given rest

/-- The value of a parameter: by position, by name, or its default. -/
def valueOf (args : List Value) (named : List (String × Value)) (i : Nat) (p : Parameter) :
    Option Value :=
  (args[i]?).or (((named.find? fun n => n.1 == p.name).map (·.2)).or p.default?)

/-- The values of the parameters, in order. -/
def bindParameters (s : Signature) (args : List Value) (named : List (String × Value)) :
    Except ValueFault (List Value) :=
  match badName? s args.length named with
  | some message => .error (.callShape message)
  | none =>
    if s.parameters.length < args.length then .error (.callShape (s.surplusMessage args.length))
    else
      let values := s.parameters.mapIdx (valueOf args named)
      let absent := (s.parameters.zip values).filter (·.2.isNone) |>.map (·.1.name)
      if absent.isEmpty then .ok (values.filterMap id)
      else .error (.callShape (s.missingMessage absent))

end Signature

namespace ExnKind

/-- The parameters of the kinds that have fields. -/
def parameters? : ExnKind → Option (List Parameter)
  | .malformed => some [⟨"descriptor", none⟩, ⟨"reason", none⟩]
  | .notFound => some [⟨"path", none⟩, ⟨"segment", none⟩, ⟨"reason", some (.text "missing")⟩]
  | .execution => some [⟨"effect", none⟩, ⟨"cause", none⟩]
  | .unexpected => some [⟨"actual", none⟩, ⟨"expected", none⟩, ⟨"index", none⟩]
  | .unused => some [⟨"remaining", none⟩]
  | _ => none

end ExnKind

/-- An exception in the making. -/
inductive Draft where
  /-- What it says is settled. -/
  | settled (body : ExnBody Value)
  /-- It keeps the items of a value. -/
  | keeping (source : Value) (body : List Value → ExnBody Value)

namespace ExnKind

/-- The exception of a kind with fields, from the values of its parameters. -/
def withFields (k : ExnKind) (values : List Value) : Except ValueFault Draft :=
  match k, values with
  | .malformed, [d, r] => (r.embed).map fun said => .settled (.malformed d r said)
  | .notFound, [p, s, r] => .ok (.keeping p fun segments => .notFound p segments s r)
  | .execution, [f, c] => .ok (.settled (.execution f c))
  | .unexpected, [a, e, i] => .ok (.settled (.unexpected a e i))
  | .unused, [rs] => .ok (.keeping rs .unused)
  | k, values => .ok (.settled (.plain k values))

/-- What the kinds without fields take by name. -/
def takesNamed : ExnKind → List String
  | .attribute => ["name", "obj"]
  | _ => []

/-- The wording when a kind without fields cannot take arguments by name. -/
def refusedNames? (k : ExnKind) (names : List String) : Option String :=
  let taken := k.takesNamed
  if names.isEmpty then none
  else if taken.isEmpty then some (k.label ++ "() takes no keyword arguments")
  else if taken.length < names.length then
    some (k.label ++ "() takes at most " ++ toString taken.length ++ " keyword arguments (" ++
      toString names.length ++ " given)")
  else
    (names.find? fun n => !taken.contains n).map fun n =>
      "'" ++ n ++ "' is an invalid keyword argument for " ++ k.label ++ "()"

/-- The kind of an instance: a failure of the operating system with a number that stands
for a condition is an instance of the condition. -/
def refine (k : ExnKind) (args : List Value) : ExnKind :=
  match k, args with
  | .system, v :: _ =>
    if k.isNumbered args then
      match v.integer?.bind SystemCondition.ofNumber? with
      | some c => .condition c
      | none => k
    else k
  | k, _ => k

/-- Calls a kind. -/
def draft (k : ExnKind) (args : List Value) (named : List (String × Value)) :
    Except ValueFault Draft :=
  match k.parameters? with
  | some ps => do
    let values ← Signature.bindParameters ⟨k.label ++ ".__init__", ps, 1⟩ args named
    k.withFields values
  | none =>
    match k.refusedNames? (named.map (·.1)) with
    | some message => .error (.callShape message)
    | none => .ok (.settled (.plain (k.refine args) args))

end ExnKind
end DescribedEffects
