import DescribedEffects.Text.Quoted
import DescribedEffects.Value.Basic

/-!
# The text of a value

Two texts belong to every value.  `Value.display` shows the value so that it can
be told apart from any other: strings are quoted, structures are spelled out.  It
depends on nothing but the value and always exists.  `Value.toText` is what a
message embeds: a string as it is, an exception as what it says, a read-only
mapping like any other, everything else as it is displayed.

What runs is told apart by an address, which is no part of what a reader should see;
`Text.anonymous` takes addresses out of a text.

What an exception says can fail to exist in exactly one way: a missing path is
said with its segments joined by dots, and a path put together by hand may hold
segments that are no strings.  `NotText` names the first such segment.

The library's own exceptions say fixed sentences about the values they carry;
those sentences are in this module and nowhere else.

A failure of the operating system that is made with a number and a reason says both,
and then the file it is about, or the two files.  The files are no part of what it
shows.
-/

namespace DescribedEffects

/-- The first segment of a path that is not a string. -/
structure NotText where
  index : Nat
  found : String
  deriving DecidableEq

/-- Joins strings with dots. -/
def joinSegments (segments : List Value) : Except NotText String :=
  go 0 segments |>.map ".".intercalate
where
  /-- The strings, counted from `i`. -/
  go (i : Nat) : List Value → Except NotText (List String)
    | [] => .ok []
    | .text s :: rest => (go (i + 1) rest).map (s :: ·)
    | v :: _ => .error ⟨i, v.typeName⟩

/-- The exception is made with a number, a reason, and perhaps files. -/
def ExnKind.isNumbered (k : ExnKind) (args : List Value) : Bool :=
  k.isA .system && decide (2 ≤ args.length ∧ args.length ≤ 5)

/-- What is shown of as many things as an exception has arguments. -/
def ExnKind.shown {α : Type} (k : ExnKind) (args : List Value) (things : List α) : List α :=
  if k.isNumbered args && !(args[2]?.getD .null matches .null) then things.take 2 else things

namespace Value

/-- Items between brackets. -/
def bracketed (items : List String) : String := "[" ++ ", ".intercalate items ++ "]"

/-- Items between parentheses; a single one keeps its comma. -/
def parenthesised : List String → String
  | [item] => "(" ++ item ++ ",)"
  | items => "(" ++ ", ".intercalate items ++ ")"

/-- Entries between braces. -/
def braced (entries : List String) : String := "\x7b" ++ ", ".intercalate entries ++ "\x7d"

/-- Something that runs, told from others by an address. -/
def addressed (noun : String) (id : Nat) : String :=
  "<" ++ noun ++ " object body at 0x" ++ String.ofList (Nat.toDigits 16 id) ++ ">"

mutual

/-- A value, shown so that it can be told apart. -/
def display : Value → String
  | .null => "None"
  | .truth b => if b then "True" else "False"
  | .int n => toString n
  | .real x => x.render
  | .nan _ => "nan"
  | .text s => Text.quoted s
  | .bytes bs => Text.quotedBytes bs
  | .list xs => bracketed (displayAll xs)
  | .tuple xs => parenthesised (displayAll xs)
  | .record es => braced (displayEntries es)
  | .view es => "mappingproxy(" ++ braced (displayEntries es) ++ ")"
  | .faulty _ => "<fault>"
  | .mode m => m.label
  | .descriptor d => displayDescriptor d
  | .expectation e => displayExpectation e
  | .ok v => "Ok(value=" ++ display v ++ ")"
  | .err v => "Err(error=" ++ display v ++ ")"
  | .exn e => displayExn e
  | .kind k => k.display
  | .function name => "<fn " ++ name ++ ">"
  | .computation id => addressed "generator" id
  | .coroutine id => addressed "coroutine" id
  | .future _ => "<Future>"
  | .done .. => "<function>"
  | .settled .. | .broken .. => "<awaitable>"
termination_by structural v => v

/-- Values, shown one by one. -/
def displayAll : List Value → List String
  | [] => []
  | v :: vs => display v :: displayAll vs
termination_by structural vs => vs

/-- Entries, shown one by one. -/
def displayEntries : List (Value × Value) → List String
  | [] => []
  | e :: es => displayEntry e :: displayEntries es
termination_by structural es => es

/-- One entry. -/
def displayEntry : Value × Value → String
  | (k, v) => display k ++ ": " ++ display v
termination_by structural e => e

/-- A descriptor; where it was created is not shown. -/
def displayDescriptor : Descriptor → String
  | ⟨m, p, a, _⟩ =>
    "EffectDescriptor(mode=" ++ m.label ++ ", path=" ++ parenthesised (displayAll p) ++
      ", args=" ++ parenthesised (displayAll a) ++ ")"
termination_by structural d => d

/-- An expectation. -/
def displayExpectation : Expectation → String
  | ⟨f, y, r⟩ =>
    "Expectation(effect=" ++ display f ++ ", yields=" ++ display y ++
      ", raises=" ++ displayRaises r ++ ")"
termination_by structural e => e

/-- The failure an expectation feeds back, if any. -/
def displayRaises : Option Exn → String
  | none => "None"
  | some e => displayExn e
termination_by structural r => r

/-- An exception: its kind and its arguments. -/
def displayExn : Exn → String
  | ⟨_, b⟩ => displayBody b
termination_by structural e => e

/-- The kind and the arguments of an exception. -/
def displayBody : ExnBody Value → String
  | .plain k args =>
    k.label ++ "(" ++ ", ".intercalate (k.shown args (displayAll args)) ++ ")"
  | .malformed d _ said =>
    ExnKind.malformed.label ++ "(" ++
      Text.quoted ("Malformed effect descriptor " ++ display d ++ ": " ++ said) ++ ")"
  | .notFound p _ s _ =>
    ExnKind.notFound.label ++ "(" ++ display p ++ ", " ++ display s ++ ")"
  | .execution f c => ExnKind.execution.label ++ "(" ++ display f ++ ", " ++ display c ++ ")"
  | .unexpected a e i =>
    ExnKind.unexpected.label ++ "(" ++ display a ++ ", " ++ display e ++ ", " ++ display i ++ ")"
  | .unused rs => ExnKind.unused.label ++ "(" ++ parenthesised (displayAll rs) ++ ")"
termination_by structural b => b

end

/-- The files that a failure of the operating system is about.  Between the two of them
stands an argument that nobody asks for. -/
def filesNamed (files : List Value) (shown : List String) : String :=
  match files, shown with
  | .null :: _, _ => ""
  | [_, _, .null], file :: _ => ": " ++ file
  | [_, _, _], [file, _, other] => ": " ++ file ++ " -> " ++ other
  | _, file :: _ => ": " ++ file
  | _, [] => ""

mutual

/-- A value, as a message embeds it. -/
def toText : Value → Except NotText String
  | .text s => .ok s
  | .mode m => .ok ("Mode." ++ m.label)
  | .view es => .ok (braced (displayEntries es))
  | .exn e => sayExn e
  | v => .ok (display v)
termination_by structural v => v

/-- What an exception says. -/
def sayExn : Exn → Except NotText String
  | ⟨_, b⟩ => sayBody b
termination_by structural e => e

/-- What an exception with a given body says. -/
def sayBody : ExnBody Value → Except NotText String
  | .plain k args => sayPlain k args
  | .malformed d _ said => .ok ("Malformed effect descriptor " ++ display d ++ ": " ++ said)
  | .notFound _ segments s r => do
    let dotted ← joinSegments segments
    let reason ← toText r
    pure ("Context path not found: " ++ Text.quoted dotted ++ " (segment " ++ display s ++
      " is " ++ reason ++ ")\nHint: Provide " ++ display s ++
      " in the context passed to run()")
  | .execution f c => .ok ("Effect " ++ display f ++ " failed\nCaused by: " ++ display c)
  | .unexpected a e i => do
    let index ← toText i
    match e with
    | .null =>
      pure ("Unexpected effect #" ++ index ++ ": " ++ display a ++ " (no expectations left)")
    | e =>
      pure ("Unexpected effect #" ++ index ++ ":\n  expected: " ++ display e ++
        "\n  actual:   " ++ display a)
  | .unused rs =>
    .ok ("Computation completed with " ++ toString rs.length ++ " unused expectation(s):\n" ++
      "\n".intercalate ((displayAll rs).map ("  - " ++ ·)))
termination_by structural b => b

/-- What an exception without fields says: nothing, its only argument, or all of
them.  A missing key is shown rather than embedded. -/
def sayPlain (k : ExnKind) : List Value → Except NotText String
  | [] => .ok ""
  | [v] => if k = .key then .ok (display v) else toText v
  | v :: w :: vs =>
    if k.isNumbered (v :: w :: vs) then do
      let number ← toText v
      let reason ← toText w
      pure ("[Errno " ++ number ++ "] " ++ reason ++ filesNamed vs (displayAll vs))
    else .ok (parenthesised (display v :: display w :: displayAll vs))
termination_by structural args => args

end

end Value

/-- A descriptor, shown. -/
def DescriptorOf.display (d : Descriptor) : String := Value.displayDescriptor d

/-- An exception, shown. -/
def ExnOf.display (e : Exn) : String := Value.displayExn e

/-- What an exception says. -/
def ExnOf.say (e : Exn) : Except NotText String := Value.sayExn e

end DescribedEffects
