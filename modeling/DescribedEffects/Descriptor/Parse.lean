import DescribedEffects.Descriptor.Malformed

/-!
# Reading a descriptor

A descriptor is written as a list or a tuple

    [mode?, path, argument, ...]

with an optional mode in front of a path, which is a non-empty string or a
non-empty sequence of them.  A parallel group is written as its mode followed by
any number of descriptors.  A value that is a descriptor already is its own
reading.

`Descriptor.parse` reads a value or says what is wrong and with which part of it:
inside a group the blame goes to the leftmost member that cannot be read, and a
bad path is blamed on the whole descriptor that holds it.

## The grammar

`Descriptor.Reads raw d` is the same thing said as a grammar, without an order of
evaluation: which values are spellings of which descriptors.
-/

namespace DescribedEffects

/-- A segment of a path: a non-empty string. -/
def Value.isSegment : Value → Bool
  | .text s => s != ""
  | _ => false

/-- The first position that holds no segment, counted from `i`. -/
def firstBadSegment? (i : Nat) : List Value → Option (Nat × Value)
  | [] => none
  | v :: vs => if v.isSegment then firstBadSegment? (i + 1) vs else some (i, v)

/-- A sequence of segments as a path. -/
def segmentsOf (vs : List Value) : Except PathFault (List Value) :=
  if vs.isEmpty then .error .empty
  else
    match firstBadSegment? 0 vs with
    | some (i, v) => .error (.segment i v)
    | none => .ok vs

/-- A value as a path: a string is a path of one segment. -/
def pathOf : Value → Except PathFault (List Value)
  | .text s => if s = "" then .error .empty else .ok [.text s]
  | .list vs => segmentsOf vs
  | .tuple vs => segmentsOf vs
  | v => .error (.notSequence v.typeName)

/-- Reads a value as a path.  The blame goes to the descriptor around it, if one
is given. -/
def normalizePath (v : Value) (around : Option Value := none) : Except Malformed (List Value) :=
  (pathOf v).mapError fun f => ⟨around.getD v, .path f⟩

/-- A mode, a path and arguments, written one after another. -/
def readCall (raw : Value) (mode : Mode) : List Value → Except Malformed Descriptor
  | [] => .error ⟨raw, .noPath⟩
  | path :: args => (normalizePath path raw).map fun p => ⟨mode, p, args, none⟩

mutual

/-- Reads a value as a descriptor. -/
def parseValue : Value → Except Malformed Descriptor
  | .descriptor d => .ok d
  | .list items => parseItems (.list items) items
  | .tuple items => parseItems (.tuple items) items
  | raw => .error ⟨raw, .notList⟩
termination_by structural raw => raw

/-- Reads the items of a list or tuple as a descriptor. -/
def parseItems (raw : Value) : List Value → Except Malformed Descriptor
  | [] => .error ⟨raw, .empty⟩
  | .mode .parallel :: members => (parseMembers members).map fun ms => ⟨.parallel, [], ms, none⟩
  | .mode m :: rest => readCall raw m rest
  | items => readCall raw .direct items
termination_by structural items => items

/-- Reads every member of a group, from the left. -/
def parseMembers : List Value → Except Malformed (List Value)
  | [] => .ok []
  | v :: vs => do
    let d ← parseValue v
    let ds ← parseMembers vs
    pure (.descriptor d :: ds)
termination_by structural vs => vs

end

namespace DescriptorOf

/-- Reads a value as a descriptor. -/
def parse (raw : Value) : Except Malformed Descriptor := parseValue raw

end DescriptorOf

/-- Reads a value as a descriptor. -/
abbrev Descriptor.parse (raw : Value) : Except Malformed Descriptor := DescriptorOf.parse raw

/-- A value spells a path. -/
inductive SpellsPath : Value → List Value → Prop
  | name (s : String) (nonempty : s ≠ "") : SpellsPath (.text s) [.text s]
  | list (vs : List Value) (nonempty : vs ≠ []) (segments : ∀ v ∈ vs, v.isSegment = true) :
      SpellsPath (.list vs) vs
  | tuple (vs : List Value) (nonempty : vs ≠ []) (segments : ∀ v ∈ vs, v.isSegment = true) :
      SpellsPath (.tuple vs) vs

/-- A value is a list or a tuple of the given items. -/
inductive IsSequenceOf : Value → List Value → Prop
  | list (vs : List Value) : IsSequenceOf (.list vs) vs
  | tuple (vs : List Value) : IsSequenceOf (.tuple vs) vs

mutual

/-- The grammar of descriptors: the value is a spelling of the descriptor. -/
inductive Reads : Value → Descriptor → Prop
  | already (d : Descriptor) : Reads (.descriptor d) d
  | group {raw : Value} {members ds : List Value}
      (sequence : IsSequenceOf raw (.mode .parallel :: members))
      (each : ReadsEach members ds) : Reads raw ⟨.parallel, [], ds, none⟩
  | plain {raw path : Value} {args p : List Value}
      (sequence : IsSequenceOf raw (path :: args)) (spells : SpellsPath path p) :
      Reads raw ⟨.direct, p, args, none⟩
  | marked {raw path : Value} {m : Mode} {args p : List Value} (single : m ≠ .parallel)
      (sequence : IsSequenceOf raw (.mode m :: path :: args)) (spells : SpellsPath path p) :
      Reads raw ⟨m, p, args, none⟩

/-- Values are spellings of descriptors, one by one. -/
inductive ReadsEach : List Value → List Value → Prop
  | nil : ReadsEach [] []
  | cons {raw : Value} {d : Descriptor} {raws ds : List Value} (reads : Reads raw d)
      (rest : ReadsEach raws ds) : ReadsEach (raw :: raws) (.descriptor d :: ds)

end

example : (Descriptor.parse (.list [.list [.text "db", .text "get"], .int 7])).toOption.map
    (fun d => (d.path.length, d.args.length)) = some (2, 1) := by decide

end DescribedEffects
