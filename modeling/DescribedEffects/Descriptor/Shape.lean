import DescribedEffects.Descriptor.Parse
import DescribedEffects.Value.Fault

/-!
# Valid descriptors, their shape and their written form

A descriptor is *well formed* when it is something to perform: a call or a
callback with a non-empty path of non-empty strings, or a group all of whose
members are well formed.

The *shape* of a descriptor is what remains when call arguments are forgotten:
its mode and path, and for a group the shapes of its members.  The *wire form* is
the list that it is written as.  Both walk down the members of a group, so both
fail on a descriptor put together by hand whose members are no descriptors; on a
well-formed one neither does.

`skeleton?` says in a data type of its own what a shape compares: two well-formed
descriptors have equal shapes exactly when they have the same skeleton.
`canonical` is the spelling that the wire form writes.
-/

namespace DescribedEffects

/-- A descriptor that can be performed. -/
inductive WellFormed : Descriptor → Prop
  | call {d : Descriptor} (single : d.mode ≠ .parallel) (nonempty : d.path ≠ [])
      (segments : ∀ s ∈ d.path, s.isSegment = true) : WellFormed d
  | group {d : Descriptor} {members : List Descriptor} (mode : d.mode = .parallel)
      (path : d.path = []) (args : d.args = members.map .descriptor)
      (each : ∀ m ∈ members, WellFormed m) : WellFormed d

/-- What is left of a descriptor when arguments are forgotten. -/
inductive Skeleton where
  | call (mode : Mode) (path : List Value)
  | group (members : List Skeleton)

mutual

/-- The shape of a descriptor. -/
def shapeOf : Descriptor → Except ValueFault Descriptor
  | ⟨m, p, args, site⟩ =>
    if m = .parallel then (shapesOf args).map fun ms => ⟨m, p, ms, site⟩
    else .ok ⟨m, p, [], site⟩
termination_by structural d => d

/-- The shapes of the members of a group, from the left. -/
def shapesOf : List Value → Except ValueFault (List Value)
  | [] => .ok []
  | v :: vs => do
    let s ← shapeOfMember v
    let ss ← shapesOf vs
    pure (s :: ss)
termination_by structural vs => vs

/-- The shape of one member. -/
def shapeOfMember : Value → Except ValueFault Value
  | .descriptor d => (shapeOf d).map .descriptor
  | v => .error (.noAttribute v "shape")
termination_by structural v => v

end

mutual

/-- The list a descriptor is written as. -/
def wireOf : Descriptor → Except ValueFault Value
  | ⟨m, p, args, _⟩ =>
    match m with
    | .parallel => (wiresOf args).map fun ms => .list (.mode .parallel :: ms)
    | .direct => .ok (.list (.list p :: args))
    | .callback => .ok (.list (.mode .callback :: .list p :: args))
termination_by structural d => d

/-- The lists the members of a group are written as. -/
def wiresOf : List Value → Except ValueFault (List Value)
  | [] => .ok []
  | v :: vs => do
    let w ← wireOfMember v
    let ws ← wiresOf vs
    pure (w :: ws)
termination_by structural vs => vs

/-- The list one member is written as. -/
def wireOfMember : Value → Except ValueFault Value
  | .descriptor d => wireOf d
  | v => .error (.noAttribute v "to_wire")
termination_by structural v => v

end

mutual

/-- The skeleton of a descriptor, if every member of every group is one. -/
def skeletonOf? : Descriptor → Option Skeleton
  | ⟨m, p, args, _⟩ =>
    if m = .parallel then (skeletonsOf? args).map .group else some (.call m p)
termination_by structural d => d

/-- The skeletons of the members of a group. -/
def skeletonsOf? : List Value → Option (List Skeleton)
  | [] => some []
  | v :: vs => do
    let s ← skeletonOfMember? v
    let ss ← skeletonsOf? vs
    pure (s :: ss)
termination_by structural vs => vs

/-- The skeleton of one member. -/
def skeletonOfMember? : Value → Option Skeleton
  | .descriptor d => skeletonOf? d
  | _ => none
termination_by structural v => v

end

/-- The canonical spelling of a written path. -/
def canonicalPath : Value → Value
  | .text s => .list [.text s]
  | .tuple vs => .list vs
  | v => v

mutual

/-- The canonical spelling of a written descriptor: every descriptor a list, every
path a list of strings, and no mark on a direct call. -/
def canonical : Value → Value
  | .list items => .list (canonicalItems items)
  | .tuple items => .list (canonicalItems items)
  | v => v
termination_by structural v => v

/-- The canonical items of a written descriptor. -/
def canonicalItems : List Value → List Value
  | .mode .parallel :: members => .mode .parallel :: canonicalMembers members
  | .mode .direct :: path :: args => canonicalPath path :: args
  | .mode .callback :: path :: args => .mode .callback :: canonicalPath path :: args
  | path :: args => canonicalPath path :: args
  | [] => []
termination_by structural items => items

/-- The canonical spellings of the members of a written group. -/
def canonicalMembers : List Value → List Value
  | [] => []
  | v :: vs => canonical v :: canonicalMembers vs
termination_by structural vs => vs

end

namespace DescriptorOf

/-- The members of a group; a single effect has none. -/
def members (d : Descriptor) : List Value := if d.mode = .parallel then d.args else []

/-- The descriptor without call arguments. -/
def shape (d : Descriptor) : Except ValueFault Descriptor := shapeOf d

/-- The list the descriptor is written as. -/
def toWire (d : Descriptor) : Except ValueFault Value := wireOf d

/-- The mode-and-path tree of the descriptor. -/
def skeleton? (d : Descriptor) : Option Skeleton := skeletonOf? d

/-- The descriptor with another creation site. -/
def createdBy (d : Descriptor) (site : Option String) : Descriptor := { d with createdAt := site }

end DescriptorOf
end DescribedEffects
