import DescribedEffects.Descriptor.CreationSite
import DescribedEffects.Descriptor.Shape
import DescribedEffects.Value.Instance

/-!
# Building descriptors

The factories build the same descriptors that the written form is read as: a read
and a call are direct, a callback is a call in callback mode, and a group reads
its members.  While effects are being debugged each factory attaches the place it
was called from; that changes nothing but the creation site.

`Maker` names the factories, and two related operations, as a program calls them:
by position, with the arguments matched against the parameters.
-/

namespace DescribedEffects

/-- What a factory knows of the place it is called from. -/
structure Surroundings where
  /-- Creation sites are recorded. -/
  debugging : Bool := false
  /-- The call stack of the factory's caller, innermost frame first. -/
  callers : List CallFrame := []

/-- The operations a program can build descriptors with. -/
inductive Maker where
  | get
  | call
  | callback
  | parallel
  | parse
  | trace
  deriving DecidableEq

namespace Maker

/-- The name an operation is called by. -/
def label : Maker → String
  | .get => "get"
  | .call => "call"
  | .callback => "callback"
  | .parallel => "parallel"
  | .parse => "EffectDescriptor.parse"
  | .trace => "create_descriptor_with_trace"

/-- The frames of the library between the caller and the search for the creation
site. -/
def ownFrames (m : Maker) : List CallFrame :=
  let tracing := CreationSite.ownFrame Maker.trace.label
  if m = .trace then [CreationSite.searchFrame, tracing]
  else [CreationSite.searchFrame, tracing, CreationSite.ownFrame m.label]

/-- The creation site recorded by an operation called from the given place. -/
def site (m : Maker) (s : Surroundings) : Option String :=
  CreationSite.capture (m.ownFrames ++ s.callers) 2

end Maker

/-- Why a factory built nothing. -/
inductive BuildFault where
  | malformed (m : Malformed)
  | fault (f : ValueFault)

/-- The exception for a failed construction. -/
def BuildFault.body : BuildFault → ExnBody Value
  | .malformed m => m.body
  | .fault f => f.body

namespace Factory

/-- Attaches the creation site while effects are being debugged. -/
def traced (m : Maker) (s : Surroundings) (d : Descriptor) : Descriptor :=
  if s.debugging then d.createdBy (m.site s) else d

/-- Reads the value at a path without calling it. -/
def get (s : Surroundings) (path : Value) : Except Malformed Descriptor :=
  (normalizePath path).map fun p => traced .get s ⟨.direct, p, [], none⟩

/-- Resolves a path and, if the value there can be called, calls it. -/
def call (s : Surroundings) (path : Value) (args : List Value) : Except Malformed Descriptor :=
  (normalizePath path).map fun p => traced .call s ⟨.direct, p, args, none⟩

/-- Calls a function that reports its completion through a callback. -/
def callback (s : Surroundings) (path : Value) (args : List Value) :
    Except Malformed Descriptor :=
  (normalizePath path).map fun p => traced .callback s ⟨.callback, p, args, none⟩

/-- Performs descriptors side by side. -/
def parallel (s : Surroundings) (members : List Value) : Except Malformed Descriptor :=
  (parseMembers members).map fun ms => traced .parallel s ⟨.parallel, [], ms, none⟩

end Factory

namespace Maker

/-- The signature of an operation with fixed parameters. -/
def signature : Maker → Signature
  | .parse => ⟨Maker.parse.label, [⟨"raw", none⟩], 1⟩
  | .trace => ⟨Maker.trace.label, [⟨"descriptor", none⟩], 0⟩
  | m => ⟨m.label, [⟨"path", none⟩], 0⟩

/-- The path that a call with further arguments starts with. -/
def leadingPath (m : Maker) (args : List Value) : Except BuildFault (Value × List Value) :=
  match args with
  | path :: rest => .ok (path, rest)
  | [] => .error (.fault (.callShape (m.signature.missingMessage ["path"])))

/-- Performs an operation as a program calls it. -/
def apply (m : Maker) (s : Surroundings) (args : List Value) : Except BuildFault Value :=
  match m with
  | .parallel => ((Factory.parallel s args).mapError .malformed).map .descriptor
  | .call => do
    let (path, rest) ← m.leadingPath args
    ((Factory.call s path rest).mapError .malformed).map .descriptor
  | .callback => do
    let (path, rest) ← m.leadingPath args
    ((Factory.callback s path rest).mapError .malformed).map .descriptor
  | .get => do
    let values ← (m.signature.bindParameters args []).mapError .fault
    ((Factory.get s (values.headD .null)).mapError .malformed).map .descriptor
  | .parse => do
    let values ← (m.signature.bindParameters args []).mapError .fault
    ((Descriptor.parse (values.headD .null)).mapError .malformed).map .descriptor
  | .trace => do
    let values ← (m.signature.bindParameters args []).mapError .fault
    match values.headD .null with
    | .descriptor d => .ok (.descriptor (Factory.traced .trace s d))
    | v => if s.debugging then .error (.fault (.noAttribute v "with_created_at")) else .ok v

end Maker
end DescribedEffects
