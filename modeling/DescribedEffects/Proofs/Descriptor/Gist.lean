import DescribedEffects.Context
import DescribedEffects.Expectation
import DescribedEffects.Proofs.Descriptor.Flaws
import DescribedEffects.Proofs.Value.Unsited

/-!
# The gist of an item

An effect can be spelled in many ways, and a factory may note where it was created.  The *gist*
of an item is what is left when neither matters: the descriptor that the item is read as, without
creation sites, and the item itself without them if it cannot be read.  Two items with the same
gist are respellings of each other, or equal up to creation sites.

The gist is read as the item is read (`parse_gist`), so whoever reads an item sees no more of it
than its gist.  What is done with a descriptor after it has been read does not depend on creation
sites either: the walk through a context, the shape, the comparison with what was expected, and
the answer that an expectation gives.
-/

namespace DescribedEffects

/-! ## Reading -/

/-- Why a value is no path, without creation sites. -/
def PathFault.unsited : PathFault → PathFault
  | .segment i v => .segment i v.unsited
  | f => f

/-- Why a value is no descriptor, without creation sites. -/
def DescriptorFault.unsited : DescriptorFault → DescriptorFault
  | .path f => .path f.unsited
  | f => f

/-- A malformed descriptor without creation sites. -/
def Malformed.unsited (m : Malformed) : Malformed := ⟨m.descriptor.unsited, m.fault.unsited⟩

@[simp] theorem DescriptorFault.message_unsited (f : DescriptorFault) :
    f.unsited.message = f.message := by
  cases f with
  | path f =>
    cases f with
    | segment i v =>
      exact congrArg (fun t => "path segment " ++ toString i ++ " must be a non-empty str, got " ++ t)
        (Value.display_unsited v)
    | _ => rfl
  | _ => rfl

@[simp] theorem Malformed.body_unsited (m : Malformed) : m.unsited.body = m.body.unsited := by
  simp only [body, unsited, DescriptorFault.message_unsited]
  rfl

@[simp] theorem Value.isSegment_unsited (v : Value) : v.unsited.isSegment = v.isSegment := by
  cases v <;> rfl

theorem firstBadSegment?_unsited (i : Nat) (vs : List Value) :
    firstBadSegment? i (vs.map Value.unsited) =
      (firstBadSegment? i vs).map (Prod.map id Value.unsited) := by
  induction vs generalizing i with
  | nil => rfl
  | cons v vs ih =>
    rw [List.map_cons, firstBadSegment?, firstBadSegment?, Value.isSegment_unsited, ih]
    cases v.isSegment <;> rfl

theorem segmentsOf_unsited (vs : List Value) :
    segmentsOf (vs.map Value.unsited) =
      mapBoth PathFault.unsited (List.map Value.unsited) (segmentsOf vs) := by
  unfold segmentsOf
  rw [List.isEmpty_map, firstBadSegment?_unsited]
  cases vs.isEmpty with
  | true => rfl
  | false => rcases firstBadSegment? 0 vs with _ | ⟨i, v⟩ <;> rfl

/-- A path is read off a value without its creation sites. -/
theorem pathOf_unsited (v : Value) :
    pathOf v.unsited = mapBoth PathFault.unsited (List.map Value.unsited) (pathOf v) := by
  cases v with
  | text s =>
    unfold Value.unsited pathOf
    dsimp only
    split <;> rfl
  | list vs =>
    rw [Value.unsited, Value.unsitedAll_eq_map]
    exact segmentsOf_unsited vs
  | tuple vs =>
    rw [Value.unsited, Value.unsitedAll_eq_map]
    exact segmentsOf_unsited vs
  | exn e =>
    exact congrArg (fun t => (.error (.notSequence t) : Except PathFault (List Value)))
      (Value.typeName_unsited (.exn e))
  | _ => rfl

theorem readCall_unsited (raw : Value) (mode : Mode) (items : List Value) :
    readCall raw.unsited mode (items.map Value.unsited) =
      mapBoth Malformed.unsited DescriptorOf.unsited (readCall raw mode items) := by
  cases items with
  | nil => rfl
  | cons path args =>
    simp only [List.map_cons, readCall, normalizePath, pathOf_unsited]
    cases pathOf path with
    | error f => rfl
    | ok p =>
      simp [mapBoth, Except.mapError, Except.map, DescriptorOf.unsited]

mutual

/-- **A value without creation sites is read as the value is read**, without creation sites. -/
theorem parseValue_unsited : (v : Value) →
    parseValue v.unsited = mapBoth Malformed.unsited DescriptorOf.unsited (parseValue v)
  | .list items => parseItems_unsited (.list items) items
  | .tuple items => parseItems_unsited (.tuple items) items
  | .descriptor _ | .null | .truth _ | .int _ | .real _ | .nan _ | .text _ | .bytes _
  | .record _ | .view _ | .faulty _ | .mode _ | .expectation _ | .ok _ | .err _ | .exn _
  | .kind _ | .function _ | .computation _ | .coroutine _ | .future _ | .done .. | .settled ..
  | .broken .. => rfl
termination_by structural v => v

theorem parseItems_unsited (raw : Value) : (items : List Value) →
    parseItems raw.unsited (Value.unsitedAll items) =
      mapBoth Malformed.unsited DescriptorOf.unsited (parseItems raw items)
  | [] => rfl
  | v :: rest => by
    have hmembers := parseMembers_unsited rest
    have hcall := fun m => readCall_unsited raw m rest
    have hplain := readCall_unsited raw .direct (v :: rest)
    rw [← Value.unsitedAll_eq_map] at hplain
    simp only [← Value.unsitedAll_eq_map] at hcall
    by_cases hv : ∃ m, v = .mode m
    · obtain ⟨m, rfl⟩ := hv
      cases m with
      | parallel =>
        show (parseMembers (Value.unsitedAll rest)).map _ =
          mapBoth _ _ ((parseMembers rest).map _)
        rw [hmembers]
        cases parseMembers rest <;> rfl
      | direct => exact hcall .direct
      | callback => exact hcall .callback
    · have unmarked : ∀ m, v ≠ .mode m := fun m hm => hv ⟨m, hm⟩
      have kunmarked : ∀ m, v.unsited ≠ .mode m := by
        cases v with
        | mode m => exact absurd rfl (unmarked m)
        | _ => exact fun _ h => by cases h
      rw [parseItems_of_unmarked _ unmarked, ← hplain]
      exact parseItems_of_unmarked _ kunmarked
termination_by structural items => items

theorem parseMembers_unsited : (vs : List Value) →
    parseMembers (Value.unsitedAll vs) =
      mapBoth Malformed.unsited Value.unsitedAll (parseMembers vs)
  | [] => rfl
  | v :: vs => by
    rw [Value.unsitedAll, parseMembers, parseMembers, parseValue_unsited v,
      parseMembers_unsited vs]
    cases parseValue v with
    | error m => rfl
    | ok d => cases parseMembers vs <;> rfl
termination_by structural vs => vs

end

/-- What is left of an item when neither its spelling nor creation sites matter. -/
def Value.gist (item : Value) : Value :=
  match Descriptor.parse item with
  | .ok d => .descriptor d.unsited
  | .error _ => item.unsited

theorem Value.gist_of_parse {item : Value} {d : Descriptor} (h : Descriptor.parse item = .ok d) :
    item.gist = .descriptor d.unsited := by
  simp only [gist, h]

theorem Value.gist_of_malformed {item : Value} {m : Malformed}
    (h : Descriptor.parse item = .error m) : item.gist = item.unsited := by
  simp only [gist, h]

/-- **The gist of an item is read as the item is.** -/
@[simp] theorem parse_gist (item : Value) :
    Descriptor.parse item.gist =
      mapBoth Malformed.unsited DescriptorOf.unsited (Descriptor.parse item) := by
  cases h : Descriptor.parse item with
  | error m =>
    rw [Value.gist_of_malformed h]
    exact (parseValue_unsited item).trans (congrArg _ h)
  | ok d =>
    rw [Value.gist_of_parse h]
    rfl

/-- Creation sites make no difference to the gist. -/
@[simp] theorem Value.gist_unsited (item : Value) : item.unsited.gist = item.gist := by
  have hparse : Descriptor.parse item.unsited = _ := parseValue_unsited item
  cases h : Descriptor.parse item with
  | error m =>
    have hread : Descriptor.parse item.unsited = .error m.unsited :=
      hparse.trans (congrArg (mapBoth _ _) h)
    rw [gist_of_malformed h, gist_of_malformed hread, unsited_unsited]
  | ok d =>
    have hread : Descriptor.parse item.unsited = .ok d.unsited :=
      hparse.trans (congrArg (mapBoth _ _) h)
    rw [gist_of_parse h, gist_of_parse hread, DescriptorOf.unsited_unsited]

/-- What cannot be read is no descriptor. -/
theorem Value.unsited_ne_descriptor {item : Value} {m : Malformed}
    (h : Descriptor.parse item = .error m) (d : Descriptor) : item.unsited ≠ .descriptor d := by
  cases item with
  | descriptor d => cases h
  | _ => exact fun h => by cases h

/-- **Items have the same gist exactly when they are respellings of each other**: both are read,
as descriptors that are equal up to creation sites, or neither can be read and they are equal up
to creation sites themselves. -/
theorem Value.gist_eq_iff {item item' : Value} : item.gist = item'.gist ↔
    (∃ d d', Descriptor.parse item = .ok d ∧ Descriptor.parse item' = .ok d' ∧
      d.unsited = d'.unsited) ∨
    ∃ m m', Descriptor.parse item = .error m ∧ Descriptor.parse item' = .error m' ∧
      item.unsited = item'.unsited := by
  cases h : Descriptor.parse item with
  | error m =>
    cases h' : Descriptor.parse item' with
    | error m' => simp [gist_of_malformed h, gist_of_malformed h']
    | ok d' => simp [gist_of_malformed h, gist_of_parse h', unsited_ne_descriptor h]
  | ok d =>
    cases h' : Descriptor.parse item' with
    | error m' =>
      simp [gist_of_parse h, gist_of_malformed h', (unsited_ne_descriptor h' d.unsited).symm]
    | ok d' => simp [gist_of_parse h, gist_of_parse h']

@[simp] theorem Value.isComputation_gist (item : Value) :
    item.gist.isComputation = item.isComputation := by
  cases h : Descriptor.parse item with
  | error m => rw [gist_of_malformed h, isComputation_unsited]
  | ok d =>
    rw [gist_of_parse h]
    cases item with
    | computation g => cases h
    | _ => rfl

/-! ## The walk through a context -/

/-- Why a walk stopped, without creation sites. -/
def LookupFault.unsited : LookupFault → LookupFault
  | .belowNonMapping s t => .belowNonMapping s.unsited t
  | .missing s => .missing s.unsited
  | .badKey f => .badKey f.unsited
  | .raised e => .raised e.unsited

@[simp] theorem LookupFault.complaint_unsited (f : LookupFault) (given : Value)
    (path : List Value) :
    f.unsited.complaint given.unsited (path.map Value.unsited) =
      (f.complaint given path).unsited := by
  cases f with
  | badKey f => exact congrArg Complaint.make (ValueFault.body_unsited f)
  | raised e => rfl
  | _ =>
    simp only [unsited, complaint, Complaint.unsited, ExnBody.unsited, Value.unsitedAll_eq_map]
    rfl

namespace Context

theorem enter_unsited (current segment : Value) :
    enter current.unsited segment.unsited =
      mapBoth LookupFault.unsited Value.unsited (enter current segment) := by
  unfold enter
  rw [Value.isMapping_unsited, Value.atKey_unsited, Value.typeName_unsited]
  cases current.isMapping with
  | false => rfl
  | true =>
    cases Value.atKey segment current with
    | ok v => rfl
    | error r =>
      cases r with
      | raised e =>
        simp only [mapBoth, Refusal.unsited, ExnOf.kind_unsited, if_true]
        split <;> rfl
      | fault f => cases f <;> rfl

/-- **A walk does not depend on creation sites.** -/
theorem lookup_unsited (current : Value) (path : List Value) :
    lookup current.unsited (path.map Value.unsited) =
      mapBoth LookupFault.unsited Value.unsited (lookup current path) := by
  induction path generalizing current with
  | nil => rfl
  | cons s rest ih =>
    rw [List.map_cons, lookup_cons, lookup_cons, enter_unsited]
    cases enter current s with
    | error f => rfl
    | ok v => exact ih v

@[simp] theorem classify_unsited (v : Value) (mode : Mode) :
    classify v.unsited mode = classify v mode := by
  simp only [classify, Value.isCallable_unsited]

end Context

/-! ## Shapes and expectations -/

mutual

theorem shapeOf_unsited : (d : Descriptor) →
    shapeOf d.unsited = mapBoth ValueFault.unsited DescriptorOf.unsited (shapeOf d)
  | ⟨m, p, args, site⟩ => by
    have hargs := shapesOf_unsited args
    unfold DescriptorOf.unsited shapeOf
    by_cases hm : m = .parallel
    · rw [if_pos hm, if_pos hm, hargs]
      cases shapesOf args <;> rfl
    · rw [if_neg hm, if_neg hm]
      rfl
termination_by structural d => d

theorem shapesOf_unsited : (vs : List Value) →
    shapesOf (Value.unsitedAll vs) = mapBoth ValueFault.unsited Value.unsitedAll (shapesOf vs)
  | [] => rfl
  | v :: vs => by
    rw [Value.unsitedAll, shapesOf, shapesOf, shapeOfMember_unsited v, shapesOf_unsited vs]
    cases shapeOfMember v with
    | error f => rfl
    | ok s => cases shapesOf vs <;> rfl
termination_by structural vs => vs

theorem shapeOfMember_unsited : (v : Value) →
    shapeOfMember v.unsited = mapBoth ValueFault.unsited Value.unsited (shapeOfMember v)
  | .descriptor d => by
    have hd := shapeOf_unsited d
    show (shapeOf d.unsited).map _ = mapBoth _ _ ((shapeOf d).map _)
    rw [hd]
    cases shapeOf d <;> rfl
  | .list _ | .tuple _ | .null | .truth _ | .int _ | .real _ | .nan _ | .text _ | .bytes _
  | .record _ | .view _ | .faulty _ | .mode _ | .expectation _ | .ok _ | .err _ | .exn _
  | .kind _ | .function _ | .computation _ | .coroutine _ | .future _ | .done .. | .settled ..
  | .broken .. => rfl
termination_by structural v => v

end

@[simp] theorem DescriptorOf.same_unsited (d e : Descriptor) :
    d.unsited.same e.unsited = d.same e := Value.sameDescriptor_unsited d e

namespace ExpectationOf

/-- **Whether an effect is the expected one does not depend on creation sites.** -/
theorem compare_unsited (expected actual : Descriptor) (matchArgs : Bool) :
    compare expected.unsited actual.unsited matchArgs =
      mapBoth ValueFault.unsited id (compare expected actual matchArgs) := by
  have hshape : ∀ d : Descriptor,
      d.unsited.shape = mapBoth ValueFault.unsited DescriptorOf.unsited d.shape := shapeOf_unsited
  cases matchArgs with
  | true => exact congrArg Except.ok (DescriptorOf.same_unsited expected actual)
  | false =>
    unfold compare
    rw [hshape, hshape]
    cases expected.shape with
    | error f => rfl
    | ok a =>
      cases actual.shape with
      | error f => rfl
      | ok b => exact congrArg Except.ok (DescriptorOf.same_unsited a b)

/-- What is left of an expectation when neither the spelling of its effect nor creation sites
matter. -/
def gist (x : Expectation) : Expectation :=
  ⟨x.effect.gist, x.yields.unsited, x.raises.map ExnOf.unsited⟩

@[simp] theorem descriptor_gist (x : Expectation) :
    x.gist.descriptor = mapBoth Malformed.unsited DescriptorOf.unsited x.descriptor :=
  parse_gist x.effect

/-- An answer without creation sites. -/
def Answer.unsited : Answer → Answer
  | .value v => .value v.unsited
  | .raise e => .raise e.unsited
  | .call f args => .call f.unsited (args.map Value.unsited)

@[simp] theorem answer_gist (x : Expectation) (actual : Descriptor) :
    x.gist.answer actual.unsited = (x.answer actual).unsited := by
  obtain ⟨effect, yields, _ | e⟩ := x
  · obtain ⟨m, p, args, site⟩ := actual
    simp only [answer, gist, Option.map_none, Value.isCallable_unsited]
    split
    · simp only [Answer.unsited, DescriptorOf.unsited, Value.unsitedAll_eq_map]
    · rfl
  · rfl

end ExpectationOf
end DescribedEffects
