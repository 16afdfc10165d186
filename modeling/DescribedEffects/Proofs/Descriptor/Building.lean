import DescribedEffects.Descriptor.Factory
import DescribedEffects.Proofs.Descriptor.Blame
import DescribedEffects.Proofs.Descriptor.Spelling

/-!
# Two ways to build a descriptor

A factory builds a descriptor from a path and arguments, or from the members of a group.  The
same path and arguments, or members, can be written one after another, and what is written is
read as a descriptor.  Nothing but the two definitions ties these ways together.

They come to the same (`call_alike`, `parallel_alike`): to equal descriptors, which may differ
in where they were created, or to a refusal.  A path that is none is refused with one reason by
both.  A factory has nothing else in hand and blames the path; reading blames the whole item
around it.  In a group the leftmost member that cannot be read is blamed by both alike.

## Mixed constructions

A program need not choose.  A written group can hold what a factory has built, a factory can be
given written items, and this at any depth.  `Recipe` is such a mixed construction, `build`
carries it out and `spelledOut` is the construction with every factory replaced by what is
written for it.  The order in which things fail differs, because a factory is called before the
group around it is read; so of refusals only their being there can be compared.  But what is
built is well formed, and without its creation sites it is exactly what the construction spelled
out is read as (`Recipe.accord_build`).  Reading its own written form gives the same.
-/

namespace DescribedEffects

/-! ## A factory and what is written for it -/

/-- Two constructions both succeed, with equal descriptors, or are both refused, in a way that
fits. -/
inductive Alike (refusals : Malformed → Malformed → Prop) :
    Except Malformed Descriptor → Except Malformed Descriptor → Prop
  | built {d e : Descriptor} (equal : Value.equal (.descriptor d) (.descriptor e) = true) :
      Alike refusals (.ok d) (.ok e)
  | refused {m n : Malformed} (fits : refusals m n) : Alike refusals (.error m) (.error n)

/-- The value spells no path; one blames it for that, and the other one blames the item it
stands in, for the same reason. -/
def SameReason (path item : Value) (m n : Malformed) : Prop :=
  ∃ fault, Misspells path fault ∧ m = ⟨path, .path fault⟩ ∧ n = ⟨item, .path fault⟩

/-- Both blame the leftmost of the values that cannot be read, or the same part of it. -/
def SameOffender (members : List Value) (m n : Malformed) : Prop :=
  m = n ∧ ∃ before v after, members = before ++ v :: after ∧
    (∀ w ∈ before, ∃ d, Descriptor.parse w = .ok d) ∧ Descriptor.parse v = .error m

/-- A factory notes where it was called from, or nothing. -/
theorem Factory.exists_traced (m : Maker) (s : Surroundings) (d : Descriptor) :
    ∃ site, traced m s d = d.createdBy site := by
  unfold traced
  split
  · exact ⟨_, rfl⟩
  · exact ⟨d.createdAt, rfl⟩

/-- Descriptors are equal wherever they were created. -/
theorem DescriptorOf.equal_createdBy (d : Descriptor) (site : Option String) :
    Value.equal (.descriptor (d.createdBy site)) (.descriptor d) = true := by
  obtain ⟨m, p, args, _⟩ := d
  exact Value.same_self (.descriptor ⟨m, p, args, none⟩)

/-- What a factory has built is equal to what it traced. -/
theorem Factory.equal_traced (m : Maker) (s : Surroundings) (d : Descriptor) :
    Value.equal (.descriptor (traced m s d)) (.descriptor d) = true := by
  obtain ⟨site, hsite⟩ := exists_traced m s d
  rw [hsite]
  exact d.equal_createdBy site

/-- A path is taken by a factory and by reading, or both refuse it for one reason. -/
theorem taken_or_misspelled (mode : Mode) (item path : Value) (args : List Value) :
    (∃ p, pathOf path = .ok p ∧ normalizePath path = .ok p ∧
      readCall item mode (path :: args) = .ok ⟨mode, p, args, none⟩) ∨
    ∃ fault, Misspells path fault ∧ normalizePath path = .error ⟨path, .path fault⟩ ∧
      readCall item mode (path :: args) = .error ⟨item, .path fault⟩ := by
  rcases spells_or_misspells path with ⟨p, hp⟩ | ⟨fault, hfault⟩
  · have hpath := pathOf_eq_ok_iff.2 hp
    have hmade : normalizePath path = .ok p := by
      rw [normalizePath, hpath]
      rfl
    exact .inl ⟨p, hpath, hmade, readCall_eq_ok.2 ⟨path, args, p, rfl, hpath, rfl⟩⟩
  · have hmade : normalizePath path = .error ⟨path, .path fault⟩ := by
      rw [normalizePath, pathOf_of_misspells hfault]
      rfl
    exact .inr ⟨fault, hfault, hmade, readCall_of_misspells hfault⟩

/-- **A factory for one effect and the reading of its path and arguments are alike.** -/
theorem call_alike (maker : Maker) (s : Surroundings) (mode : Mode) (item path : Value)
    (args : List Value) :
    Alike (SameReason path item)
      ((normalizePath path).map fun p => Factory.traced maker s ⟨mode, p, args, none⟩)
      (readCall item mode (path :: args)) := by
  rcases taken_or_misspelled mode item path args with
    ⟨p, -, hmade, hread⟩ | ⟨fault, hfault, hmade, hread⟩
  · rw [hmade, hread]
    exact .built (Factory.equal_traced maker s _)
  · rw [hmade, hread]
    exact .refused ⟨fault, hfault, rfl, rfl⟩

/-- The members of a group are all read, or one of them is the first that is not. -/
theorem parseMembers_or_leftmost (members : List Value) :
    (∃ ds, parseMembers members = .ok ds) ∨ ∃ m before v after, members = before ++ v :: after ∧
      (∀ w ∈ before, ∃ d, Descriptor.parse w = .ok d) ∧ Descriptor.parse v = .error m ∧
      parseMembers members = .error m := by
  rcases readsEach_or_leftmost fun v (_ : v ∈ members) => reads_or_blames v with
    ⟨ds, hds⟩ | ⟨before, v, after, m, rfl, hread, hblames⟩
  · exact .inl ⟨ds, parseMembers_of_readsEach hds⟩
  · have hbefore : ∀ w ∈ before, ∃ d, Descriptor.parse w = .ok d :=
      fun w hw => (hread w hw).imp fun _ => parse_of_reads
    have hv := parse_of_blames hblames
    exact .inr ⟨m, before, v, after, rfl, hbefore, hv, parseMembers_of_leftmost hbefore hv⟩

/-- **The factory for groups and the reading of a written group are alike.** -/
theorem parallel_alike (s : Surroundings) (item : Value) (members : List Value) :
    Alike (SameOffender members) (Factory.parallel s members)
      (parseItems item (.mode .parallel :: members)) := by
  rw [Factory.parallel, parseItems]
  rcases parseMembers_or_leftmost members with
    ⟨ds, hds⟩ | ⟨m, before, v, after, hmembers, hbefore, hv, hm⟩
  · rw [hds]
    exact .built (Factory.equal_traced .parallel s _)
  · rw [hm]
    exact .refused ⟨rfl, before, v, after, hmembers, hbefore, hv⟩

/-! ## Mixed constructions -/

/-- How a program makes an item, out of factories and of what it writes. -/
inductive Recipe where
  /-- An item that is written out. -/
  | written (item : Value) (spelled : isWritten item = true)
  /-- A written group of items that have been made, a list or a tuple. -/
  | group (inTuple : Bool) (members : List Recipe)
  /-- An item that is read before it is used. -/
  | read (item : Recipe)
  /-- A path that is a mode would be written as the mark of another item. -/
  | get (s : Surroundings) (path : Value) (unmarked : ∀ m, path ≠ .mode m)
  | call (s : Surroundings) (path : Value) (args : List Value) (unmarked : ∀ m, path ≠ .mode m)
  | callback (s : Surroundings) (path : Value) (args : List Value)
  | parallel (s : Surroundings) (members : List Recipe)

namespace Recipe

/-- A written group of the given members. -/
def groupOf (inTuple : Bool) (members : List Value) : Value :=
  if inTuple then .tuple (.mode .parallel :: members) else .list (.mode .parallel :: members)

theorem isSequenceOf_groupOf (inTuple : Bool) (members : List Value) :
    IsSequenceOf (groupOf inTuple members) (.mode .parallel :: members) := by
  cases inTuple
  · exact .list _
  · exact .tuple _

mutual

/-- The item that is made. -/
def item : Recipe → Except Malformed Value
  | written v _ => .ok v
  | group inTuple members => (items members).map (groupOf inTuple)
  | read r => do
    let v ← r.item
    (Descriptor.parse v).map .descriptor
  | get s path _ => (Factory.get s path).map .descriptor
  | call s path args _ => (Factory.call s path args).map .descriptor
  | callback s path args => (Factory.callback s path args).map .descriptor
  | parallel s members => do
    let vs ← items members
    (Factory.parallel s vs).map .descriptor
termination_by structural r => r

/-- The items that are made, from the left. -/
def items : List Recipe → Except Malformed (List Value)
  | [] => .ok []
  | r :: rs => do
    let v ← r.item
    let vs ← items rs
    pure (v :: vs)
termination_by structural rs => rs

end

mutual

/-- The item with everything written out. -/
def spelledOut : Recipe → Value
  | written v _ => v
  | group inTuple members => groupOf inTuple (spellings members)
  | read r => r.spelledOut
  | get _ path _ => .list [path]
  | call _ path args _ => .list (path :: args)
  | callback _ path args => .list (.mode .callback :: path :: args)
  | parallel _ members => .list (.mode .parallel :: spellings members)
termination_by structural r => r

/-- The items with everything written out. -/
def spellings : List Recipe → List Value
  | [] => []
  | r :: rs => r.spelledOut :: spellings rs
termination_by structural rs => rs

end

/-- The descriptor that the item comes to. -/
def build (r : Recipe) : Except Malformed Descriptor := do
  let v ← r.item
  Descriptor.parse v

/-- The members that the items of a group come to. -/
def buildAll (rs : List Recipe) : Except Malformed (List Value) := do
  let vs ← items rs
  parseMembers vs

/-- What is built is well formed and is read without its creation sites, or both fail. -/
inductive Accord : Except Malformed Descriptor → Except Malformed Descriptor → Prop
  | built {d : Descriptor} (well : WellFormed d) : Accord (.ok d) (.ok (bareOf d))
  | refused (m n : Malformed) : Accord (.error m) (.error n)

/-- What is built are well-formed descriptors, and they are read without their creation sites,
or both fail. -/
inductive AccordAll : Except Malformed (List Value) → Except Malformed (List Value) → Prop
  | built {ds : List Descriptor} (well : ∀ d ∈ ds, WellFormed d) :
      AccordAll (.ok (ds.map .descriptor)) (.ok (bareMembers (ds.map .descriptor)))
  | refused (m n : Malformed) : AccordAll (.error m) (.error n)

theorem Accord.of_bare {d e : Descriptor} (well : WellFormed d) (bare : bareOf d = e) :
    Accord (.ok d) (.ok e) := bare ▸ .built well

variable {x y : Except Malformed (List Value)}

/-- A group is built if its members are, wherever it was created. -/
theorem AccordAll.group (h : AccordAll x y) {f : List Value → Descriptor}
    (grouped : ∀ ms, ∃ site, f ms = ⟨.parallel, [], ms, site⟩) :
    Accord (x.map f) (y.map fun ms => ⟨.parallel, [], ms, none⟩) := by
  cases h with
  | @built ds well =>
    obtain ⟨site, hsite⟩ := grouped (ds.map .descriptor)
    have hwell : WellFormed (f (ds.map .descriptor)) := by
      rw [hsite]
      exact .group rfl rfl rfl well
    have hbare : bareOf (f (ds.map .descriptor)) =
        ⟨.parallel, [], bareMembers (ds.map .descriptor), none⟩ := by
      rw [hsite]
      rfl
    exact .of_bare hwell hbare
  | refused m n => exact .refused m n

/-- One more member is built. -/
theorem Accord.cons {b p : Except Malformed Descriptor} (h : Accord b p) (hs : AccordAll x y) :
    AccordAll (do let d ← b; let ds ← x; pure (.descriptor d :: ds))
      (do let d ← p; let ds ← y; pure (.descriptor d :: ds)) := by
  cases h with
  | @built d well =>
    cases hs with
    | @built ds wells => exact @AccordAll.built (d :: ds) (List.forall_mem_cons.2 ⟨well, wells⟩)
    | refused m n => exact .refused m n
  | refused m n => exact .refused m n

theorem Accord.refused_of_error {m : Malformed} {p : Except Malformed Descriptor}
    (h : Accord (.error m) p) : ∃ n, p = .error n := by
  cases h with
  | refused _ n => exact ⟨n, rfl⟩

theorem Accord.of_built {d : Descriptor} {p : Except Malformed Descriptor}
    (h : Accord (.ok d) p) : WellFormed d ∧ p = .ok (bareOf d) := by
  cases h with
  | built well => exact ⟨well, rfl⟩

theorem AccordAll.refused_of_error {m : Malformed} (h : AccordAll (.error m) y) :
    ∃ n, y = .error n := by
  cases h with
  | refused _ n => exact ⟨n, rfl⟩

/-- Members are not read if the first of them or one of the others is not. -/
theorem accordAll_of_refused (m : Malformed) {p : Except Malformed Descriptor}
    (h : (∃ n, p = .error n) ∨ ∃ n, y = .error n) :
    AccordAll (.error m) (do let d ← p; let ds ← y; pure (.descriptor d :: ds)) := by
  rcases h with ⟨n, rfl⟩ | ⟨n, rfl⟩
  · exact .refused m n
  · cases p with
    | error k => exact .refused m k
    | ok d => exact .refused m n

/-- What a factory for one effect builds is what is read without a creation site. -/
theorem accord_call (maker : Maker) (s : Surroundings) {mode : Mode} (single : mode ≠ .parallel)
    (item path : Value) (args : List Value) :
    Accord ((normalizePath path).map fun p => Factory.traced maker s ⟨mode, p, args, none⟩)
      (readCall item mode (path :: args)) := by
  rcases taken_or_misspelled mode item path args with
    ⟨p, hpath, hmade, hread⟩ | ⟨fault, -, hmade, hread⟩
  · obtain ⟨nonempty, segments, -⟩ := pathOf_eq_ok hpath
    obtain ⟨site, hsite⟩ := Factory.exists_traced maker s ⟨mode, p, args, none⟩
    have hbare : bareOf (Factory.traced maker s ⟨mode, p, args, none⟩) = ⟨mode, p, args, none⟩ := by
      rw [hsite]
      simp [DescriptorOf.createdBy, bareOf, single]
    have hwell : WellFormed (Factory.traced maker s ⟨mode, p, args, none⟩) := by
      rw [hsite]
      exact .call single nonempty segments
    rw [hmade, hread]
    exact .of_bare hwell hbare
  · rw [hmade, hread]
    exact .refused _ _

/-- A descriptor that has been made is what the item comes to. -/
theorem build_of_made {r : Recipe} {made : Except Malformed Descriptor}
    (h : r.item = made.map .descriptor) : r.build = made := by
  rw [build, h]
  cases made <;> rfl

/-- A written group is read member by member. -/
theorem build_group (inTuple : Bool) (members : List Recipe) :
    (group inTuple members).build =
      (buildAll members).map fun ms => ⟨.parallel, [], ms, none⟩ := by
  rw [build, buildAll, item]
  cases items members with
  | error m => rfl
  | ok vs =>
    show Descriptor.parse (groupOf inTuple vs) = _
    rw [parse_of_sequence (isSequenceOf_groupOf inTuple vs), parseItems]
    rfl

/-- The factory for groups reads its members one by one. -/
theorem build_parallel (s : Surroundings) (members : List Recipe) :
    (parallel s members).build =
      (buildAll members).map fun ms => Factory.traced .parallel s ⟨.parallel, [], ms, none⟩ := by
  refine build_of_made ?_
  rw [item, buildAll]
  cases items members <;> rfl

mutual

/-- **What is built is well formed, and what is spelled out is read as the same without creation
sites.**  If the one fails, so does the other. -/
theorem accord_build : (r : Recipe) → Accord r.build (Descriptor.parse r.spelledOut)
  | written v spelled => by
    show Accord (Descriptor.parse v) (Descriptor.parse v)
    cases hparse : Descriptor.parse v with
    | error m => exact .refused m m
    | ok d =>
      have hspelled := spelled_of_parse v d spelled hparse
      exact .of_bare hspelled.wellFormed hspelled.bare
  | group inTuple members => by
    have hmembers := accordAll_build members
    rw [build_group, spelledOut, parse_of_sequence (isSequenceOf_groupOf inTuple _), parseItems]
    exact hmembers.group fun _ => ⟨none, rfl⟩
  | read r => by
    have hread := accord_build r
    have hbuild : (read r).build = r.build := by
      refine build_of_made ?_
      rw [item, build]
      cases r.item <;> rfl
    rw [hbuild, spelledOut]
    exact hread
  | get s path unmarked => by
    have hparse : Descriptor.parse (.list [path]) = readCall (.list [path]) .direct [path] :=
      parseItems_of_unmarked [] unmarked
    rw [build_of_made (r := get s path unmarked) rfl, spelledOut, hparse]
    exact accord_call .get s (by decide) _ path []
  | call s path args unmarked => by
    have hparse : Descriptor.parse (.list (path :: args)) =
        readCall (.list (path :: args)) .direct (path :: args) :=
      parseItems_of_unmarked args unmarked
    rw [build_of_made (r := call s path args unmarked) rfl, spelledOut, hparse]
    exact accord_call .call s (by decide) _ path args
  | callback s path args => by
    rw [build_of_made (r := callback s path args) rfl]
    exact accord_call .callback s (by decide) _ path args
  | parallel s members => by
    have hmembers := accordAll_build members
    have hparse : Descriptor.parse (.list (.mode .parallel :: spellings members)) =
        (parseMembers (spellings members)).map fun ms => ⟨.parallel, [], ms, none⟩ := rfl
    rw [build_parallel, spelledOut, hparse]
    refine hmembers.group fun ms => ?_
    obtain ⟨site, hsite⟩ := Factory.exists_traced .parallel s ⟨.parallel, [], ms, none⟩
    exact ⟨site, hsite⟩
termination_by structural r => r

theorem accordAll_build : (rs : List Recipe) → AccordAll (buildAll rs) (parseMembers (spellings rs))
  | [] => @AccordAll.built [] fun _ h => (by cases h)
  | r :: rs => by
    have hr := accord_build r
    have hrs := accordAll_build rs
    rw [build] at hr
    rw [buildAll] at hrs ⊢
    rw [items, spellings, parseMembers]
    -- A factory among the members is called before any member is read, so a refusal need not be
    -- the one that reading what is spelled out ends with.
    cases hitem : r.item with
    | error m =>
      rw [hitem] at hr
      exact accordAll_of_refused m (.inl hr.refused_of_error)
    | ok v =>
      rw [hitem] at hr
      cases hitems : items rs with
      | error m =>
        rw [hitems] at hrs
        exact accordAll_of_refused m (.inr hrs.refused_of_error)
      | ok vs =>
        rw [hitems] at hrs
        show AccordAll (parseMembers (v :: vs)) _
        rw [parseMembers]
        exact hr.cons hrs
termination_by structural rs => rs

end

end Recipe

/-- **The factories build exactly what is written for them.**

* A read, a call and a callback come to the same as their path and arguments written one after
  another: to equal descriptors, or to a refusal of the path for the same reason.  For a read and
  a call the path must not be a mode, which would be taken for the mark of the item.
* A group comes to the same as its mode and members written one after another: to equal
  descriptors, or to a refusal of the same member.
* Whatever a mixed construction comes to is well formed, and equal to what its written form is
  read as; and that is what the construction is read as when everything in it is written out.
  A construction fails only if it cannot be read in this form either.

None of this depends on whether creation sites are recorded, at any level. -/
theorem factories_build_what_is_written :
    (∀ (s : Surroundings) (path : Value), (∀ m, path ≠ .mode m) →
      Alike (SameReason path (.list [path])) (Factory.get s path)
        (Descriptor.parse (.list [path])) ∧
      ∀ args, Alike (SameReason path (.list (path :: args))) (Factory.call s path args)
        (Descriptor.parse (.list (path :: args)))) ∧
    (∀ (s : Surroundings) (path : Value) (args : List Value),
      Alike (SameReason path (.list (.mode .callback :: path :: args)))
        (Factory.callback s path args)
        (Descriptor.parse (.list (.mode .callback :: path :: args)))) ∧
    (∀ (s : Surroundings) (members : List Value),
      Alike (SameOffender members) (Factory.parallel s members)
        (Descriptor.parse (.list (.mode .parallel :: members)))) ∧
    ∀ r : Recipe,
      (∀ d, r.build = .ok d → WellFormed d ∧ ∃ w e, d.toWire = .ok w ∧
        Descriptor.parse w = .ok e ∧ Value.equal (.descriptor e) (.descriptor d) = true ∧
        Descriptor.parse r.spelledOut = .ok e) ∧
      ((∃ d, r.build = .ok d) ↔ ∃ e, Descriptor.parse r.spelledOut = .ok e) := by
  refine ⟨fun s path unmarked => ⟨?_, fun args => ?_⟩, fun s path args => ?_, fun s members => ?_,
    fun r => ?_⟩
  · have hread : parseItems (.list [path]) [path] = readCall (.list [path]) .direct [path] :=
      parseItems_of_unmarked [] unmarked
    have halike := call_alike .get s .direct (.list [path]) path []
    rw [← hread] at halike
    exact halike
  · have hread : parseItems (.list (path :: args)) (path :: args) =
        readCall (.list (path :: args)) .direct (path :: args) :=
      parseItems_of_unmarked args unmarked
    have halike := call_alike .call s .direct (.list (path :: args)) path args
    rw [← hread] at halike
    exact halike
  · exact call_alike .callback s .callback _ path args
  · exact parallel_alike s (.list (.mode .parallel :: members)) members
  · have haccord := r.accord_build
    constructor
    · intro d hd
      rw [hd] at haccord
      obtain ⟨well, hread⟩ := haccord.of_built
      obtain ⟨w, hwire, -, hparse⟩ := well.exists_wire
      exact ⟨well, w, bareOf d, hwire, hparse, sameDescriptor_bareOf d, hread⟩
    · generalize r.build = built at haccord
      generalize Descriptor.parse r.spelledOut = spelled at haccord
      cases haccord with
      | built _ => exact ⟨fun _ => ⟨_, rfl⟩, fun _ => ⟨_, rfl⟩⟩
      | refused m n => exact ⟨fun ⟨d, hd⟩ => (by cases hd), fun ⟨e, he⟩ => (by cases he)⟩

/-- A group that is built while creation sites are recorded, of a call with an argument that
equals nothing, and of a written tuple that holds a written call and a callback. -/
def mixedGroup : Recipe :=
  let debugging : Surroundings := ⟨true, []⟩
  .parallel debugging [.call debugging (.text "a") [.nan 0] (by simp),
    .group true [.written (.list [.tuple [.text "b"], .int 1]) rfl,
      .callback debugging (.list [.text "c", .text "d"]) []]]

/-- The group is built and is read from its own written form; a path without a segment is refused
in the same way by all. -/
theorem mixed_group_is_built :
    (∃ d w e, mixedGroup.build = .ok d ∧ WellFormed d ∧ d.toWire = .ok w ∧
      Descriptor.parse w = .ok e ∧ Value.equal (.descriptor e) (.descriptor d) = true ∧
      Descriptor.parse mixedGroup.spelledOut = .ok e) ∧
    ∃ m n, Factory.get ⟨false, []⟩ (.list []) = .error m ∧
      Descriptor.parse (.list [.list []]) = .error n ∧ SameReason (.list []) (.list [.list []]) m n := by
  obtain ⟨hcall, -, -, hmixed⟩ := factories_build_what_is_written
  constructor
  · obtain ⟨d, hd⟩ : ∃ d, mixedGroup.build = .ok d := ⟨_, rfl⟩
    obtain ⟨well, w, e, hwire, hparse, hequal, hspelled⟩ := (hmixed mixedGroup).1 d hd
    exact ⟨d, w, e, hd, well, hwire, hparse, hequal, hspelled⟩
  · obtain ⟨hget, -⟩ := hcall ⟨false, []⟩ (.list []) (by simp)
    cases hget with
    | refused fits => exact ⟨_, _, rfl, rfl, fits⟩

end DescribedEffects
