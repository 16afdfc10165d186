import DescribedEffects.Proofs.Descriptor.Flaws

/-!
# What is read and who is to blame

Reading a value gives a descriptor or blames a value.  Both are said here without an order of
evaluation.  `Reads` is the grammar of descriptors.  `Blames` is its counterpart for values
that are outside the grammar: it walks down through groups to a value that is malformed by
itself, and at each group on its way all members to the left of the one it enters can be read.
A bad path is no value that the walk comes to; the blame stays with what the path stands in.

`parse_follows_grammar` says that reading succeeds exactly as the one relation says and fails
exactly as the other one does, reasons included.  Since reading does one of the two, every
value is in the grammar or has one value in it to blame (`reads_or_blames`, from which the
statement follows because neither relation lies: `parse_of_reads`, `parse_of_blames`).
-/

namespace DescribedEffects

/-- Why a value spells no path. -/
inductive Misspells : Value → PathFault → Prop
  | blank : Misspells (.text "") .empty
  | empty {raw : Value} (sequence : IsSequenceOf raw []) : Misspells raw .empty
  /-- The leftmost bad segment is the one that is named. -/
  | segment {raw v : Value} {before after : List Value}
      (sequence : IsSequenceOf raw (before ++ v :: after))
      (segments : ∀ w ∈ before, w.isSegment = true) (bad : v.isSegment = false) :
      Misspells raw (.segment before.length v)
  | stranger {raw : Value} (sequence : ∀ items, ¬IsSequenceOf raw items)
      (wordless : ∀ s, raw ≠ .text s) : Misspells raw (.notSequence raw.typeName)

/-- The value is malformed by itself, and not on account of a member. -/
inductive Misshapen : Value → DescriptorFault → Prop
  | stranger {raw : Value} (sequence : ∀ items, ¬IsSequenceOf raw items)
      (unmade : ∀ d, raw ≠ .descriptor d) : Misshapen raw .notList
  | empty {raw : Value} (sequence : IsSequenceOf raw []) : Misshapen raw .empty
  | noPath {raw : Value} {m : Mode} (single : m ≠ .parallel)
      (sequence : IsSequenceOf raw [.mode m]) : Misshapen raw .noPath
  | path {raw path : Value} {args : List Value} {fault : PathFault}
      (unmarked : ∀ m, path ≠ .mode m) (sequence : IsSequenceOf raw (path :: args))
      (misspells : Misspells path fault) : Misshapen raw (.path fault)
  | markedPath {raw path : Value} {m : Mode} {args : List Value} {fault : PathFault}
      (single : m ≠ .parallel) (sequence : IsSequenceOf raw (.mode m :: path :: args))
      (misspells : Misspells path fault) : Misshapen raw (.path fault)

/-- The value is no descriptor, and this is what is wrong with which part of it. -/
inductive Blames : Value → Malformed → Prop
  | itself {raw : Value} {fault : DescriptorFault} (misshapen : Misshapen raw fault) :
      Blames raw ⟨raw, fault⟩
  /-- The blame lies with the leftmost member that cannot be read, or with a part of it. -/
  | member {raw v : Value} {before after : List Value} {m : Malformed}
      (sequence : IsSequenceOf raw (.mode .parallel :: (before ++ v :: after)))
      (read : ∀ w ∈ before, ∃ d, Reads w d) (blames : Blames v m) : Blames raw m

variable {raw : Value} {items : List Value} {d : Descriptor}

/-! ## Paths -/

/-- The first bad segment is the one with nothing but segments before it. -/
theorem firstBadSegment?_append {before after : List Value} {v : Value}
    (segments : ∀ w ∈ before, w.isSegment = true) (bad : v.isSegment = false) (i : Nat) :
    firstBadSegment? i (before ++ v :: after) = some (i + before.length, v) := by
  induction before generalizing i with
  | nil => simp [firstBadSegment?, bad]
  | cons w before ih =>
    have hw : w.isSegment = true := segments w (List.mem_cons_self ..)
    rw [List.cons_append, firstBadSegment?, if_pos hw,
      ih (fun u hu => segments u (List.mem_cons_of_mem w hu)), List.length_cons]
    congr 2
    omega

/-- What misspells a path is not read as one, and the reason is given. -/
theorem pathOf_of_misspells {fault : PathFault} (h : Misspells raw fault) :
    pathOf raw = .error fault := by
  cases h with
  | blank => rfl
  | empty sequence => cases sequence <;> rfl
  | @segment _ v before after sequence segments bad =>
    have hbad : segmentsOf (before ++ v :: after) = .error (.segment before.length v) := by
      unfold segmentsOf
      rw [if_neg (by simp), firstBadSegment?_append segments bad, Nat.zero_add]
    cases sequence <;> exact hbad
  | stranger sequence wordless =>
    cases raw with
    | text s => exact absurd rfl (wordless s)
    | list vs => exact absurd (.list vs) (sequence vs)
    | tuple vs => exact absurd (.tuple vs) (sequence vs)
    | _ => rfl

/-- The items of a sequence are all segments, or one of them is the first that is none. -/
theorem segments_or_bad (vs : List Value) :
    (∀ v ∈ vs, v.isSegment = true) ∨ ∃ before v after, vs = before ++ v :: after ∧
      (∀ w ∈ before, w.isSegment = true) ∧ v.isSegment = false := by
  induction vs with
  | nil => exact .inl fun _ h => (by cases h)
  | cons v vs ih =>
    cases hv : v.isSegment with
    | false => exact .inr ⟨[], v, vs, rfl, fun _ h => (by cases h), hv⟩
    | true =>
      rcases ih with hall | ⟨before, w, after, rfl, hsegments, hbad⟩
      · exact .inl (List.forall_mem_cons.2 ⟨hv, hall⟩)
      · exact .inr ⟨v :: before, w, after, rfl, List.forall_mem_cons.2 ⟨hv, hsegments⟩, hbad⟩

/-- **A value spells a path or misspells one.** -/
theorem spells_or_misspells (v : Value) :
    (∃ p, SpellsPath v p) ∨ ∃ fault, Misspells v fault := by
  have hsequence : ∀ {vs}, IsSequenceOf v vs → (vs ≠ [] → (∀ w ∈ vs, w.isSegment = true) →
      SpellsPath v vs) → (∃ p, SpellsPath v p) ∨ ∃ fault, Misspells v fault := by
    intro vs sequence spells
    by_cases hempty : vs = []
    · subst hempty
      exact .inr ⟨_, .empty sequence⟩
    · rcases segments_or_bad vs with hall | ⟨before, w, after, rfl, hsegments, hbad⟩
      · exact .inl ⟨vs, spells hempty hall⟩
      · exact .inr ⟨_, .segment sequence hsegments hbad⟩
  cases v with
  | text s =>
    by_cases hs : s = ""
    · subst hs
      exact .inr ⟨_, .blank⟩
    · exact .inl ⟨_, .name s hs⟩
  | list vs => exact hsequence (.list vs) (.list vs)
  | tuple vs => exact hsequence (.tuple vs) (.tuple vs)
  | _ => exact .inr ⟨_, .stranger (fun _ h => (by cases h)) (fun _ h => (by cases h))⟩

/-! ## Neither relation lies -/

/-- A mode spells no path. -/
theorem SpellsPath.unmarked {path : Value} {p : List Value} (h : SpellsPath path p) (m : Mode) :
    path ≠ .mode m := by
  rintro rfl
  cases h

mutual

/-- What the grammar says is read. -/
theorem parse_of_reads {raw : Value} {d : Descriptor} : Reads raw d → parseValue raw = .ok d
  | .already d => rfl
  | .group sequence each => by
    have hmembers := parseMembers_of_readsEach each
    have hparse := parse_of_sequence sequence
    rw [parseItems, hmembers] at hparse
    exact hparse
  | .plain sequence spells => by
    have hparse := parse_of_sequence sequence
    rw [parseItems_of_unmarked _ spells.unmarked] at hparse
    exact hparse.trans (readCall_eq_ok.2 ⟨_, _, _, rfl, pathOf_eq_ok_iff.2 spells, rfl⟩)
  | .marked single sequence spells => by
    have hparse := parse_of_sequence sequence
    rw [parseItems_of_marked _ single] at hparse
    exact hparse.trans (readCall_eq_ok.2 ⟨_, _, _, rfl, pathOf_eq_ok_iff.2 spells, rfl⟩)

/-- Members of which the grammar says something are read one by one. -/
theorem parseMembers_of_readsEach {raws ds : List Value} :
    ReadsEach raws ds → parseMembers raws = .ok ds
  | .nil => rfl
  | .cons reads rest => by
    have hv := parse_of_reads reads
    have hvs := parseMembers_of_readsEach rest
    exact parseMembers_eq_ok.2 (.cons ⟨_, hv, rfl⟩ (parseMembers_eq_ok.1 hvs))

end

/-- The leftmost member that is not read is why its group is not. -/
theorem parseMembers_of_leftmost {before after : List Value} {v : Value} {m : Malformed}
    (read : ∀ w ∈ before, ∃ d, parseValue w = .ok d) (h : parseValue v = .error m) :
    parseMembers (before ++ v :: after) = .error m := by
  induction before with
  | nil =>
    rw [List.nil_append, parseMembers, h]
    rfl
  | cons w before ih =>
    obtain ⟨d, hd⟩ := read w (List.mem_cons_self ..)
    rw [List.cons_append, parseMembers, hd, ih fun u hu => read u (List.mem_cons_of_mem w hu)]
    rfl

/-- Behind a mode, what misspells a path is the fault of what it stands in. -/
theorem readCall_of_misspells {m : Mode} {path : Value} {args : List Value} {fault : PathFault}
    (h : Misspells path fault) : readCall raw m (path :: args) = .error ⟨raw, .path fault⟩ := by
  simp [readCall, normalizePath, pathOf_of_misspells h, Except.map, Except.mapError]

/-- A misshapen value is blamed for being so. -/
theorem parse_of_misshapen {fault : DescriptorFault} (h : Misshapen raw fault) :
    Descriptor.parse raw = .error ⟨raw, fault⟩ := by
  cases h with
  | stranger sequence unmade => exact parse_of_stranger sequence unmade
  | empty sequence => exact parse_of_sequence sequence
  | noPath single sequence =>
    rw [parse_of_sequence sequence, parseItems_of_marked _ single]
    rfl
  | path unmarked sequence misspells =>
    rw [parse_of_sequence sequence, parseItems_of_unmarked _ unmarked]
    exact readCall_of_misspells misspells
  | markedPath single sequence misspells =>
    rw [parse_of_sequence sequence, parseItems_of_marked _ single]
    exact readCall_of_misspells misspells

/-- What is to blame is blamed. -/
theorem parse_of_blames {m : Malformed} (h : Blames raw m) : Descriptor.parse raw = .error m := by
  induction h with
  | itself misshapen => exact parse_of_misshapen misshapen
  | member sequence read _ ih =>
    have hread := fun w hw => (read w hw).imp fun _ => parse_of_reads
    rw [parse_of_sequence sequence, parseItems, parseMembers_of_leftmost hread ih]
    rfl

/-! ## One of them holds -/

/-- The members of a group are all read, or one of them is the first that is not. -/
theorem readsEach_or_leftmost {members : List Value}
    (h : ∀ v ∈ members, (∃ d, Reads v d) ∨ ∃ m, Blames v m) :
    (∃ ds, ReadsEach members ds) ∨ ∃ before v after m, members = before ++ v :: after ∧
      (∀ w ∈ before, ∃ d, Reads w d) ∧ Blames v m := by
  induction members with
  | nil => exact .inl ⟨[], .nil⟩
  | cons v members ih =>
    obtain ⟨hv, hmembers⟩ := List.forall_mem_cons.1 h
    rcases hv with ⟨d, hd⟩ | ⟨m, hm⟩
    · rcases ih hmembers with ⟨ds, hds⟩ | ⟨before, w, after, m, rfl, hread, hblames⟩
      · exact .inl ⟨_, .cons hd hds⟩
      · exact .inr ⟨v :: before, w, after, m, rfl, List.forall_mem_cons.2 ⟨⟨d, hd⟩, hread⟩,
          hblames⟩
    · exact .inr ⟨[], v, members, m, rfl, fun _ hw => (by cases hw), hm⟩

/-- A sequence is read, or it or a member of it is to blame. -/
theorem reads_or_blames_of_sequence (sequence : IsSequenceOf raw items)
    (h : ∀ v ∈ items, (∃ d, Reads v d) ∨ ∃ m, Blames v m) :
    (∃ d, Reads raw d) ∨ ∃ m, Blames raw m := by
  cases items with
  | nil => exact .inr ⟨_, .itself (.empty sequence)⟩
  | cons v rest =>
    by_cases hmode : ∃ mode, v = .mode mode
    · obtain ⟨mode, rfl⟩ := hmode
      by_cases hgroup : mode = .parallel
      · subst hgroup
        have hmembers := fun w hw => h w (List.mem_cons_of_mem _ hw)
        rcases readsEach_or_leftmost hmembers with
          ⟨ds, hds⟩ | ⟨before, w, after, m, rfl, hread, hblames⟩
        · exact .inl ⟨_, .group sequence hds⟩
        · exact .inr ⟨m, .member sequence hread hblames⟩
      · cases rest with
        | nil => exact .inr ⟨_, .itself (.noPath hgroup sequence)⟩
        | cons path args =>
          rcases spells_or_misspells path with ⟨p, hp⟩ | ⟨fault, hfault⟩
          · exact .inl ⟨_, .marked hgroup sequence hp⟩
          · exact .inr ⟨_, .itself (.markedPath hgroup sequence hfault)⟩
    · have unmarked : ∀ mode, v ≠ .mode mode := fun mode hv => hmode ⟨mode, hv⟩
      rcases spells_or_misspells v with ⟨p, hp⟩ | ⟨fault, hfault⟩
      · exact .inl ⟨_, .plain sequence hp⟩
      · exact .inr ⟨_, .itself (.path unmarked sequence hfault)⟩

/-- **Every value is a descriptor or has a part to blame.** -/
theorem reads_or_blames : (raw : Value) → (∃ d, Reads raw d) ∨ ∃ m, Blames raw m
  | .descriptor d => .inl ⟨d, .already d⟩
  | .list items => reads_or_blames_of_sequence (.list items) fun v _ => reads_or_blames v
  | .tuple items => reads_or_blames_of_sequence (.tuple items) fun v _ => reads_or_blames v
  | .null | .truth _ | .int _ | .real _ | .nan _ | .text _ | .bytes _ | .record _ | .view _
  | .faulty _ | .mode _ | .expectation _ | .ok _ | .err _ | .exn _ | .kind _ | .function _
  | .computation _ | .coroutine _ | .future _ | .done .. | .settled .. | .broken .. =>
    .inr ⟨_, .itself (.stranger (fun _ h => (by cases h)) (fun _ h => (by cases h)))⟩

/-- **Reading follows the grammar.**  A value is read as a descriptor exactly when it is a
spelling of that descriptor, with the mode, the path and the arguments or members that are
written in it.  Reading fails exactly with what the value's leftmost malformed part is to
blame for: the part that is malformed by itself, be it ever so deep in the groups, and the
reason. -/
theorem parse_follows_grammar (raw : Value) :
    (∀ d, Descriptor.parse raw = .ok d ↔ Reads raw d) ∧
      ∀ m, Descriptor.parse raw = .error m ↔ Blames raw m := by
  refine ⟨fun d => ⟨fun h => ?_, parse_of_reads⟩, fun m => ⟨fun h => ?_, parse_of_blames⟩⟩
  · rcases reads_or_blames raw with ⟨d', hd⟩ | ⟨m, hm⟩
    · obtain rfl : d = d' := Except.ok.inj (h.symm.trans (parse_of_reads hd))
      exact hd
    · cases h.symm.trans (parse_of_blames hm)
  · rcases reads_or_blames raw with ⟨d, hd⟩ | ⟨m', hm⟩
    · cases h.symm.trans (parse_of_reads hd)
    · obtain rfl : m = m' := Except.error.inj (h.symm.trans (parse_of_blames hm))
      exact hm

/-- A bad path inside a group inside a group: the call that holds it is to blame, and neither
the path nor the malformed member behind it. -/
example :
    Descriptor.parse (.list [.mode .parallel, .list [.text "a"],
      .tuple [.mode .parallel, .list [.tuple [.text "b", .int 1], .null], .null]]) =
    .error ⟨.list [.tuple [.text "b", .int 1], .null], .path (.segment 1 (.int 1))⟩ := rfl

end DescribedEffects
