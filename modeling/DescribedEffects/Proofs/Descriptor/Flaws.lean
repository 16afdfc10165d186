import DescribedEffects.Proofs.Descriptor.Grammar

/-!
# Flawed items

An item that somebody asks to have performed is any value at all.  It is *flawed* when an
element of it is malformed, at whatever depth and position of its groups.  Reading an item
finds out: `flawed_iff` says that reading fails exactly on flawed items.  So an item that has
been read has no flaw left that a later reading of any member of it could find, and
`Proper.wellFormed` says what it has instead.

A descriptor that has been made before counts as its own reading, whatever it holds, so all
of this is about items in which such descriptors are well formed (`Proper`).
-/

namespace DescribedEffects

/-- An element of the item is malformed: it is neither a list nor a tuple, it has no path, or
what stands for its path is none. -/
inductive Flawed : Value → Prop
  | stranger {raw : Value} (sequence : ∀ items, ¬IsSequenceOf raw items)
      (unmade : ∀ d, raw ≠ .descriptor d) : Flawed raw
  | empty {raw : Value} (sequence : IsSequenceOf raw []) : Flawed raw
  | noPath {raw : Value} {m : Mode} (single : m ≠ .parallel)
      (sequence : IsSequenceOf raw [.mode m]) : Flawed raw
  | path {raw path : Value} {args : List Value} (unmarked : ∀ m, path ≠ .mode m)
      (sequence : IsSequenceOf raw (path :: args)) (spells : ∀ p, ¬SpellsPath path p) : Flawed raw
  | markedPath {raw path : Value} {m : Mode} {args : List Value} (single : m ≠ .parallel)
      (sequence : IsSequenceOf raw (.mode m :: path :: args))
      (spells : ∀ p, ¬SpellsPath path p) : Flawed raw
  | member {raw v : Value} {members : List Value}
      (sequence : IsSequenceOf raw (.mode .parallel :: members)) (mem : v ∈ members)
      (flawed : Flawed v) : Flawed raw
  | made {d : Descriptor} (ill : ¬WellFormed d) : Flawed (.descriptor d)

/-- The descriptors among the elements of the item are well formed. -/
inductive Proper : Value → Prop
  | made {d : Descriptor} (well : WellFormed d) : Proper (.descriptor d)
  | group {raw : Value} {members : List Value}
      (sequence : IsSequenceOf raw (.mode .parallel :: members))
      (each : ∀ v ∈ members, Proper v) : Proper raw
  | single {raw : Value} (sequence : ∀ members, ¬IsSequenceOf raw (.mode .parallel :: members))
      (unmade : ∀ d, raw ≠ .descriptor d) : Proper raw

variable {raw : Value} {items : List Value} {d : Descriptor}

/-- A sequence is read item by item. -/
theorem parse_of_sequence (h : IsSequenceOf raw items) :
    Descriptor.parse raw = parseItems raw items := by
  cases h <;> rfl

/-- A value is a sequence of one thing only. -/
theorem IsSequenceOf.unique {others : List Value} (h : IsSequenceOf raw items)
    (k : IsSequenceOf raw others) : items = others := by
  cases h <;> cases k <;> rfl

/-- A value that is neither a sequence nor a descriptor is not read. -/
theorem parse_of_stranger (sequence : ∀ items, ¬IsSequenceOf raw items)
    (unmade : ∀ d, raw ≠ .descriptor d) : Descriptor.parse raw = .error ⟨raw, .notList⟩ := by
  cases raw with
  | list items => exact absurd (.list items) (sequence items)
  | tuple items => exact absurd (.tuple items) (sequence items)
  | descriptor d => exact absurd rfl (unmade d)
  | _ => rfl

/-- Items that begin with no mode are those of a direct call. -/
theorem parseItems_of_unmarked {v : Value} (rest : List Value) (unmarked : ∀ m, v ≠ .mode m) :
    parseItems raw (v :: rest) = readCall raw .direct (v :: rest) := by
  cases v with
  | mode m => exact absurd rfl (unmarked m)
  | _ => rfl

/-- Items that begin with the mode of a call are those of one. -/
theorem parseItems_of_marked {m : Mode} (rest : List Value) (single : m ≠ .parallel) :
    parseItems raw (.mode m :: rest) = readCall raw m rest := by
  cases m with
  | parallel => exact absurd rfl single
  | _ => rfl

/-- What stands behind the mode of a call and is not read has no path. -/
theorem not_spellsPath_of_readCall {m : Mode} {path : Value} {args : List Value}
    (h : ∀ d, readCall raw m (path :: args) ≠ .ok d) : ∀ p, ¬SpellsPath path p := by
  intro p hp
  exact h ⟨m, p, args, none⟩ (readCall_eq_ok.2 ⟨path, args, p, rfl, pathOf_eq_ok_iff.2 hp, rfl⟩)

/-- Items are read as a call only if a path stands in its place. -/
theorem not_readCall_of_path {m : Mode} {path : Value} {args : List Value}
    (h : ∀ p, ¬SpellsPath path p) : readCall raw m (path :: args) ≠ .ok d := by
  intro hread
  obtain ⟨path', args', p, hitems, hp, -⟩ := readCall_eq_ok.1 hread
  obtain ⟨rfl, rfl⟩ := List.cons.inj hitems
  exact h p (pathOf_eq_ok_iff.1 hp)

/-- An item that is no group is read as a call, unless it is no sequence of anything. -/
theorem parse_single (none : ∀ members, ¬IsSequenceOf raw (.mode .parallel :: members))
    (unmade : ∀ d, raw ≠ .descriptor d) :
    (Descriptor.parse raw = .error ⟨raw, .notList⟩ ∨ Descriptor.parse raw = .error ⟨raw, .empty⟩) ∧
        Flawed raw ∨
      ∃ m rest, m ≠ .parallel ∧ Descriptor.parse raw = readCall raw m rest ∧
        ((∀ d, readCall raw m rest ≠ .ok d) → Flawed raw) := by
  by_cases hsequence : ∃ items, IsSequenceOf raw items
  · obtain ⟨items, sequence⟩ := hsequence
    rw [parse_of_sequence sequence]
    cases items with
    | nil => exact .inl ⟨.inr rfl, .empty sequence⟩
    | cons v rest =>
      refine .inr ?_
      by_cases hmode : ∃ m, v = .mode m
      · obtain ⟨m, rfl⟩ := hmode
        have single : m ≠ .parallel := by
          rintro rfl
          exact none _ sequence
        refine ⟨m, rest, single, parseItems_of_marked rest single, fun hnot => ?_⟩
        cases rest with
        | nil => exact .noPath single sequence
        | cons path args => exact .markedPath single sequence (not_spellsPath_of_readCall hnot)
      · have unmarked : ∀ m, v ≠ .mode m := fun m hm => hmode ⟨m, hm⟩
        exact ⟨.direct, v :: rest, by decide, parseItems_of_unmarked rest unmarked, fun hnot =>
          .path unmarked sequence (not_spellsPath_of_readCall hnot)⟩
  · have none : ∀ items, ¬IsSequenceOf raw items := fun items h => hsequence ⟨items, h⟩
    exact .inl ⟨.inl (parse_of_stranger none unmade), .stranger none unmade⟩

/-- **A group is read member by member**, and what has been read is a group of descriptors. -/
theorem parse_group {members : List Value}
    (sequence : IsSequenceOf raw (.mode .parallel :: members))
    (h : Descriptor.parse raw = .ok d) :
    ∃ es : List Descriptor, d = ⟨.parallel, [], es.map .descriptor, none⟩ ∧
      List.Forall₂ (fun v e => Descriptor.parse v = .ok e) members es := by
  rw [parse_of_sequence sequence, parseItems] at h
  cases hmembers : parseMembers members with
  | error m => rw [hmembers] at h; cases h
  | ok ds =>
    rw [hmembers] at h
    obtain rfl := Except.ok.inj h
    suffices hread : ∃ es : List Descriptor, ds = es.map .descriptor ∧
        List.Forall₂ (fun v e => Descriptor.parse v = .ok e) members es by
      obtain ⟨es, rfl, hes⟩ := hread
      exact ⟨es, rfl, hes⟩
    clear h sequence
    induction parseMembers_eq_ok.1 hmembers with
    | nil => exact ⟨[], rfl, .nil⟩
    | cons hv hvs ih =>
      obtain ⟨e, he, rfl⟩ := hv
      obtain ⟨es, rfl, hes⟩ := ih (parseMembers_eq_ok.2 hvs)
      exact ⟨e :: es, rfl, .cons he hes⟩

/-- A member of a group that has been read has been read. -/
theorem parse_member {members : List Value} {es : List Descriptor} {v : Value}
    (h : List.Forall₂ (fun v e => Descriptor.parse v = .ok e) members es) (hv : v ∈ members) :
    ∃ e, Descriptor.parse v = .ok e := by
  obtain ⟨i, hi, rfl⟩ := List.mem_iff_getElem.1 hv
  exact ⟨_, h.get hi (h.length_eq ▸ hi)⟩

/-- The members of a proper group are proper. -/
theorem Proper.members (h : Proper raw) {members : List Value}
    (sequence : IsSequenceOf raw (.mode .parallel :: members)) : ∀ v ∈ members, Proper v := by
  cases h with
  | made well => cases sequence
  | group sequence' each =>
    obtain ⟨-, rfl⟩ := List.cons.inj (sequence.unique sequence')
    exact each
  | single none _ => exact absurd sequence (none _)

/-- A proper descriptor is well formed. -/
theorem Proper.well (h : Proper (.descriptor d)) : WellFormed d := by
  cases h with
  | made well => exact well
  | group sequence _ => cases sequence
  | single _ unmade => exact absurd rfl (unmade _)

/-- A flawed item is not read, wherever in it the flaw is. -/
theorem Flawed.not_read (h : Flawed raw) (proper : Proper raw) :
    Descriptor.parse raw ≠ .ok d := by
  induction h generalizing d with
  | stranger sequence unmade =>
    rw [parse_of_stranger sequence unmade]
    simp
  | empty sequence =>
    rw [parse_of_sequence sequence]
    simp [parseItems]
  | noPath single sequence =>
    rw [parse_of_sequence sequence, parseItems_of_marked _ single]
    simp [readCall]
  | path unmarked sequence spells =>
    rw [parse_of_sequence sequence, parseItems_of_unmarked _ unmarked]
    exact not_readCall_of_path spells
  | markedPath single sequence spells =>
    rw [parse_of_sequence sequence, parseItems_of_marked _ single]
    exact not_readCall_of_path spells
  | @member raw v members sequence mem _ ih =>
    intro hparse
    obtain ⟨es, -, hes⟩ := parse_group sequence hparse
    obtain ⟨e, he⟩ := parse_member hes mem
    exact ih (proper.members sequence v mem) he
  | made ill => exact absurd proper.well ill

/-- **Reading fails exactly on flawed items.** -/
theorem flawed_iff (proper : Proper raw) :
    Flawed raw ↔ ∃ m, Descriptor.parse raw = .error m := by
  constructor
  · intro h
    cases hparse : Descriptor.parse raw with
    | ok d => exact absurd hparse (h.not_read proper)
    | error m => exact ⟨m, rfl⟩
  · rintro ⟨m, hm⟩
    have hnot : ∀ d, Descriptor.parse raw ≠ .ok d := fun d hd => by rw [hm] at hd; cases hd
    clear hm
    induction proper with
    | made well => exact absurd rfl (hnot _)
    | @group raw members sequence each ih =>
      by_contra hflawed
      have hread : ∀ v ∈ members, ∃ e, Descriptor.parse v = .ok e := by
        intro v hv
        by_contra hv'
        exact hflawed (.member sequence hv (ih v hv fun e he => hv' ⟨e, he⟩))
      have : Nonempty Descriptor := ⟨⟨.direct, [], [], none⟩⟩
      choose! read hread using hread
      refine hnot ⟨.parallel, [], members.map fun v => .descriptor (read v), none⟩ ?_
      have hmembers : parseMembers members = .ok (members.map fun v => .descriptor (read v)) := by
        rw [parseMembers_eq_ok, List.forall₂_map_right_iff, List.forall₂_same]
        exact fun v hv => ⟨read v, hread v hv, rfl⟩
      rw [parse_of_sequence sequence, parseItems, hmembers]
      rfl
    | @single raw none unmade =>
      rcases parse_single none unmade with ⟨-, hflawed⟩ | ⟨m, rest, -, hcall, hflawed⟩
      · exact hflawed
      · exact hflawed fun d => hcall ▸ hnot d

/-- **What a proper item is read as is well formed**, down to the last member. -/
theorem Proper.wellFormed (proper : Proper raw) (h : Descriptor.parse raw = .ok d) :
    WellFormed d := by
  induction proper generalizing d with
  | made well =>
    obtain rfl := Except.ok.inj h
    exact well
  | @group raw members sequence each ih =>
    obtain ⟨es, rfl, hes⟩ := parse_group sequence h
    refine .group rfl rfl rfl fun e he => ?_
    obtain ⟨i, hi, rfl⟩ := List.mem_iff_getElem.1 he
    exact ih _ (List.getElem_mem (hes.length_eq ▸ hi)) (hes.get (hes.length_eq ▸ hi) hi)
  | @single raw none unmade =>
    rcases parse_single none unmade with ⟨hstranger | hempty, -⟩ | ⟨m, rest, single, hcall, -⟩
    · rw [hstranger] at h
      cases h
    · rw [hempty] at h
      cases h
    · obtain ⟨path, args, p, -, hp, rfl⟩ := readCall_eq_ok.1 (hcall ▸ h)
      obtain ⟨nonempty, segments, -⟩ := pathOf_eq_ok hp
      exact .call single nonempty segments

/-- A well-formed descriptor is proper, and so is what stands for any member of it. -/
theorem WellFormed.parse_member (h : WellFormed d) (mode : d.mode = .parallel) {v : Value}
    (hv : v ∈ d.args) : ∃ e, Descriptor.parse v = .ok e ∧ WellFormed e := by
  cases h with
  | call single _ _ => exact absurd mode single
  | group _ _ args each =>
    rw [args] at hv
    obtain ⟨e, he, rfl⟩ := List.mem_map.1 hv
    exact ⟨e, rfl, each e he⟩

end DescribedEffects
