import DescribedEffects.Proofs.Descriptor.Grammar
import DescribedEffects.Proofs.Value.Sameness

/-!
# Written descriptors and descriptors that have been read

A descriptor is written as a list, and reading the list gives the descriptor back.  Two
things get lost on the way: where the descriptor was created is not written, and what was
read may have been spelled in another way than the one in which it is written.  So

* writing a well-formed descriptor and reading it again gives `bareOf` it, which equals it
  and tells nothing of where it or any member of it was created;
* reading a written value and writing the result gives the `canonical` spelling of the value,
  which is read in the same way and is its own canonical spelling;
* two values are read as equal descriptors exactly when their canonical spellings are equal.

`Canonical` is the grammar of canonical spellings, and `isWritten` says that a value is spelled
out down to the last member of a group.  Arguments are never looked at, whatever they look
like.
-/

namespace DescribedEffects

/-! ## What is lost and what is not -/

mutual

/-- The descriptor without the places where it and its members were created. -/
def bareOf : Descriptor → Descriptor
  | ⟨m, p, args, _⟩ => ⟨m, p, if m = .parallel then bareMembers args else args, none⟩
termination_by structural d => d

/-- The members of a group without the places where they were created. -/
def bareMembers : List Value → List Value
  | [] => []
  | v :: vs => bareMember v :: bareMembers vs
termination_by structural vs => vs

/-- One member without the place where it was created. -/
def bareMember : Value → Value
  | .descriptor d => .descriptor (bareOf d)
  | v => v
termination_by structural v => v

end

/-- Neither the descriptor nor any member of it says where it was created. -/
inductive Unsited : Descriptor → Prop
  | intro {d : Descriptor} (site : d.createdAt = none)
      (members : ∀ m, d.mode = .parallel → .descriptor m ∈ d.args → Unsited m) : Unsited d

mutual

/-- The value is spelled out: neither it nor a member of a group in it is a descriptor that
has been made before. -/
def isWritten : Value → Bool
  | .descriptor _ => false
  | .list items => hasWrittenMembers items
  | .tuple items => hasWrittenMembers items
  | _ => true
termination_by structural v => v

/-- The items are not those of a group, or its members are spelled out. -/
def hasWrittenMembers : List Value → Bool
  | .mode .parallel :: members => areWritten members
  | _ => true
termination_by structural items => items

/-- Every value is spelled out. -/
def areWritten : List Value → Bool
  | [] => true
  | v :: vs => isWritten v && areWritten vs
termination_by structural vs => vs

end

/-- The canonical spellings: every descriptor is a list, every path a list of strings, and a
direct call has no mark. -/
inductive Canonical : Value → Prop
  | call {path : List Value} (args : List Value) (nonempty : path ≠ [])
      (segments : ∀ s ∈ path, s.isSegment = true) : Canonical (.list (.list path :: args))
  | callback {path : List Value} (args : List Value) (nonempty : path ≠ [])
      (segments : ∀ s ∈ path, s.isSegment = true) :
      Canonical (.list (.mode .callback :: .list path :: args))
  | group {members : List Value} (each : ∀ m ∈ members, Canonical m) :
      Canonical (.list (.mode .parallel :: members))

mutual

/-- A descriptor equals what is left of it. -/
theorem sameDescriptor_bareOf : (d : Descriptor) → Value.sameDescriptor (bareOf d) d = true
  | ⟨m, p, args, _⟩ => by
    have hmembers := sameAll_bareMembers args
    have hpath := Value.sameAll_self p
    have hargs := Value.sameAll_self args
    by_cases hm : m = .parallel <;> simp [bareOf, Value.sameDescriptor, hm, hmembers, hpath, hargs]
termination_by structural d => d

theorem sameAll_bareMembers : (vs : List Value) → Value.sameAll (bareMembers vs) vs = true
  | [] => rfl
  | v :: vs => by
    have hv := same_bareMember v
    have hvs := sameAll_bareMembers vs
    simp [bareMembers, Value.sameAll, hv, hvs]
termination_by structural vs => vs

theorem same_bareMember : (v : Value) → Value.same (bareMember v) v = true
  | .descriptor d => sameDescriptor_bareOf d
  | .null | .truth _ | .int _ | .real _ | .nan _ | .text _ | .bytes _ | .list _ | .tuple _
  | .record _ | .view _ | .faulty _ | .mode _ | .expectation _ | .ok _ | .err _ | .exn _
  | .kind _ | .function _ | .computation _ | .coroutine _ | .future _ | .done .. | .settled ..
  | .broken .. => Value.same_self _
termination_by structural v => v

end

/-- The members of a group, one by one. -/
theorem bareMembers_map (members : List Descriptor) :
    bareMembers (members.map .descriptor) = (members.map bareOf).map .descriptor := by
  induction members with
  | nil => rfl
  | cons m members ih => rw [List.map_cons, bareMembers, bareMember, ih]; rfl

/-- What is left of a well-formed descriptor tells nothing of where it was created. -/
theorem WellFormed.unsited_bareOf {d : Descriptor} (h : WellFormed d) : Unsited (bareOf d) := by
  induction h with
  | @call d single _ _ =>
    obtain ⟨m, p, args, site⟩ := d
    exact .intro rfl fun _ hm _ => absurd hm single
  | @group d members hmode _ hargs _ ih =>
    obtain ⟨m, p, args, site⟩ := d
    obtain rfl : m = .parallel := hmode
    obtain rfl : args = members.map .descriptor := hargs
    refine .intro rfl fun m _ hm => ?_
    have hm : Value.descriptor m ∈ bareMembers (members.map .descriptor) := hm
    rw [bareMembers_map, List.map_map] at hm
    obtain ⟨member, hmember, heq⟩ := List.mem_map.1 hm
    rw [← Value.descriptor.inj heq]
    exact ih member hmember

/-! ## Writing and reading again -/

/-- **A well-formed descriptor is written, and read again as what is left of it.** -/
theorem WellFormed.exists_wire {d : Descriptor} (h : WellFormed d) :
    ∃ w, wireOf d = .ok w ∧ Canonical w ∧ parseValue w = .ok (bareOf d) := by
  induction h with
  | @call d single nonempty segments =>
    obtain ⟨m, p, args, site⟩ := d
    have hpath : pathOf (.list p) = .ok p := pathOf_eq_ok_iff.2 (.list p nonempty segments)
    cases m with
    | parallel => exact absurd rfl single
    | direct =>
      refine ⟨_, rfl, .call args nonempty segments, ?_⟩
      exact readCall_eq_ok.2 ⟨_, args, p, rfl, hpath, rfl⟩
    | callback =>
      refine ⟨_, rfl, .callback args nonempty segments, ?_⟩
      exact readCall_eq_ok.2 ⟨_, args, p, rfl, hpath, rfl⟩
  | @group d members hmode hpath hargs each ih =>
    obtain ⟨m, p, args, site⟩ := d
    obtain rfl : m = .parallel := hmode
    obtain rfl : p = [] := hpath
    obtain rfl : args = members.map .descriptor := hargs
    clear each
    obtain ⟨ws, hwires, hcanonical, hparse⟩ : ∃ ws, wiresOf (members.map .descriptor) = .ok ws ∧
        (∀ w ∈ ws, Canonical w) ∧
        parseMembers ws = .ok (bareMembers (members.map .descriptor)) := by
      induction members with
      | nil => exact ⟨[], rfl, fun _ hw => (by cases hw), rfl⟩
      | cons m members ihs =>
        obtain ⟨w, hw, hc, hp⟩ := ih m (List.mem_cons_self ..)
        obtain ⟨ws, hws, hcs, hps⟩ := ihs fun m hm => ih m (List.mem_cons_of_mem _ hm)
        refine ⟨w :: ws, ?_, ?_, ?_⟩
        · rw [List.map_cons, wiresOf, wireOfMember, hw, hws]
          rfl
        · exact List.forall_mem_cons.2 ⟨hc, hcs⟩
        · rw [parseMembers, hp, hps]
          rfl
    refine ⟨.list (.mode .parallel :: ws), ?_, .group hcanonical, ?_⟩
    · rw [wireOf, hwires]
      rfl
    · rw [parseValue, parseItems, hparse]
      rfl

/-- A canonical spelling is its own canonical spelling. -/
theorem Canonical.canonical_eq {w : Value} (h : Canonical w) : canonical w = w := by
  induction h with
  | call args _ _ => rfl
  | callback args _ _ => rfl
  | @group members each ih =>
    clear each
    have hmembers : canonicalMembers members = members := by
      induction members with
      | nil => rfl
      | cons m members ihs =>
        rw [canonicalMembers, ih m (List.mem_cons_self ..),
          ihs fun m hm => ih m (List.mem_cons_of_mem _ hm)]
    rw [canonical, canonicalItems, hmembers]

/-! ## Reading and writing again -/

/-- A descriptor that has been read off a spelling, and is written as the canonical one. -/
structure Spelled (spelling : Value) (d : Descriptor) : Prop where
  wellFormed : WellFormed d
  bare : bareOf d = d
  wire : wireOf d = .ok spelling

/-- A call that has been read is written with its path as a list. -/
theorem spelled_of_readCall {raw : Value} {m : Mode} {rest : List Value} {d : Descriptor}
    (single : m ≠ .parallel) (h : readCall raw m rest = .ok d) :
    ∃ path args, rest = path :: args ∧
      Spelled (.list ((if m = .direct then [] else [.mode m]) ++ canonicalPath path :: args)) d := by
  obtain ⟨path, args, p, rfl, hp, rfl⟩ := readCall_eq_ok.1 h
  obtain ⟨nonempty, segments, hcanonical⟩ := pathOf_eq_ok hp
  refine ⟨path, args, rfl, .call single nonempty segments, ?_, ?_⟩
  · simp [bareOf, single]
  · rw [hcanonical]
    cases m with
    | parallel => exact absurd rfl single
    | direct => rfl
    | callback => rfl

/-- Items that begin with no mode are those of a direct call. -/
theorem spelled_of_plain {raw v : Value} {vs : List Value} {d : Descriptor}
    (plain : ∀ m, v ≠ .mode m) (h : parseItems raw (v :: vs) = .ok d) :
    Spelled (.list (canonicalItems (v :: vs))) d := by
  have hread : parseItems raw (v :: vs) = readCall raw .direct (v :: vs) := by
    cases v with
    | mode m => exact absurd rfl (plain m)
    | _ => rfl
  have hspelling : canonicalItems (v :: vs) = canonicalPath v :: vs := by
    cases v with
    | mode m => exact absurd rfl (plain m)
    | _ => rfl
  rw [hread] at h
  obtain ⟨path, args, hitems, hspelled⟩ := spelled_of_readCall (by decide) h
  obtain ⟨rfl, rfl⟩ := List.cons.inj hitems
  rw [hspelling]
  exact hspelled

mutual

/-- **What has been read off a value that is spelled out is written as the canonical spelling
of it.** -/
theorem spelled_of_parse : (w : Value) → ∀ d, isWritten w = true → parseValue w = .ok d →
    Spelled (canonical w) d
  | .list items, d, hw, h => spelled_of_parseItems items (.list items) d hw h
  | .tuple items, d, hw, h => spelled_of_parseItems items (.tuple items) d hw h
  | .descriptor _, _, hw, _ => by cases hw
  | .null, _, _, h | .truth _, _, _, h | .int _, _, _, h | .real _, _, _, h | .nan _, _, _, h
  | .text _, _, _, h | .bytes _, _, _, h | .record _, _, _, h | .view _, _, _, h
  | .faulty _, _, _, h | .mode _, _, _, h | .expectation _, _, _, h | .ok _, _, _, h
  | .err _, _, _, h | .exn _, _, _, h | .kind _, _, _, h | .function _, _, _, h
  | .computation _, _, _, h | .coroutine _, _, _, h | .future _, _, _, h | .done .., _, _, h
  | .settled .., _, _, h | .broken .., _, _, h => by cases h
termination_by structural w => w

theorem spelled_of_parseItems : (items : List Value) → ∀ raw d, hasWrittenMembers items = true →
    parseItems raw items = .ok d → Spelled (.list (canonicalItems items)) d
  | [], _, _, _, h => by cases h
  | .mode .parallel :: members, raw, d, hw, h => by
    rw [parseItems] at h
    cases hmembers : parseMembers members with
    | error m => rw [hmembers] at h; cases h
    | ok ds =>
      rw [hmembers] at h
      obtain rfl := Except.ok.inj h
      obtain ⟨ms, rfl, hwell, hbare, hwires⟩ := spelled_of_parseMembers members ds hw hmembers
      refine ⟨.group rfl rfl rfl hwell, ?_, ?_⟩
      · rw [bareOf, if_pos rfl, hbare]
      · rw [wireOf, hwires]
        rfl
  | .mode .direct :: rest, raw, d, _, h => by
    obtain ⟨path, args, rfl, hspelled⟩ := spelled_of_readCall (by decide) h
    exact hspelled
  | .mode .callback :: rest, raw, d, _, h => by
    obtain ⟨path, args, rfl, hspelled⟩ := spelled_of_readCall (by decide) h
    exact hspelled
  | .text _ :: _, _, _, _, h | .list _ :: _, _, _, _, h | .tuple _ :: _, _, _, _, h
  | .descriptor _ :: _, _, _, _, h | .null :: _, _, _, _, h | .truth _ :: _, _, _, _, h
  | .int _ :: _, _, _, _, h | .real _ :: _, _, _, _, h | .nan _ :: _, _, _, _, h
  | .bytes _ :: _, _, _, _, h | .record _ :: _, _, _, _, h | .view _ :: _, _, _, _, h
  | .faulty _ :: _, _, _, _, h | .expectation _ :: _, _, _, _, h | .ok _ :: _, _, _, _, h
  | .err _ :: _, _, _, _, h | .exn _ :: _, _, _, _, h | .kind _ :: _, _, _, _, h
  | .function _ :: _, _, _, _, h | .computation _ :: _, _, _, _, h
  | .coroutine _ :: _, _, _, _, h | .future _ :: _, _, _, _, h | .done .. :: _, _, _, _, h
  | .settled .. :: _, _, _, _, h | .broken .. :: _, _, _, _, h =>
    spelled_of_plain (fun _ => by simp) h
termination_by structural items => items

theorem spelled_of_parseMembers : (vs : List Value) → ∀ ds, areWritten vs = true →
    parseMembers vs = .ok ds → ∃ ms : List Descriptor, ds = ms.map .descriptor ∧
      (∀ m ∈ ms, WellFormed m) ∧ bareMembers ds = ds ∧ wiresOf ds = .ok (canonicalMembers vs)
  | [], _, _, h => by
    obtain rfl := Except.ok.inj h
    exact ⟨[], rfl, fun _ hm => (by cases hm), rfl, rfl⟩
  | v :: vs, ds, hw, h => by
    obtain ⟨hv, hvs⟩ := Bool.and_eq_true_iff.1 hw
    obtain ⟨w, ws, ⟨d, hd, rfl⟩, hws, rfl⟩ := List.forall₂_cons_left_iff.1 (parseMembers_eq_ok.1 h)
    have hspelled := spelled_of_parse v d hv hd
    obtain ⟨ms, rfl, hwell, hbare, hwires⟩ :=
      spelled_of_parseMembers vs ws hvs (parseMembers_eq_ok.2 hws)
    refine ⟨d :: ms, rfl, List.forall_mem_cons.2 ⟨hspelled.wellFormed, hwell⟩, ?_, ?_⟩
    · rw [bareMembers, bareMember, hspelled.bare, hbare]
    · rw [wiresOf, wireOfMember, hspelled.wire, hwires]
      rfl
termination_by structural vs => vs

end

/-! ## Equal descriptors and equal spellings -/

/-- The members of a group are written one by one. -/
theorem wiresOf_map {members : List Descriptor} {ws : List Value}
    (h : wiresOf (members.map .descriptor) = .ok ws) :
    List.Forall₂ (fun m w => wireOf m = .ok w) members ws := by
  induction members generalizing ws with
  | nil =>
    obtain rfl := Except.ok.inj h
    exact .nil
  | cons m members ih =>
    rw [List.map_cons, wiresOf, wireOfMember] at h
    cases hw : wireOf m with
    | error f => rw [hw] at h; cases h
    | ok w =>
      cases hrest : wiresOf (members.map .descriptor) with
      | error f => rw [hw, hrest] at h; cases h
      | ok rest =>
        rw [hw, hrest] at h
        obtain rfl := Except.ok.inj h
        exact .cons hw (ih hrest)

/-- A group is written as a list that begins with its mode. -/
theorem wireOf_group {d : Descriptor} {members : List Descriptor} {w : Value}
    (mode : d.mode = .parallel) (args : d.args = members.map .descriptor) (h : wireOf d = .ok w) :
    ∃ ws, w = .list (.mode .parallel :: ws) ∧
      List.Forall₂ (fun m w => wireOf m = .ok w) members ws := by
  obtain ⟨m, p, as, site⟩ := d
  obtain rfl : m = .parallel := mode
  obtain rfl : as = members.map .descriptor := args
  rw [wireOf] at h
  cases hws : wiresOf (members.map .descriptor) with
  | error f => rw [hws] at h; cases h
  | ok ws =>
    rw [hws] at h
    exact ⟨ws, (Except.ok.inj h).symm, wiresOf_map hws⟩

/-- A call is not written as a list that begins with the mode of a group. -/
theorem wireOf_call {d : Descriptor} {w : Value} (single : d.mode ≠ .parallel)
    (h : wireOf d = .ok w) :
    w = .list (if d.mode = .direct then .list d.path :: d.args
      else .mode .callback :: .list d.path :: d.args) := by
  obtain ⟨m, p, args, site⟩ := d
  cases m with
  | parallel => exact absurd rfl single
  | direct => exact (Except.ok.inj h).symm
  | callback => exact (Except.ok.inj h).symm

/-- Calls are equal exactly when they are written as equal lists. -/
theorem same_wire_calls {d e : Descriptor} (single : d.mode ≠ .parallel)
    (single' : e.mode ≠ .parallel) {v w : Value} (hv : wireOf d = .ok v) (hw : wireOf e = .ok w) :
    Value.same v w = d.same e := by
  obtain rfl := wireOf_call single hv
  obtain rfl := wireOf_call single' hw
  obtain ⟨m, p, args, site⟩ := d
  obtain ⟨m', p', args', site'⟩ := e
  cases m with
  | parallel => exact absurd rfl single
  | direct =>
    cases m' with
    | parallel => exact absurd rfl single'
    | direct => rfl
    | callback => rfl
  | callback =>
    cases m' with
    | parallel => exact absurd rfl single'
    | direct => rfl
    | callback => rfl

/-- Groups are equal exactly when they are written as equal lists, if that is so of their
members. -/
theorem sameAll_wires {members members' : List Descriptor} {vs ws : List Value}
    (hvs : List.Forall₂ (fun m w => wireOf m = .ok w) members vs)
    (hws : List.Forall₂ (fun m w => wireOf m = .ok w) members' ws)
    (each : ∀ m ∈ members, ∀ m' ∈ members', ∀ v w, wireOf m = .ok v → wireOf m' = .ok w →
      Value.same v w = m.same m') :
    Value.sameAll vs ws =
      Value.sameAll (members.map .descriptor) (members'.map .descriptor) := by
  induction hvs generalizing members' ws with
  | nil => cases hws <;> rfl
  | @cons m v members vs hm _ ih =>
    cases hws with
    | nil => rfl
    | @cons m' w members' ws hm' hrest =>
      have hhead := each m (List.mem_cons_self ..) m' (List.mem_cons_self ..) v w hm hm'
      have htail := ih hrest fun m hm m' hm' =>
        each m (List.mem_cons_of_mem _ hm) m' (List.mem_cons_of_mem _ hm')
      rw [Value.sameAll, hhead, htail]
      rfl

/-- **Well-formed descriptors are equal exactly when they are written as equal lists.** -/
theorem WellFormed.same_wire {d e : Descriptor} (h : WellFormed d) (k : WellFormed e)
    {v w : Value} (hv : wireOf d = .ok v) (hw : wireOf e = .ok w) :
    Value.same v w = d.same e := by
  induction h generalizing e v w with
  | @call d single _ _ =>
    cases k with
    | call single' _ _ => exact same_wire_calls single single' hv hw
    | group mode' _ hargs' _ =>
      obtain rfl := wireOf_call single hv
      obtain ⟨ws, rfl, -⟩ := wireOf_group mode' hargs' hw
      obtain ⟨m, p, args, site⟩ := d
      obtain ⟨m', p', args', site'⟩ := e
      obtain rfl : m' = .parallel := mode'
      cases m with
      | parallel => exact absurd rfl single
      | direct => rfl
      | callback => rfl
  | @group d members mode path hargs each ih =>
    obtain ⟨vs, rfl, hvs⟩ := wireOf_group mode hargs hv
    obtain ⟨m, p, args, site⟩ := d
    obtain ⟨m', p', args', site'⟩ := e
    obtain rfl : m = .parallel := mode
    cases k with
    | call single' _ _ =>
      obtain rfl := wireOf_call single' hw
      cases m' with
      | parallel => exact absurd rfl single'
      | direct => rfl
      | callback => rfl
    | @group _ members' mode' path' hargs' each' =>
      obtain ⟨ws, rfl, hws⟩ := wireOf_group mode' hargs' hw
      obtain rfl : p = [] := path
      obtain rfl : p' = [] := path'
      obtain rfl : args = members.map .descriptor := hargs
      obtain rfl : args' = members'.map .descriptor := hargs'
      obtain rfl : m' = .parallel := mode'
      have hmembers := sameAll_wires hvs hws fun m hm m' hm' v w hv hw =>
        ih m hm (each' m' hm') hv hw
      exact hmembers

/-- **Written form and parsed form are inverse up to spelling.**

* A well-formed descriptor is written, and what is read again equals it; it is the descriptor
  without any place of creation.
* What has been read off a value that is spelled out is written as the canonical spelling of
  the value, which is one of the canonical spellings, is read in the same way, and stays as it
  is when it is made canonical again.
* Two such values are read as equal descriptors exactly when their canonical spellings are
  equal. -/
theorem wire_form_inverts_reading :
    (∀ d : Descriptor, WellFormed d → ∃ w e, d.toWire = .ok w ∧ Descriptor.parse w = .ok e ∧
      Value.equal (.descriptor e) (.descriptor d) = true ∧ e = bareOf d ∧ Unsited e) ∧
    (∀ (w : Value) (d : Descriptor), isWritten w = true → Descriptor.parse w = .ok d →
      d.toWire = .ok (canonical w) ∧ Canonical (canonical w) ∧
        Descriptor.parse (canonical w) = .ok d ∧ canonical (canonical w) = canonical w) ∧
    ∀ (v w : Value) (d e : Descriptor), isWritten v = true → isWritten w = true →
      Descriptor.parse v = .ok d → Descriptor.parse w = .ok e →
        (Value.equal (.descriptor d) (.descriptor e) = true ↔
          Value.equal (canonical v) (canonical w) = true) := by
  refine ⟨fun d hd => ?_, fun w d hw hparse => ?_, fun v w d e hv hw hd he => ?_⟩
  · obtain ⟨w, hwire, -, hparse⟩ := hd.exists_wire
    exact ⟨w, bareOf d, hwire, hparse, sameDescriptor_bareOf d, rfl, hd.unsited_bareOf⟩
  · have hspelled := spelled_of_parse w d hw hparse
    obtain ⟨c, hc, hcanonical, hread⟩ := hspelled.wellFormed.exists_wire
    obtain rfl : canonical w = c := Except.ok.inj (hspelled.wire.symm.trans hc)
    rw [hspelled.bare] at hread
    exact ⟨hspelled.wire, hcanonical, hread, hcanonical.canonical_eq⟩
  · have hspelled := spelled_of_parse v d hv hd
    have kspelled := spelled_of_parse w e hw he
    have hsame : (canonical v).same (canonical w) = d.same e :=
      hspelled.wellFormed.same_wire kspelled.wellFormed hspelled.wire kspelled.wire
    have hequal : Value.equal (canonical v) (canonical w) = (canonical v).same (canonical w) := by
      obtain ⟨c, hc, hcanonical, -⟩ := hspelled.wellFormed.exists_wire
      obtain rfl : canonical v = c := Except.ok.inj (hspelled.wire.symm.trans hc)
      generalize canonical v = c at hcanonical
      cases hcanonical <;> rfl
    rw [hequal, hsame]
    rfl

/-- A group that is spelled in an unusual way: a tuple, with a marked direct call and a path
that is a tuple. -/
def oddGroup : Value :=
  .tuple [.mode .parallel, .tuple [.mode .direct, .text "a", .int 1],
    .list [.mode .callback, .tuple [.text "b", .text "c"], .list [.text "d"]]]

/-- The descriptor that the group is read as. -/
def oddDescriptor : Descriptor :=
  ⟨.parallel, [], [.descriptor ⟨.direct, [.text "a"], [.int 1], none⟩,
    .descriptor ⟨.callback, [.text "b", .text "c"], [.list [.text "d"]], none⟩], none⟩

/-- The group is written with lists only; a number that is equal to the argument makes no
difference. -/
theorem odd_group_is_written :
    Descriptor.parse oddGroup = .ok oddDescriptor ∧
      oddDescriptor.toWire = .ok (.list [.mode .parallel, .list [.list [.text "a"], .int 1],
        .list [.mode .callback, .list [.text "b", .text "c"], .list [.text "d"]]]) ∧
      (∃ w e, oddDescriptor.toWire = .ok w ∧ Descriptor.parse w = .ok e ∧ Unsited e) ∧
      Value.equal (canonical (.list [.text "a", .truth true]))
        (canonical (.tuple [.mode .direct, .list [.text "a"], .int 1])) = true := by
  obtain ⟨hwrites, hreads, hequal⟩ := wire_form_inverts_reading
  have hsegment : ∀ names : List String, (∀ s ∈ names, s ≠ "") →
      ∀ s ∈ names.map Value.text, s.isSegment = true := by
    intro names h s hs
    obtain ⟨name, hname, rfl⟩ := List.mem_map.1 hs
    simpa [Value.isSegment] using h name hname
  let members : List Descriptor := [⟨.direct, [.text "a"], [.int 1], none⟩,
    ⟨.callback, [.text "b", .text "c"], [.list [.text "d"]], none⟩]
  have hmembers : ∀ m ∈ members, WellFormed m := by
    intro m hm
    rcases List.mem_cons.1 hm with rfl | hm
    · exact .call (by decide) (List.cons_ne_nil _ _) (hsegment ["a"] (by simp))
    · obtain rfl := List.mem_singleton.1 hm
      exact .call (by decide) (List.cons_ne_nil _ _) (hsegment ["b", "c"] (by simp))
  have hwell : WellFormed oddDescriptor := .group rfl rfl rfl hmembers
  obtain ⟨w, e, hwire, hparse, -, -, hunsited⟩ := hwrites oddDescriptor hwell
  exact ⟨rfl, (hreads oddGroup oddDescriptor rfl rfl).1, ⟨w, e, hwire, hparse, hunsited⟩,
    (hequal _ _ _ _ rfl rfl rfl rfl).1 (by decide)⟩

end DescribedEffects
