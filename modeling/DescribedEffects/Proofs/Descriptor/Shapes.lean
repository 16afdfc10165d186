import DescribedEffects.Descriptor.Shape
import DescribedEffects.Value.Equality
import Mathlib.Data.List.Forall2

/-!
# Descriptors and their shapes

The shape of a group is made of the shapes of its members, so it is there if every member of
every group is a descriptor, whatever their paths are (`Assembled`).  This is all that taking a
shape asks for; a well-formed descriptor has it, and so has a group put together by hand as long
as it is put together of descriptors.

Equal descriptors have equal shapes (`Assembled.same_shape`).  Equality compares arguments by
content, and in a group the members are the arguments: members that are equal are descriptors
together (`exists_members_of_same`), so the comparison goes down the two groups side by side and
forgets the arguments of the calls at the end of each branch.
-/

namespace DescribedEffects

/-- The members of every group are descriptors, down to the last. -/
inductive Assembled : Descriptor → Prop
  | call {d : Descriptor} (single : d.mode ≠ .parallel) : Assembled d
  | group {d : Descriptor} {members : List Descriptor} (mode : d.mode = .parallel)
      (args : d.args = members.map .descriptor) (each : ∀ m ∈ members, Assembled m) : Assembled d

theorem WellFormed.assembled {d : Descriptor} (h : WellFormed d) : Assembled d := by
  induction h with
  | call single _ _ => exact .call single
  | group mode _ args _ ih => exact .group mode args ih

/-- The shape of a single effect is what it says without its arguments. -/
theorem shape_of_single {d : Descriptor} (single : d.mode ≠ .parallel) :
    d.shape = .ok { d with args := [] } := by
  obtain ⟨m, p, args, site⟩ := d
  exact if_neg single

/-- The shape of a group is made of the shapes of its members. -/
theorem shape_of_group {d : Descriptor} {members shapes : List Descriptor}
    (mode : d.mode = .parallel) (args : d.args = members.map .descriptor)
    (each : List.Forall₂ (fun m s => m.shape = .ok s) members shapes) :
    d.shape = .ok { d with args := shapes.map .descriptor } := by
  obtain ⟨m, p, args', site⟩ := d
  obtain rfl : m = .parallel := mode
  obtain rfl : args' = members.map .descriptor := args
  have hshapes : shapesOf (members.map .descriptor) = .ok (shapes.map .descriptor) := by
    induction each with
    | nil => rfl
    | @cons m s members shapes hm _ ih =>
      have hmember : shapeOfMember (.descriptor m) = .ok (.descriptor s) :=
        congrArg (Except.map Value.descriptor) hm
      rw [List.map_cons, shapesOf, hmember, ih]
      rfl
  show shapeOf _ = _
  rw [shapeOf, if_pos rfl, hshapes]
  rfl

/-- **A descriptor whose groups are made of descriptors has a shape.** -/
theorem Assembled.exists_shape {d : Descriptor} (h : Assembled d) : ∃ s, d.shape = .ok s := by
  induction h with
  | call single => exact ⟨_, shape_of_single single⟩
  | @group d members mode args each ih =>
    obtain ⟨shapes, hshapes⟩ : ∃ shapes,
        List.Forall₂ (fun m s => DescriptorOf.shape m = .ok s) members shapes := by
      clear args each
      induction members with
      | nil => exact ⟨[], .nil⟩
      | cons m members ihs =>
        obtain ⟨s, hs⟩ := ih m (List.mem_cons_self ..)
        obtain ⟨shapes, hshapes⟩ := ihs fun m hm => ih m (List.mem_cons_of_mem _ hm)
        exact ⟨s :: shapes, .cons hs hshapes⟩
    exact ⟨_, shape_of_group mode args hshapes⟩

/-- What is equal to the members of a group are the members of a group. -/
theorem exists_members_of_same {members : List Descriptor} {vs : List Value}
    (h : Value.sameAll (members.map .descriptor) vs = true) :
    ∃ others : List Descriptor, vs = others.map .descriptor ∧
      List.Forall₂ (fun d e => d.same e = true) members others := by
  induction members generalizing vs with
  | nil =>
    obtain rfl : vs = [] := List.isEmpty_iff.1 h
    exact ⟨[], rfl, .nil⟩
  | cons d members ih =>
    cases vs with
    | nil => cases h
    | cons v vs =>
      obtain ⟨hv, hvs⟩ : Value.same (.descriptor d) v = true ∧
          Value.sameAll (members.map .descriptor) vs = true := by
        simpa only [List.map_cons, Value.sameAll, Bool.and_eq_true] using h
      cases v with
      | descriptor e =>
        obtain ⟨others, rfl, hothers⟩ := ih hvs
        exact ⟨e :: others, rfl, .cons hv hothers⟩
      | _ => cases hv

/-- Members that are equal one by one are equal together. -/
theorem sameAll_of_forall₂ {ds es : List Descriptor}
    (h : List.Forall₂ (fun d e => d.same e = true) ds es) :
    Value.sameAll (ds.map .descriptor) (es.map .descriptor) = true := by
  induction h with
  | nil => rfl
  | @cons d e ds es first _ ih =>
    have hfirst : Value.same (.descriptor d) (.descriptor e) = true := first
    simp only [List.map_cons, Value.sameAll, hfirst, ih, Bool.and_self]

/-- Descriptors are equal if their modes, paths and arguments are. -/
theorem DescriptorOf.same_iff {d e : Descriptor} :
    d.same e = true ↔ d.mode = e.mode ∧ Value.sameAll d.path e.path = true ∧
      Value.sameAll d.args e.args = true := by
  obtain ⟨m, p, args, site⟩ := d
  simp [DescriptorOf.same, Value.sameDescriptor, and_assoc]

/-- **Equal descriptors have equal shapes.**  It is enough that the groups of one of them are
made of descriptors. -/
theorem Assembled.same_shape {d e : Descriptor} (h : Assembled d) (same : d.same e = true) :
    ∃ s t, d.shape = .ok s ∧ e.shape = .ok t ∧ s.same t = true := by
  induction h generalizing e with
  | @call d single =>
    obtain ⟨mode, path, -⟩ := DescriptorOf.same_iff.1 same
    refine ⟨_, _, shape_of_single single, shape_of_single (mode ▸ single), ?_⟩
    exact DescriptorOf.same_iff.2 ⟨mode, path, rfl⟩
  | @group d members mode args each ih =>
    obtain ⟨hmode, path, hargs⟩ := DescriptorOf.same_iff.1 same
    rw [args] at hargs
    obtain ⟨others, hothers, hsame⟩ := exists_members_of_same hargs
    obtain ⟨ss, ts, hss, hts, hshapes⟩ : ∃ ss ts : List Descriptor,
        List.Forall₂ (fun m s => DescriptorOf.shape m = .ok s) members ss ∧
        List.Forall₂ (fun m s => DescriptorOf.shape m = .ok s) others ts ∧
        List.Forall₂ (fun d e => d.same e = true) ss ts := by
      clear args each hothers hargs
      induction hsame with
      | nil => exact ⟨[], [], .nil, .nil, .nil⟩
      | cons first _ ihs =>
        obtain ⟨s, t, hs, ht, hst⟩ := ih _ (List.mem_cons_self ..) first
        obtain ⟨ss, ts, hss, hts, hall⟩ := ihs fun m hm => ih m (List.mem_cons_of_mem _ hm)
        exact ⟨s :: ss, t :: ts, .cons hs hss, .cons ht hts, .cons hst hall⟩
    refine ⟨_, _, shape_of_group mode args hss, shape_of_group (hmode ▸ mode) hothers hts, ?_⟩
    exact DescriptorOf.same_iff.2 ⟨hmode, path, sameAll_of_forall₂ hshapes⟩

end DescribedEffects
