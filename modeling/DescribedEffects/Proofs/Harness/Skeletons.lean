import DescribedEffects.Proofs.Harness.Consumption
import DescribedEffects.Proofs.Value.Sameness

/-!
# What a loose match compares

A test that does not look at arguments holds the shapes of two descriptors against each other.
The shape of a group is made of the shapes of its members, which are arguments of the group; the
shape of a call has no arguments, whatever they are, and if one of them is a descriptor it goes
like any other.  So what is compared is the `Skeleton`: the mode and the path of every call, in
the tree of the groups.

Two well-formed descriptors have equal shapes exactly when they have one skeleton
(`WellFormed.same_shape_iff`).  The equality of shapes is that of values; it comes down to
identity because the segments of a path are texts (`sameAll_segments_iff`).

Taking the shape again changes nothing, and a shape is well formed if the descriptor is
(`WellFormed.exists_firm_shape`).
-/

namespace DescribedEffects

/-! ## Skeletons -/

/-- A value equals a segment only if it is the segment. -/
theorem same_segment_iff {s v : Value} (h : s.isSegment = true) : s.same v = true ↔ s = v := by
  cases s with
  | text a => cases v <;> simp [Value.same]
  | _ => cases h

/-- Paths are equal only if they are the same. -/
theorem sameAll_segments_iff {p q : List Value} (h : ∀ s ∈ p, s.isSegment = true) :
    Value.sameAll p q = true ↔ p = q := by
  induction p generalizing q with
  | nil => cases q <;> simp [Value.sameAll]
  | cons s p ih =>
    have hp := ih (q := q.tail) fun s hs => h s (List.mem_cons_of_mem _ hs)
    cases q with
    | nil => simp [Value.sameAll]
    | cons v q =>
      have hs := same_segment_iff (v := v) (h s (List.mem_cons_self ..))
      rw [Value.sameAll, Bool.and_eq_true, hs, List.cons.injEq]
      exact and_congr_right fun _ => hp

/-- The skeleton of a single effect is its mode and its path. -/
theorem skeleton_of_single {d : Descriptor} (single : d.mode ≠ .parallel) :
    d.skeleton? = some (.call d.mode d.path) := by
  obtain ⟨m, p, args, site⟩ := d
  exact if_neg single

/-- The skeleton of a group is made of the skeletons of its members. -/
theorem skeleton_of_group {d : Descriptor} {members : List Descriptor} {ks : List Skeleton}
    (mode : d.mode = .parallel) (args : d.args = members.map .descriptor)
    (each : List.Forall₂ (fun m k => m.skeleton? = some k) members ks) :
    d.skeleton? = some (.group ks) := by
  obtain ⟨m, p, args', site⟩ := d
  obtain rfl : m = .parallel := mode
  obtain rfl : args' = members.map .descriptor := args
  have hall : skeletonsOf? (members.map .descriptor) = some ks := by
    induction each with
    | nil => rfl
    | @cons m k members ks hm _ ih =>
      have hmember : skeletonOfMember? (.descriptor m) = some k := hm
      rw [List.map_cons, skeletonsOf?, hmember, ih]
      rfl
  show skeletonOf? _ = _
  rw [skeletonOf?, if_pos rfl, hall]
  rfl

theorem WellFormed.exists_skeleton {d : Descriptor} (h : WellFormed d) :
    ∃ k, d.skeleton? = some k := by
  induction h with
  | call single _ _ => exact ⟨_, skeleton_of_single single⟩
  | @group d members mode _ args _ ih =>
    have : Nonempty Skeleton := ⟨.group []⟩
    choose! skeleton hskeleton using ih
    have each : List.Forall₂ (fun m k => m.skeleton? = some k) members (members.map skeleton) :=
      List.forall₂_map_right_iff.2 (List.forall₂_same.2 hskeleton)
    exact ⟨_, skeleton_of_group mode args each⟩

/-! ## Shapes of well-formed descriptors -/

/-- **A well-formed descriptor has a well-formed shape, which is its own shape.** -/
theorem WellFormed.exists_firm_shape {d : Descriptor} (h : WellFormed d) :
    ∃ s, d.shape = .ok s ∧ WellFormed s ∧ s.shape = .ok s := by
  induction h with
  | @call d single nonempty segments =>
    exact ⟨_, shape_of_single single, .call single nonempty segments, shape_of_single single⟩
  | @group d members mode path args _ ih =>
    have : Nonempty Descriptor := ⟨d⟩
    choose! shape hshape using ih
    have each : List.Forall₂ (fun m s => m.shape = .ok s) members (members.map shape) :=
      List.forall₂_map_right_iff.2 (List.forall₂_same.2 fun m hm => (hshape m hm).1)
    have hall : ∀ s ∈ members.map shape, WellFormed s ∧ s.shape = .ok s := by
      intro s hs
      obtain ⟨m, hm, rfl⟩ := List.mem_map.1 hs
      exact (hshape m hm).2
    refine ⟨_, shape_of_group mode args each, .group mode path rfl fun s hs => (hall s hs).1, ?_⟩
    exact shape_of_group mode rfl (List.forall₂_same.2 fun s hs => (hall s hs).2)

/-- The members of two groups, compared one by one. -/
theorem sameAll_members_iff {ds es : List Descriptor} :
    Value.sameAll (ds.map .descriptor) (es.map .descriptor) = true ↔
      List.Forall₂ (fun d e => d.same e = true) ds es := by
  constructor
  · intro h
    obtain ⟨others, heq, hothers⟩ := exists_members_of_same h
    rwa [List.map_injective_iff.2 (fun _ _ => Value.descriptor.inj) heq]
  · exact sameAll_of_forall₂

/-- Relations that agree on the elements of two lists agree on the lists. -/
theorem forall₂_congr_of_mem {α β : Type} {R S : α → β → Prop} {as : List α} {bs : List β}
    (h : ∀ a ∈ as, ∀ b ∈ bs, (R a b ↔ S a b)) : List.Forall₂ R as bs ↔ List.Forall₂ S as bs := by
  induction as generalizing bs with
  | nil => simp only [List.forall₂_nil_left_iff]
  | cons a as ih =>
    cases bs with
    | nil => simp only [List.forall₂_nil_right_iff]
    | cons b bs =>
      have hfirst := h a (List.mem_cons_self ..) b (List.mem_cons_self ..)
      have hrest := ih fun a ha b hb => h a (List.mem_cons_of_mem _ ha) b (List.mem_cons_of_mem _ hb)
      rw [List.forall₂_cons, List.forall₂_cons, hfirst, hrest]

/-- Groups have equal shapes exactly if their members have, one by one. -/
theorem same_group_shape_iff {d e s t : Descriptor} {members others : List Descriptor}
    (mode : d.mode = .parallel) (mode' : e.mode = .parallel) (path : d.path = e.path)
    (args : d.args = members.map .descriptor) (args' : e.args = others.map .descriptor)
    {shape shape' : Descriptor → Descriptor} (each : ∀ m ∈ members, m.shape = .ok (shape m))
    (each' : ∀ m ∈ others, m.shape = .ok (shape' m)) (hs : d.shape = .ok s)
    (ht : e.shape = .ok t) :
    s.same t = true ↔
      List.Forall₂ (fun m n => (shape m).same (shape' n) = true) members others := by
  have hd := shape_of_group mode args (List.forall₂_map_right_iff.2 (List.forall₂_same.2 each))
  have he := shape_of_group mode' args' (List.forall₂_map_right_iff.2 (List.forall₂_same.2 each'))
  obtain rfl := Except.ok.inj (hd.symm.trans hs)
  obtain rfl := Except.ok.inj (he.symm.trans ht)
  rw [DescriptorOf.same_iff, sameAll_members_iff, List.forall₂_map_left_iff,
    List.forall₂_map_right_iff]
  have hpath : Value.sameAll d.path e.path = true := path ▸ Value.sameAll_self d.path
  simp [mode, mode', hpath]

/-- Groups have one skeleton exactly if their members have, one by one. -/
theorem group_skeleton_iff {d e : Descriptor} {members others : List Descriptor}
    (mode : d.mode = .parallel) (mode' : e.mode = .parallel)
    (args : d.args = members.map .descriptor) (args' : e.args = others.map .descriptor)
    (each : ∀ m ∈ members, WellFormed m) (each' : ∀ m ∈ others, WellFormed m) :
    d.skeleton? = e.skeleton? ↔
      List.Forall₂ (fun m n => m.skeleton? = n.skeleton?) members others := by
  have : Nonempty Skeleton := ⟨.group []⟩
  choose! k hk using fun m hm => (each m hm).exists_skeleton
  choose! k' hk' using fun m hm => (each' m hm).exists_skeleton
  have hd := skeleton_of_group mode args (List.forall₂_map_right_iff.2 (List.forall₂_same.2 hk))
  have he := skeleton_of_group mode' args' (List.forall₂_map_right_iff.2 (List.forall₂_same.2 hk'))
  have hmembers : List.Forall₂ (fun m n => m.skeleton? = n.skeleton?) members others ↔
      List.Forall₂ (fun m n => k m = k' n) members others :=
    forall₂_congr_of_mem fun m hm n hn => by rw [hk m hm, hk' n hn, Option.some.injEq]
  rw [hd, he, hmembers, Option.some.injEq, Skeleton.group.injEq, ← List.forall₂_eq_eq_eq,
    List.forall₂_map_left_iff, List.forall₂_map_right_iff]

/-- A shape has the mode of the descriptor. -/
theorem mode_of_shape {d s : Descriptor} (h : d.shape = .ok s) : s.mode = d.mode := by
  by_cases hmode : d.mode = .parallel
  · have hshape : d.shape = (shapesOf d.args).map fun ms => { d with args := ms } := by
      obtain ⟨m, p, args, site⟩ := d
      exact if_pos hmode
    rw [hshape] at h
    cases hs : shapesOf d.args with
    | error f => rw [hs] at h; cases h
    | ok ms =>
      rw [hs] at h
      cases h
      rfl
  · rw [shape_of_single hmode] at h
    cases h
    rfl

/-- Descriptors with one skeleton have one mode. -/
theorem mode_of_skeleton {d e : Descriptor} (h : d.skeleton? = e.skeleton?) : d.mode = e.mode := by
  have hgroup : ∀ d : Descriptor, d.mode = .parallel →
      d.skeleton? = (skeletonsOf? d.args).map .group := by
    intro d hmode
    obtain ⟨m, p, args, site⟩ := d
    exact if_pos hmode
  have hcall : ∀ d e : Descriptor, d.mode ≠ .parallel → e.mode = .parallel →
      d.skeleton? ≠ e.skeleton? := by
    intro d e single mode heq
    rw [skeleton_of_single single, hgroup e mode] at heq
    cases hks : skeletonsOf? e.args <;> rw [hks] at heq <;> cases heq
  by_cases hd : d.mode = .parallel
  · by_cases he : e.mode = .parallel
    · rw [hd, he]
    · exact absurd h.symm (hcall e d he hd)
  · by_cases he : e.mode = .parallel
    · exact absurd h (hcall d e hd he)
    · rw [skeleton_of_single hd, skeleton_of_single he, Option.some.injEq,
        Skeleton.call.injEq] at h
      exact h.1

/-- **Two well-formed descriptors have equal shapes exactly if they have one skeleton.** -/
theorem WellFormed.same_shape_iff {d e s t : Descriptor} (hd : WellFormed d) (he : WellFormed e)
    (hs : d.shape = .ok s) (ht : e.shape = .ok t) :
    s.same t = true ↔ d.skeleton? = e.skeleton? := by
  induction hd generalizing e s t with
  | @call d single _ segments =>
    cases he with
    | call single' _ _ =>
      obtain rfl := Except.ok.inj ((shape_of_single single).symm.trans hs)
      obtain rfl := Except.ok.inj ((shape_of_single single').symm.trans ht)
      rw [skeleton_of_single single, skeleton_of_single single', DescriptorOf.same_iff,
        sameAll_segments_iff segments]
      simp [Value.sameAll]
    | group mode' _ _ _ =>
      refine iff_of_false (fun hsame => single ?_) fun hone => single ?_
      · rw [← mode_of_shape hs, (DescriptorOf.same_iff.1 hsame).1, mode_of_shape ht, mode']
      · rw [mode_of_skeleton hone, mode']
  | @group d members mode path args each ih =>
    cases he with
    | call single' _ _ =>
      refine iff_of_false (fun hsame => single' ?_) fun hone => single' ?_
      · rw [← mode_of_shape ht, ← (DescriptorOf.same_iff.1 hsame).1, mode_of_shape hs, mode]
      · rw [← mode_of_skeleton hone, mode]
    | @group _ others mode' path' args' each' =>
      have : Nonempty Descriptor := ⟨d⟩
      choose! shape hshape using fun m hm => (each m hm).exists_firm_shape
      choose! shape' hshape' using fun m hm => (each' m hm).exists_firm_shape
      have hshapes := fun m hm => (hshape m hm).1
      have hshapes' := fun m hm => (hshape' m hm).1
      rw [same_group_shape_iff mode mode' (path.trans path'.symm) args args' hshapes hshapes' hs ht,
        group_skeleton_iff mode mode' args args' each each']
      exact forall₂_congr_of_mem fun m hm n hn =>
        ih m hm (each' n hn) (hshapes m hm) (hshapes' n hn)

/-- The members of a well-formed group are well-formed descriptors. -/
theorem WellFormed.exists_members {d : Descriptor} (h : WellFormed d) (mode : d.mode = .parallel) :
    ∃ ds : List Descriptor, d.args = ds.map .descriptor ∧ ∀ m ∈ ds, WellFormed m := by
  cases h with
  | call single _ _ => exact absurd mode single
  | group _ _ args each => exact ⟨_, args, each⟩

/-- Whatever the members of a well-formed group are taken to be, they are well formed. -/
theorem WellFormed.of_mem_members {d : Descriptor} (h : WellFormed d) (mode : d.mode = .parallel)
    {ds : List Descriptor} (args : d.args = ds.map .descriptor) : ∀ m ∈ ds, WellFormed m := by
  obtain ⟨ds', args', each⟩ := h.exists_members mode
  obtain rfl := List.map_injective_iff.2 (fun _ _ => Value.descriptor.inj) (args.symm.trans args')
  exact each

/-- **What a skeleton is made of**: the mode, and either the path or the skeletons of the
members. -/
theorem WellFormed.skeleton_iff {d e : Descriptor} (hd : WellFormed d) (he : WellFormed e) :
    d.skeleton? = e.skeleton? ↔ d.mode = e.mode ∧ (d.mode ≠ .parallel → d.path = e.path) ∧
      (d.mode = .parallel → ∃ ds es : List Descriptor, d.args = ds.map .descriptor ∧
        e.args = es.map .descriptor ∧
        List.Forall₂ (fun m n => m.skeleton? = n.skeleton?) ds es) := by
  constructor
  · intro hone
    have hmode := mode_of_skeleton hone
    refine ⟨hmode, fun single => ?_, fun mode => ?_⟩
    · rw [skeleton_of_single single, skeleton_of_single (hmode ▸ single), Option.some.injEq,
        Skeleton.call.injEq] at hone
      exact hone.2
    · obtain ⟨ds, args, each⟩ := hd.exists_members mode
      obtain ⟨es, args', each'⟩ := he.exists_members (hmode ▸ mode)
      exact ⟨ds, es, args, args',
        (group_skeleton_iff mode (hmode ▸ mode) args args' each each').1 hone⟩
  · rintro ⟨hmode, hpath, hmembers⟩
    by_cases mode : d.mode = .parallel
    · obtain ⟨ds, es, args, args', hall⟩ := hmembers mode
      have each := hd.of_mem_members mode args
      have each' := he.of_mem_members (hmode ▸ mode) args'
      exact (group_skeleton_iff mode (hmode ▸ mode) args args' each each').2 hall
    · rw [skeleton_of_single mode, skeleton_of_single (hmode ▸ mode), hmode, hpath mode]

/-! ## Loose matches -/

namespace Harness

/-- An expectation of a well-formed effect is met loosely by what has the skeleton of the
effect. -/
theorem meets_loosely_iff {d e : Descriptor} (hd : WellFormed d) (he : WellFormed e)
    {x : Expectation} (reads : x.descriptor = .ok d) :
    Meets false x e ↔ d.skeleton? = e.skeleton? := by
  obtain ⟨s, hs, -, -⟩ := hd.exists_firm_shape
  obtain ⟨t, ht, -, -⟩ := he.exists_firm_shape
  have hcompare : ExpectationOf.compare d e false = .ok (s.same t) := by
    unfold ExpectationOf.compare
    rw [hs, ht]
    rfl
  rw [← hd.same_shape_iff he hs ht]
  constructor
  · rintro ⟨expected, hreads, hmeets⟩
    obtain rfl := Except.ok.inj (hreads.symm.trans reads)
    exact Except.ok.inj (hcompare.symm.trans hmeets)
  · intro hsame
    exact ⟨d, reads, hcompare.trans (congrArg Except.ok hsame)⟩

/-- Every expectation of the first effect is met loosely by the second. -/
def MeetsLoosely (d e : Descriptor) : Prop :=
  ∀ x : Expectation, x.descriptor = .ok d → Meets false x e

theorem meetsLoosely_iff {d e : Descriptor} (hd : WellFormed d) (he : WellFormed e) :
    MeetsLoosely d e ↔ d.skeleton? = e.skeleton? :=
  ⟨fun h => (meets_loosely_iff hd he rfl).1 (h ⟨.descriptor d, .null, none⟩ rfl),
    fun h _ reads => (meets_loosely_iff hd he reads).2 h⟩

/-- **A loose match compares skeletons.**  Let two descriptors be well formed.

* An expectation of the first is met loosely by the second exactly if they have the same mode
  and, if they are groups, members that match one by one in this sense, and otherwise the same
  path; that is, if they have one skeleton.
* The shape of a well-formed descriptor is well formed, and it is its own shape.
* Equal descriptors have equal shapes. -/
theorem loose_match_compares_skeletons {d e : Descriptor} (hd : WellFormed d)
    (he : WellFormed e) :
    (∀ x : Expectation, x.descriptor = .ok d →
      (Meets false x e ↔ d.mode = e.mode ∧ (d.mode ≠ .parallel → d.path = e.path) ∧
        (d.mode = .parallel → ∃ ds es : List Descriptor, d.args = ds.map .descriptor ∧
          e.args = es.map .descriptor ∧ List.Forall₂ MeetsLoosely ds es)) ∧
      (Meets false x e ↔ d.skeleton? = e.skeleton?)) ∧
    (∃ s, d.shape = .ok s ∧ WellFormed s ∧ s.shape = .ok s) ∧
    (d.same e = true → ∃ s t, d.shape = .ok s ∧ e.shape = .ok t ∧ s.same t = true) := by
  refine ⟨fun x reads => ⟨?_, meets_loosely_iff hd he reads⟩, hd.exists_firm_shape,
    hd.assembled.same_shape⟩
  rw [meets_loosely_iff hd he reads, hd.skeleton_iff he]
  refine and_congr_right fun hmode => and_congr_right fun _ => forall_congr' fun mode => ?_
  refine exists_congr fun ds => exists_congr fun es => ?_
  refine and_congr_right fun args => and_congr_right fun args' => ?_
  have each := hd.of_mem_members mode args
  have each' := he.of_mem_members (hmode ▸ mode) args'
  exact forall₂_congr_of_mem fun m hm n hn => (meetsLoosely_iff (each m hm) (each' n hn)).symm

/-- A group of a call whose argument is a descriptor, and of a group. -/
def deepGroup (args : List Value) (site : Option String) : Descriptor :=
  ⟨.parallel, [], [.descriptor ⟨.direct, [.text "f"], args, site⟩,
    .descriptor ⟨.parallel, [], [.descriptor ⟨.callback, [.text "g"], args, none⟩], site⟩], none⟩

/-- Two such groups match, although one has other arguments and was made elsewhere. -/
theorem deep_groups_match :
    let made := Value.descriptor ⟨.direct, [.text "h"], [.int 1], none⟩
    let d := deepGroup [made] (some "here")
    let e := deepGroup [.int 2, .int 3] none
    WellFormed d ∧ WellFormed e ∧ Meets false ⟨.descriptor d, .null, none⟩ e ∧
      ∃ s, d.shape = .ok s ∧ WellFormed s ∧ s.shape = .ok s := by
  intro made d e
  have hsegment : ∀ name : String, name ≠ "" → ∀ v ∈ [Value.text name], v.isSegment = true :=
    fun name h v hv => by simpa [List.mem_singleton.1 hv, Value.isSegment] using h
  have hwell : ∀ args site, WellFormed (deepGroup args site) := by
    intro args site
    let call : Descriptor := ⟨.direct, [.text "f"], args, site⟩
    let inner : Descriptor := ⟨.callback, [.text "g"], args, none⟩
    have hcall : WellFormed call := .call (by rintro ⟨⟩) (by rintro ⟨⟩) (hsegment "f" (by decide))
    have hinner : WellFormed inner := .call (by rintro ⟨⟩) (by rintro ⟨⟩) (hsegment "g" (by decide))
    have hgroup : WellFormed ⟨.parallel, [], [inner].map .descriptor, site⟩ :=
      .group rfl rfl rfl (List.forall_mem_singleton.2 hinner)
    have hmembers : (deepGroup args site).args =
        [call, ⟨.parallel, [], [inner].map .descriptor, site⟩].map .descriptor := rfl
    exact .group rfl rfl hmembers
      (List.forall_mem_cons.2 ⟨hcall, List.forall_mem_singleton.2 hgroup⟩)
  obtain ⟨hmeets, hshape, -⟩ :=
    loose_match_compares_skeletons (hwell [made] (some "here")) (hwell [.int 2, .int 3] none)
  exact ⟨hwell _ _, hwell _ _, (hmeets ⟨.descriptor d, .null, none⟩ rfl).2.2 rfl, hshape⟩

end Harness
end DescribedEffects
