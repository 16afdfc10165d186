import DescribedEffects.Proofs.Descriptor.Shapes
import DescribedEffects.Proofs.Descriptor.Spelling
import DescribedEffects.Proofs.Refusals

/-!
# What is accepted, and what of it is valid

Reading an item is the only check that stands between a value and everything that acts on
descriptors: the walk through the context, the tasks of a group, the shape and the written form.
None of these looks again.  So it matters what has been established once an item is accepted.

An item that is written out is checked element by element.  A descriptor that has been made
before is accepted as it stands, at the top or as an element, and making one checks nothing.
Hence what is accepted is well formed exactly if every such descriptor was (`wellFormed_iff`):
this is the one gap, and `handmade_descriptors_are_passed_on` goes through it twice, with an
empty path and with a group one of whose members is none.

Where the gap is closed everything else follows: shape and written form are there, every walk on
behalf of the effect goes along a path that has a segment and so ends strictly inside the context
(`sizeOf_lookup_lt`), and no member is refused once another has been dispatched.
-/

namespace DescribedEffects

/-! ## Walking into a context -/

namespace Context

/-- What a mapping holds is smaller than the mapping. -/
theorem sizeOf_atKey_lt {c s v : Value} (h : Value.atKey s c = .ok v) : sizeOf v < sizeOf c := by
  have hfind : Value.find? s c.entries = some v := by
    unfold Value.atKey at h
    split at h
    · cases h
    · split at h
      · cases h
      · split at h
        · next w hw => rw [hw, Except.ok.inj h]
        · cases h
  obtain ⟨⟨k, w⟩, hentry, rfl⟩ := Option.map_eq_some_iff.1 hfind
  have hmem := List.mem_of_find?_eq_some hentry
  have hsize := List.sizeOf_lt_of_mem hmem
  have hshows : c = .record c.entries ∨ c = .view c.entries := by
    cases c with
    | record es => exact .inl rfl
    | view es => exact .inr rfl
    | _ => cases hmem
  generalize c.entries = es at hsize hshows
  rcases hshows with rfl | rfl <;> simp at hsize ⊢ <;> omega

theorem sizeOf_enter_lt {c s v : Value} (h : enter c s = .ok v) : sizeOf v < sizeOf c := by
  unfold enter at h
  split at h
  · split at h
    · next w hw =>
      cases h
      exact sizeOf_atKey_lt hw
    · split at h <;> cases h
    · cases h
    · cases h
  · cases h

/-- **A walk with a segment ends strictly inside the context.** -/
theorem sizeOf_lookup_lt {c v : Value} {p : List Value} (h : lookup c p = .ok v) (hp : p ≠ []) :
    sizeOf v < sizeOf c := by
  induction p generalizing c with
  | nil => exact absurd rfl hp
  | cons s rest ih =>
    rw [lookup_cons] at h
    cases henter : enter c s with
    | error f => rw [henter] at h; cases h
    | ok w =>
      rw [henter] at h
      have hw := sizeOf_enter_lt henter
      cases rest with
      | nil =>
        cases h
        exact hw
      | cons s' rest => exact (ih h (List.cons_ne_nil _ _)).trans hw

end Context

/-! ## What is accepted -/

/-- What is read as a well-formed descriptor is a proper item. -/
theorem WellFormed.proper {d : Descriptor} (h : WellFormed d) {raw : Value}
    (reads : Descriptor.parse raw = .ok d) : Proper raw := by
  induction h generalizing raw with
  | call single nonempty segments =>
    by_cases hmade : ∃ e, raw = .descriptor e
    · obtain ⟨e, rfl⟩ := hmade
      obtain rfl := Except.ok.inj reads
      exact .made (.call single nonempty segments)
    · refine .single (fun members sequence => ?_) fun e he => hmade ⟨e, he⟩
      obtain ⟨es, rfl, -⟩ := parse_group sequence reads
      exact single rfl
  | @group d members mode path args each ih =>
    by_cases hmade : ∃ e, raw = .descriptor e
    · obtain ⟨e, rfl⟩ := hmade
      obtain rfl := Except.ok.inj reads
      exact .made (.group mode path args each)
    by_cases hgroup : ∃ items, IsSequenceOf raw (.mode .parallel :: items)
    · obtain ⟨items, sequence⟩ := hgroup
      obtain ⟨es, rfl, hes⟩ := parse_group sequence reads
      obtain rfl : es = members := List.map_injective_iff.2 (fun _ _ => Value.descriptor.inj) args
      refine .group sequence fun v hv => ?_
      obtain ⟨i, hi, rfl⟩ := List.mem_iff_getElem.1 hv
      have hlength : i < es.length := hes.length_eq ▸ hi
      exact ih _ (List.getElem_mem hlength) (hes.get hi hlength)
    · exact .single (fun items sequence => hgroup ⟨items, sequence⟩) fun e he => hmade ⟨e, he⟩

/-- **What is accepted is well formed exactly if the descriptors in it are.** -/
theorem wellFormed_iff {raw : Value} {d : Descriptor} (reads : Descriptor.parse raw = .ok d) :
    WellFormed d ↔ Proper raw :=
  ⟨fun h => h.proper reads, fun h => h.wellFormed reads⟩

/-- A text that stands for a path is one segment, and is not taken apart. -/
theorem path_of_text {raw : Value} {d : Descriptor} {s : String} {args : List Value}
    (reads : Descriptor.parse raw = .ok d)
    (sequence : IsSequenceOf raw (.text s :: args) ∨
      ∃ m, m ≠ .parallel ∧ IsSequenceOf raw (.mode m :: .text s :: args)) :
    d.path = [.text s] := by
  have hcall : ∀ m, readCall raw m (.text s :: args) = .ok d → d.path = [.text s] := by
    intro m h
    obtain ⟨path, args', p, hitems, hp, rfl⟩ := readCall_eq_ok.1 h
    cases hitems
    cases pathOf_eq_ok_iff.1 hp with
    | name => rfl
  rcases sequence with sequence | ⟨m, single, sequence⟩
  · rw [parse_of_sequence sequence, parseItems_of_unmarked _ (by simp)] at reads
    exact hcall _ reads
  · rw [parse_of_sequence sequence, parseItems_of_marked _ single] at reads
    exact hcall _ reads

namespace EventLoop

variable {σ : Type}

/-- **An effect is performed soundly**: whatever walk through the context is made on its behalf
goes along a path of segments and does not come back with the context, and no task of a group is
told to perform something that is no descriptor. -/
structure SoundlyPerformed (H : Host σ) (context : Value) (a : State σ) (t : Nat)
    (d : Descriptor) : Prop where
  path : ∀ b k e, OnBehalf H context a t d b k e → e.mode ≠ .parallel →
    e.path ≠ [] ∧ (∀ s ∈ e.path, s.isSegment = true) ∧ Context.lookup context e.path ≠ .ok context
  whole : NeverRefused H context a t d

variable {H : Host σ} {context : Value} {host : σ} {number : Nat}
  {earlier : List (Nat × Outcome)} {errand : Errand} {a : State σ} {t : Nat} {d : Descriptor}

theorem soundlyPerformed_of_wellFormed
    (reached : Transition.Reaches (step H context) (State.start host number earlier errand) a)
    (well : WellFormed d) : SoundlyPerformed H context a t d where
  path b k e h single := by
    cases wellFormed_of_onBehalf reached well h with
    | call _ nonempty segments =>
      exact ⟨nonempty, segments, fun hwhole =>
        absurd (Context.sizeOf_lookup_lt hwhole nonempty) (lt_irrefl _)⟩
    | group mode => exact absurd mode single
  whole := neverRefused_of_wellFormed reached well

end EventLoop

/-- **When what is accepted is valid.**  Let an item be read as a descriptor.  It is well formed
exactly if every descriptor that was made before and stands in the item as an element is.

And in that case everything that relies on it is safe: the descriptor has a shape and a written
form, a text in the place of a path is one segment, and wherever it is performed, nothing that is
done on its behalf walks along an empty path, finds the whole context or comes upon something
that is no descriptor. -/
theorem accepted_items_are_valid_iff {item : Value} {d : Descriptor}
    (accepted : Descriptor.parse item = .ok d) :
    (WellFormed d ↔ Proper item) ∧
    (∀ s args, (IsSequenceOf item (.text s :: args) ∨
      ∃ m, m ≠ .parallel ∧ IsSequenceOf item (.mode m :: .text s :: args)) → d.path = [.text s]) ∧
    (Proper item → (∃ s, d.shape = .ok s) ∧ (∃ w, d.toWire = .ok w) ∧
      ∀ (σ : Type) (H : Host σ) (context : Value) host number earlier errand a t goal,
        Transition.Reaches (EventLoop.step H context)
          (EventLoop.State.start host number earlier errand) a →
        a.control = .perform t goal d → EventLoop.SoundlyPerformed H context a t d) := by
  refine ⟨wellFormed_iff accepted, fun s args => path_of_text accepted, fun proper => ?_⟩
  have hwell := proper.wellFormed accepted
  obtain ⟨w, hw, -⟩ := hwell.exists_wire
  exact ⟨hwell.assembled.exists_shape, ⟨w, hw⟩, fun σ H context host number earlier errand a t goal
    reached _ => EventLoop.soundlyPerformed_of_wellFormed reached hwell⟩

/-- What is accepted for the sound group is performed soundly. -/
theorem soundGroup_is_valid :
    let context : Value := .record [(.text "a", .int 1), (.text "b", .int 2)]
    let start : EventLoop.State (Site (List Request)) :=
      EventLoop.State.start ⟨[], 0, 0⟩ 0 [] (.perform soundGroup)
    ∃ d a, Descriptor.parse soundGroup = .ok d ∧ WellFormed d ∧
      Transition.Reaches (EventLoop.step EventLoop.hasty.still context) start a ∧
      a.control = .perform 0 .answer d ∧
      EventLoop.SoundlyPerformed EventLoop.hasty.still context a 0 d := by
  intro context start
  let d : Descriptor := ⟨.parallel, [], [.descriptor ⟨.direct, [.text "a"], [], none⟩,
    .descriptor ⟨.direct, [.text "b"], [], none⟩], none⟩
  let a := { start with ready := [], tasks := [⟨.running, 0⟩], control := .perform 0 .answer d }
  have hreached : Transition.Reaches (EventLoop.step EventLoop.hasty.still context) start a :=
    .head (t := { start with batch := 1 }) rfl (.head rfl (.refl _))
  have hwell : WellFormed d := by
    have hsegment (s : String) (hs : s ≠ "") : ∀ v ∈ [Value.text s], v.isSegment = true := by
      simp [Value.isSegment, hs]
    have hargs : d.args = [(⟨.direct, [.text "a"], [], none⟩ : Descriptor),
        ⟨.direct, [.text "b"], [], none⟩].map .descriptor := rfl
    refine .group rfl rfl hargs fun m hm => ?_
    rcases List.mem_cons.1 hm with rfl | hm
    · exact .call (by decide) (List.cons_ne_nil _ _) (hsegment "a" (by decide))
    · obtain rfl := List.mem_singleton.1 hm
      exact .call (by decide) (List.cons_ne_nil _ _) (hsegment "b" (by decide))
  have accepted : Descriptor.parse soundGroup = .ok d := rfl
  obtain ⟨hiff, -, hsound⟩ := accepted_items_are_valid_iff accepted
  obtain ⟨-, -, hperformed⟩ := hsound (hiff.1 hwell)
  exact ⟨d, a, accepted, hwell, hreached, rfl, hperformed _ _ _ _ _ _ _ a 0 .answer hreached rfl⟩

/-! ## The gap -/

/-- A descriptor made without a path. -/
def pathless : Descriptor := ⟨.direct, [], [], none⟩

/-- A group made of a call and something that is no descriptor. -/
def halfGroup : Descriptor :=
  ⟨.parallel, [], [.descriptor ⟨.direct, [.text "f"], [], none⟩, .int 1], none⟩

/-- The context of both. -/
def handContext : Value := .record [(.text "f", .function "f")]

/-- One of them is performed. -/
def performByHand (d : Descriptor) : Finished (Site (List Request) × List Act) Value :=
  Arena.perform ⟨18, 0, [], handContext⟩ EventLoop.hasty.still.recorded (.descriptor d)
    (⟨[], 0, 0⟩, [])

/-- The verdict is a malformed-descriptor exception. -/
def isMalformed : Verdict Value → Bool
  | .error (.raised e) => decide (e.kind = .malformed)
  | _ => false

/-- The act is a call of a function without arguments. -/
def isPlainCall (name : String) : Act → Bool
  | .called (.function f) [] _ => f == name
  | _ => false

/-- **Descriptors that were made by hand are passed on.**  One without a path is accepted and is
not well formed, and it comes to the whole context.  A group that holds something else is
accepted as well: it has no shape and no written form, and its first member has been called when
the second is refused. -/
theorem handmade_descriptors_are_passed_on :
    (Descriptor.parse (.descriptor pathless) = .ok pathless ∧ ¬WellFormed pathless ∧
      (performByHand pathless).verdict = .ok handContext) ∧
    (Descriptor.parse (.descriptor halfGroup) = .ok halfGroup ∧ ¬WellFormed halfGroup ∧
      (∀ s, halfGroup.shape ≠ .ok s) ∧ (∀ w, halfGroup.toWire ≠ .ok w) ∧
      isMalformed (performByHand halfGroup).verdict = true ∧
      (performByHand halfGroup).host.2.any (isPlainCall "f") = true) := by
  refine ⟨⟨rfl, ?_, rfl⟩, rfl, ?_, nofun, nofun, by decide +kernel, by decide +kernel⟩
  · rintro (⟨_, nonempty, _⟩ | ⟨mode, _, _, _⟩)
    · exact nonempty rfl
    · cases mode
  · intro hwell
    have hmember : Value.int 1 ∈ halfGroup.args := by simp [halfGroup]
    obtain ⟨e, he, -⟩ := hwell.parse_member rfl hmember
    cases he

end DescribedEffects
