import DescribedEffects.Value.Access
import Mathlib.Logic.Basic

/-!
# Values without creation sites

A descriptor may say where it was created, and descriptors are values: they stand in lists, in
the arguments of other descriptors, in exceptions.  `Value.unsited` forgets every creation site
in a value, however deep.  It is the measure of "the same up to creation sites": two values are
that if they are equal without them.

Nothing that the library asks about a value depends on creation sites.  Each question of the
language of values has one lemma here that says so: what sort of value it is, how it is shown,
whether two values are the same, whether it can be a key, and what is found under a key.
-/

namespace DescribedEffects

mutual

/-- The value without creation sites. -/
def Value.unsited : Value → Value
  | .list vs => .list (Value.unsitedAll vs)
  | .tuple vs => .tuple (Value.unsitedAll vs)
  | .record es => .record (Value.unsitedEntries es)
  | .view es => .view (Value.unsitedEntries es)
  | .faulty e => .faulty (ExnOf.unsited e)
  | .descriptor d => .descriptor (DescriptorOf.unsited d)
  | .expectation x => .expectation (ExpectationOf.unsited x)
  | .ok v => .ok (Value.unsited v)
  | .err v => .err (Value.unsited v)
  | .exn e => .exn (ExnOf.unsited e)
  | .settled i v => .settled i (Value.unsited v)
  | .broken i e => .broken i (ExnOf.unsited e)
  | v => v
termination_by structural v => v

/-- The values, each without creation sites. -/
def Value.unsitedAll : List Value → List Value
  | [] => []
  | v :: vs => Value.unsited v :: Value.unsitedAll vs
termination_by structural vs => vs

/-- The entries, each without creation sites. -/
def Value.unsitedEntries : List (Value × Value) → List (Value × Value)
  | [] => []
  | e :: es => Value.unsitedEntry e :: Value.unsitedEntries es
termination_by structural es => es

/-- One entry without creation sites. -/
def Value.unsitedEntry : Value × Value → Value × Value
  | (k, v) => (Value.unsited k, Value.unsited v)
termination_by structural e => e

/-- The descriptor without creation sites, its own and those in its arguments. -/
def DescriptorOf.unsited : Descriptor → Descriptor
  | ⟨m, p, args, _⟩ => ⟨m, Value.unsitedAll p, Value.unsitedAll args, none⟩
termination_by structural d => d

/-- The expectation without creation sites. -/
def ExpectationOf.unsited : Expectation → Expectation
  | ⟨f, y, r⟩ => ⟨Value.unsited f, Value.unsited y, Value.unsitedRaises r⟩
termination_by structural x => x

/-- The failure that an expectation feeds back, if any, without creation sites. -/
def Value.unsitedRaises : Option Exn → Option Exn
  | none => none
  | some e => some (ExnOf.unsited e)
termination_by structural r => r

/-- The exception without creation sites. -/
def ExnOf.unsited : Exn → Exn
  | ⟨i, b⟩ => ⟨i, ExnBody.unsited b⟩
termination_by structural e => e

/-- What an exception says, without creation sites. -/
def ExnBody.unsited : ExnBody Value → ExnBody Value
  | .plain k args => .plain k (Value.unsitedAll args)
  | .malformed d r said => .malformed (Value.unsited d) (Value.unsited r) said
  | .notFound p segments s r =>
    .notFound (Value.unsited p) (Value.unsitedAll segments) (Value.unsited s) (Value.unsited r)
  | .execution f c => .execution (Value.unsited f) (Value.unsited c)
  | .unexpected a e i => .unexpected (Value.unsited a) (Value.unsited e) (Value.unsited i)
  | .unused rs => .unused (Value.unsitedAll rs)
termination_by structural b => b

end

/-- A result with its value and its error replaced. -/
def mapBoth {ε δ α β : Type} (f : ε → δ) (g : α → β) : Except ε α → Except δ β
  | .ok a => .ok (g a)
  | .error e => .error (f e)

/-- The outcome without creation sites. -/
abbrev unsitedOutcome : Outcome → Outcome := mapBoth ExnOf.unsited Value.unsited

namespace Value

@[simp] theorem unsitedAll_eq_map (vs : List Value) : unsitedAll vs = vs.map unsited := by
  induction vs with
  | nil => rfl
  | cons v vs ih => rw [unsitedAll, ih, List.map_cons]

@[simp] theorem unsitedEntries_eq_map (es : List (Value × Value)) :
    unsitedEntries es = es.map (Prod.map unsited unsited) := by
  induction es with
  | nil => rfl
  | cons e es ih =>
    obtain ⟨k, v⟩ := e
    rw [unsitedEntries, ih, List.map_cons]
    rfl

@[simp] theorem unsitedRaises_eq_map (r : Option Exn) :
    unsitedRaises r = r.map ExnOf.unsited := by
  cases r <;> rfl

/-! ## Sorts of values -/

section

variable (v : Value)

@[simp] theorem isComputation_unsited : v.unsited.isComputation = v.isComputation := by
  cases v <;> rfl

@[simp] theorem isCallable_unsited : v.unsited.isCallable = v.isCallable := by cases v <;> rfl

@[simp] theorem isAwaitable_unsited : v.unsited.isAwaitable = v.isAwaitable := by
  cases v <;> rfl

@[simp] theorem isMapping_unsited : v.unsited.isMapping = v.isMapping := by cases v <;> rfl

@[simp] theorem number?_unsited : v.unsited.number? = v.number? := by cases v <;> rfl

end

end Value

@[simp] theorem ExnBody.kind_unsited (b : ExnBody Value) : b.unsited.kind = b.kind := by
  cases b <;> rfl

namespace ExnOf

variable (e : Exn)

@[simp] theorem id_unsited : e.unsited.id = e.id := by
  obtain ⟨i, b⟩ := e
  rfl

@[simp] theorem kind_unsited : e.unsited.kind = e.kind := by
  obtain ⟨i, b⟩ := e
  exact ExnBody.kind_unsited b

@[simp] theorem isOrdinary_unsited : e.unsited.isOrdinary = e.isOrdinary := by
  simp only [isOrdinary, kind_unsited]

@[simp] theorem isVerdict_unsited : e.unsited.isVerdict = e.isVerdict := by
  simp only [isVerdict, kind_unsited]

@[simp] theorem isExhausted_unsited : e.unsited.isExhausted = e.isExhausted := by
  simp only [isExhausted, kind_unsited]

@[simp] theorem returned_unsited : e.unsited.returned = e.returned.unsited := by
  obtain ⟨i, b⟩ := e
  cases b with
  | plain k args => cases args <;> rfl
  | _ => rfl

end ExnOf

namespace Value

@[simp] theorem typeName_unsited (v : Value) : v.unsited.typeName = v.typeName := by
  cases v with
  | exn e => exact congrArg ExnKind.label (ExnOf.kind_unsited e)
  | _ => rfl

@[simp] theorem isMark_unsited (v : Value) : v.unsited.isMark = v.isMark := by
  cases v with
  | exn e => exact ExnOf.isExhausted_unsited e
  | _ => rfl

@[simp] theorem entries_unsited (v : Value) :
    v.unsited.entries = v.entries.map (Prod.map unsited unsited) := by
  cases v with
  | record es => exact unsitedEntries_eq_map es
  | view es => exact unsitedEntries_eq_map es
  | _ => rfl

/-! ## Equality -/

@[simp] theorem sameNumber_unsited (v w : Value) :
    sameNumber v w.unsited = sameNumber v w := by
  simp only [sameNumber, number?_unsited]

mutual

/-- **Equality does not depend on creation sites.** -/
theorem same_unsited : (v w : Value) → same v.unsited w.unsited = same v w
  | .truth b, w => sameNumber_unsited (.truth b) w
  | .int n, w => sameNumber_unsited (.int n) w
  | .real x, w => sameNumber_unsited (.real x) w
  | .list vs, w => by
    cases w with
    | list ws => exact sameAll_unsited vs ws
    | _ => rfl
  | .tuple vs, w => by
    cases w with
    | tuple ws => exact sameAll_unsited vs ws
    | _ => rfl
  | .record es, w => by
    have hes := sameEntries_unsited es w.entries
    rw [unsitedEntries_eq_map] at hes
    simp [unsited, same, hes]
  | .view es, w => by
    have hes := sameEntries_unsited es w.entries
    rw [unsitedEntries_eq_map] at hes
    simp [unsited, same, hes]
  | .faulty e, w => by simp [unsited, same]
  | .descriptor d, w => by
    cases w with
    | descriptor d' => exact sameDescriptor_unsited d d'
    | _ => rfl
  | .expectation x, w => by
    cases w with
    | expectation x' => exact sameExpectation_unsited x x'
    | _ => rfl
  | .ok v, w => by
    cases w with
    | ok w => exact same_unsited v w
    | _ => rfl
  | .err v, w => by
    cases w with
    | err w => exact same_unsited v w
    | _ => rfl
  | .exn e, w => by
    cases w with
    | exn e' => simp [unsited, same]
    | _ => rfl
  | .null, w | .nan _, w | .text _, w | .bytes _, w | .mode _, w | .kind _, w | .function _, w
  | .computation _, w | .coroutine _, w | .future _, w | .done .., w | .settled .., w
  | .broken .., w => by cases w <;> rfl
termination_by structural v => v

theorem sameAll_unsited : (vs ws : List Value) →
    sameAll (unsitedAll vs) (unsitedAll ws) = sameAll vs ws
  | [], ws => by cases ws <;> rfl
  | v :: vs, [] => rfl
  | v :: vs, w :: ws => by
    simp only [unsitedAll, sameAll, same_unsited v w, sameAll_unsited vs ws]
termination_by structural vs => vs

theorem sameEntries_unsited : (es bs : List (Value × Value)) →
    sameEntries (unsitedEntries es) (bs.map (Prod.map unsited unsited)) = sameEntries es bs
  | [], _ => rfl
  | e :: es, bs => by
    simp only [unsitedEntries, sameEntries, hasEntry_unsited e bs, sameEntries_unsited es bs]
termination_by structural es => es

theorem hasEntry_unsited : (e : Value × Value) → (bs : List (Value × Value)) →
    hasEntry (unsitedEntry e) (bs.map (Prod.map unsited unsited)) = hasEntry e bs
  | (k, v), bs => by
    have hany : ∀ b : Value × Value,
        (same k.unsited b.1.unsited && same v.unsited b.2.unsited) =
          (same k b.1 && same v b.2) := fun b => by
      rw [same_unsited k b.1, same_unsited v b.2]
    simp [unsitedEntry, hasEntry, List.any_map, Function.comp_def, hany]
termination_by structural e => e

theorem sameDescriptor_unsited : (d e : Descriptor) →
    sameDescriptor d.unsited e.unsited = sameDescriptor d e
  | ⟨m, p, args, _⟩, ⟨m', p', args', _⟩ => by
    simp only [DescriptorOf.unsited, sameDescriptor, sameAll_unsited p p',
      sameAll_unsited args args']
termination_by structural d => d

theorem sameExpectation_unsited : (x y : Expectation) →
    sameExpectation x.unsited y.unsited = sameExpectation x y
  | ⟨f, y, r⟩, ⟨f', y', r'⟩ => by
    have hid : ∀ r : Option Exn, (r.map ExnOf.unsited).map (·.id) = r.map (·.id) := fun r => by
      cases r <;> simp
    simp only [ExpectationOf.unsited, sameExpectation, same_unsited f f', same_unsited y y',
      unsitedRaises_eq_map, hid]
termination_by structural x => x

end

/-! ## Forgetting twice -/

mutual

@[simp] theorem unsited_unsited : (v : Value) → v.unsited.unsited = v.unsited
  | .list vs => congrArg Value.list (unsitedAll_unsited vs)
  | .tuple vs => congrArg Value.tuple (unsitedAll_unsited vs)
  | .record es => congrArg Value.record (unsitedEntries_unsited es)
  | .view es => congrArg Value.view (unsitedEntries_unsited es)
  | .faulty e => congrArg Value.faulty (exn_unsited_unsited e)
  | .descriptor d => congrArg Value.descriptor (descriptor_unsited_unsited d)
  | .expectation x => congrArg Value.expectation (expectation_unsited_unsited x)
  | .ok v => congrArg Value.ok (unsited_unsited v)
  | .err v => congrArg Value.err (unsited_unsited v)
  | .exn e => congrArg Value.exn (exn_unsited_unsited e)
  | .settled i v => congrArg (Value.settled i) (unsited_unsited v)
  | .broken i e => congrArg (Value.broken i) (exn_unsited_unsited e)
  | .null | .truth _ | .int _ | .real _ | .nan _ | .text _ | .bytes _ | .mode _ | .kind _
  | .function _ | .computation _ | .coroutine _ | .future _ | .done .. => rfl
termination_by structural v => v

theorem unsitedAll_unsited : (vs : List Value) → unsitedAll (unsitedAll vs) = unsitedAll vs
  | [] => rfl
  | v :: vs => congrArg₂ List.cons (unsited_unsited v) (unsitedAll_unsited vs)
termination_by structural vs => vs

theorem unsitedEntries_unsited : (es : List (Value × Value)) →
    unsitedEntries (unsitedEntries es) = unsitedEntries es
  | [] => rfl
  | e :: es => congrArg₂ List.cons (unsitedEntry_unsited e) (unsitedEntries_unsited es)
termination_by structural es => es

theorem unsitedEntry_unsited : (e : Value × Value) →
    unsitedEntry (unsitedEntry e) = unsitedEntry e
  | (k, v) => congrArg₂ Prod.mk (unsited_unsited k) (unsited_unsited v)
termination_by structural e => e

theorem descriptor_unsited_unsited : (d : Descriptor) → d.unsited.unsited = d.unsited
  | ⟨m, p, args, _⟩ => congrArg₂ (fun p args => (⟨m, p, args, none⟩ : Descriptor))
      (unsitedAll_unsited p) (unsitedAll_unsited args)
termination_by structural d => d

theorem expectation_unsited_unsited : (x : Expectation) → x.unsited.unsited = x.unsited
  | ⟨f, y, r⟩ => by
    simp only [ExpectationOf.unsited, unsited_unsited f, unsited_unsited y,
      raises_unsited_unsited r]
termination_by structural x => x

theorem raises_unsited_unsited : (r : Option Exn) →
    unsitedRaises (unsitedRaises r) = unsitedRaises r
  | none => rfl
  | some e => congrArg some (exn_unsited_unsited e)
termination_by structural r => r

theorem exn_unsited_unsited : (e : Exn) → e.unsited.unsited = e.unsited
  | ⟨i, b⟩ => congrArg (ExnOf.mk i) (body_unsited_unsited b)
termination_by structural e => e

theorem body_unsited_unsited : (b : ExnBody Value) → b.unsited.unsited = b.unsited
  | .plain k args => congrArg (ExnBody.plain k) (unsitedAll_unsited args)
  | .malformed d r said => by
    simp only [ExnBody.unsited, unsited_unsited d, unsited_unsited r]
  | .notFound p segments s r => by
    simp only [ExnBody.unsited, unsited_unsited p, unsitedAll_unsited segments,
      unsited_unsited s, unsited_unsited r]
  | .execution f c => congrArg₂ ExnBody.execution (unsited_unsited f) (unsited_unsited c)
  | .unexpected a e i => by
    simp only [ExnBody.unsited, unsited_unsited a, unsited_unsited e, unsited_unsited i]
  | .unused rs => congrArg ExnBody.unused (unsitedAll_unsited rs)
termination_by structural b => b

end

end Value

@[simp] theorem ExnOf.unsited_unsited (e : Exn) : e.unsited.unsited = e.unsited :=
  Value.exn_unsited_unsited e

@[simp] theorem DescriptorOf.unsited_unsited (d : Descriptor) : d.unsited.unsited = d.unsited :=
  Value.descriptor_unsited_unsited d

/-! ## Texts -/

@[simp] theorem ExnKind.shown_unsited {α : Type} (k : ExnKind) (args : List Value)
    (things : List α) : k.shown (args.map Value.unsited) things = k.shown args things := by
  have hnumbered : k.isNumbered (args.map Value.unsited) = k.isNumbered args := by
    simp only [ExnKind.isNumbered, List.length_map]
  unfold ExnKind.shown
  rw [hnumbered, List.getElem?_map]
  cases args[2]? with
  | none => rfl
  | some v => cases v <;> rfl

namespace Value

theorem displayDescriptor_mk (m : Mode) (p args : List Value) (site : Option String) :
    displayDescriptor ⟨m, p, args, site⟩ =
      "EffectDescriptor(mode=" ++ m.label ++ ", path=" ++ parenthesised (displayAll p) ++
        ", args=" ++ parenthesised (displayAll args) ++ ")" := rfl

theorem displayExpectation_mk (f y : Value) (r : Option Exn) :
    displayExpectation ⟨f, y, r⟩ =
      "Expectation(effect=" ++ display f ++ ", yields=" ++ display y ++
        ", raises=" ++ displayRaises r ++ ")" := rfl

mutual

/-- **What is shown of a value does not depend on creation sites.** -/
@[simp] theorem display_unsited : (v : Value) → v.unsited.display = v.display
  | .list vs => congrArg bracketed (displayAll_unsited vs)
  | .tuple vs => congrArg parenthesised (displayAll_unsited vs)
  | .record es => congrArg braced (displayEntries_unsited es)
  | .view es => by simp only [unsited, display, displayEntries_unsited es]
  | .faulty _ => rfl
  | .descriptor d => displayDescriptor_unsited d
  | .expectation x => displayExpectation_unsited x
  | .ok v => by simp only [unsited, display, display_unsited v]
  | .err v => by simp only [unsited, display, display_unsited v]
  | .exn e => displayExn_unsited e
  | .null | .truth _ | .int _ | .real _ | .nan _ | .text _ | .bytes _ | .mode _ | .kind _
  | .function _ | .computation _ | .coroutine _ | .future _ | .done .. | .settled ..
  | .broken .. => rfl
termination_by structural v => v

theorem displayAll_unsited : (vs : List Value) → displayAll (unsitedAll vs) = displayAll vs
  | [] => rfl
  | v :: vs => congrArg₂ List.cons (display_unsited v) (displayAll_unsited vs)
termination_by structural vs => vs

theorem displayEntries_unsited : (es : List (Value × Value)) →
    displayEntries (unsitedEntries es) = displayEntries es
  | [] => rfl
  | e :: es => congrArg₂ List.cons (displayEntry_unsited e) (displayEntries_unsited es)
termination_by structural es => es

theorem displayEntry_unsited : (e : Value × Value) →
    displayEntry (unsitedEntry e) = displayEntry e
  | (k, v) => by simp only [unsitedEntry, displayEntry, display_unsited k, display_unsited v]
termination_by structural e => e

theorem displayDescriptor_unsited : (d : Descriptor) →
    displayDescriptor d.unsited = displayDescriptor d
  | ⟨m, p, args, _⟩ => by
    rw [DescriptorOf.unsited, displayDescriptor_mk, displayDescriptor_mk, displayAll_unsited p,
      displayAll_unsited args]
termination_by structural d => d

theorem displayExpectation_unsited : (x : Expectation) →
    displayExpectation x.unsited = displayExpectation x
  | ⟨f, y, r⟩ => by
    rw [ExpectationOf.unsited, displayExpectation_mk, displayExpectation_mk, display_unsited f,
      display_unsited y, displayRaises_unsited r]
termination_by structural x => x

theorem displayRaises_unsited : (r : Option Exn) →
    displayRaises (unsitedRaises r) = displayRaises r
  | none => rfl
  | some e => displayExn_unsited e
termination_by structural r => r

theorem displayExn_unsited : (e : Exn) → displayExn e.unsited = displayExn e
  | ⟨_, b⟩ => displayBody_unsited b
termination_by structural e => e

theorem displayBody_unsited : (b : ExnBody Value) → displayBody b.unsited = displayBody b
  | .plain k args => by
    have hargs := displayAll_unsited args
    rw [unsitedAll_eq_map] at hargs
    simp only [ExnBody.unsited, displayBody, unsitedAll_eq_map, hargs, ExnKind.shown_unsited]
  | .malformed d r said => by simp only [ExnBody.unsited, displayBody, display_unsited d]
  | .notFound p segments s r => by
    simp only [ExnBody.unsited, displayBody, display_unsited p, display_unsited s]
  | .execution f c => by
    simp only [ExnBody.unsited, displayBody, display_unsited f, display_unsited c]
  | .unexpected a e i => by
    simp only [ExnBody.unsited, displayBody, display_unsited a, display_unsited e,
      display_unsited i]
  | .unused rs => by simp only [ExnBody.unsited, displayBody, displayAll_unsited rs]
termination_by structural b => b

end

/-! ## Keys -/

mutual

/-- **Whether a value can be a key does not depend on creation sites.** -/
@[simp] theorem unhashable?_unsited : (v : Value) → v.unsited.unhashable? = v.unhashable?
  | .tuple vs => unhashableAmong?_unsited vs
  | .descriptor d => unhashableDescriptor?_unsited d
  | .expectation x => unhashableExpectation?_unsited x
  | .ok v => unhashable?_unsited v
  | .err v => unhashable?_unsited v
  | .null | .truth _ | .int _ | .real _ | .nan _ | .text _ | .bytes _ | .list _ | .record _
  | .view _ | .faulty _ | .mode _ | .exn _ | .kind _ | .function _ | .computation _
  | .coroutine _ | .future _ | .done .. | .settled .. | .broken .. => rfl
termination_by structural v => v

theorem unhashableAmong?_unsited : (vs : List Value) →
    unhashableAmong? (unsitedAll vs) = unhashableAmong? vs
  | [] => rfl
  | v :: vs => congrArg₂ Option.or (unhashable?_unsited v) (unhashableAmong?_unsited vs)
termination_by structural vs => vs

theorem unhashableDescriptor?_unsited : (d : Descriptor) →
    unhashableDescriptor? d.unsited = unhashableDescriptor? d
  | ⟨_, p, args, _⟩ =>
    congrArg₂ Option.or (unhashableAmong?_unsited p) (unhashableAmong?_unsited args)
termination_by structural d => d

theorem unhashableExpectation?_unsited : (x : Expectation) →
    unhashableExpectation? x.unsited = unhashableExpectation? x
  | ⟨f, y, _⟩ => congrArg₂ Option.or (unhashable?_unsited f) (unhashable?_unsited y)
termination_by structural x => x

end

@[simp] theorem find?_unsited (key : Value) (es : List (Value × Value)) :
    find? key.unsited (es.map (Prod.map unsited unsited)) = (find? key es).map unsited := by
  have hkey : (fun e : Value × Value => same e.1 key.unsited) ∘ Prod.map unsited unsited =
      fun e => same e.1 key := funext fun e => same_unsited e.1 key
  unfold find?
  rw [List.find?_map, hkey]
  cases es.find? fun e => same e.1 key <;> rfl

end Value

/-! ## Faults -/

/-- The cause of a failure, without creation sites. -/
def ValueFault.unsited : ValueFault → ValueFault
  | .missingKey k => .missingKey k.unsited
  | .noAttribute v n => .noAttribute v.unsited n
  | f => f

/-- The exception for a failure says of its cause what the cause is. -/
@[simp] theorem ValueFault.body_unsited (f : ValueFault) : f.unsited.body = f.body.unsited := by
  cases f with
  | noAttribute v n =>
    have hmessage : attributeMessage v.unsited n = attributeMessage v n := by
      cases v with
      | kind k => rfl
      | exn e => simp only [attributeMessage, Value.unsited, Value.typeName, ExnOf.kind_unsited]
      | _ => rfl
    simp only [ValueFault.unsited, body, hmessage]
    rfl
  | _ => rfl

/-- Why an access failed, without creation sites. -/
def Refusal.unsited : Refusal → Refusal
  | .fault f => .fault f.unsited
  | .raised e => .raised e.unsited

/-- What a failed operation raises, without creation sites. -/
def Complaint.unsited : Complaint → Complaint
  | .make body => .make body.unsited
  | .pass e => .pass e.unsited

/-- A mapping that raises nothing of its own is asked for its entries. -/
theorem Value.atKey_of_quiet (key : Value) {v : Value} (quiet : ∀ e, v ≠ .faulty e) :
    atKey key v =
      match key.unhashable? with
      | some t => .error (.fault (.unhashable t))
      | none =>
        match find? key v.entries with
        | some w => .ok w
        | none => .error (.fault (.missingKey key)) := by
  cases v with
  | faulty e => exact absurd rfl (quiet e)
  | _ => rfl

/-- **What is found under a key does not depend on creation sites.** -/
theorem Value.atKey_unsited (key v : Value) :
    atKey key.unsited v.unsited = mapBoth Refusal.unsited unsited (atKey key v) := by
  by_cases hv : ∃ e, v = .faulty e
  · obtain ⟨e, rfl⟩ := hv
    rfl
  · have quiet : ∀ e, v ≠ .faulty e := fun e he => hv ⟨e, he⟩
    have kquiet : ∀ e, v.unsited ≠ .faulty e := by
      cases v with
      | faulty e => exact absurd rfl (quiet e)
      | _ => exact fun _ h => by cases h
    rw [atKey_of_quiet _ quiet, atKey_of_quiet _ kquiet, unhashable?_unsited, entries_unsited,
      find?_unsited]
    cases key.unhashable? with
    | some t => rfl
    | none => cases find? key v.entries <;> rfl

end DescribedEffects
