import DescribedEffects.Value.Equality

/-!
# A value is the same as itself

Whatever is found in a container is found there again: `Value.same` is reflexive, at every
value and through every kind of container.  This is more than can be said of equality, which
no NaN has even with itself.
-/

namespace DescribedEffects

/-- A number compares as equal to itself. -/
@[simp] theorem Binary64.Scaled.compare_self (x : Binary64.Scaled) : x.compare x = .eq := by
  cases x with
  | below => rfl
  | above => rfl
  | exact m e =>
    show Ord.compare (m * Int.pow 2 (e - e).toNat) (m * Int.pow 2 (e - e).toNat) = .eq
    exact compareOfLessAndEq_eq_eq Int.le_refl (fun {a b} => Int.not_le) |>.2 rfl

namespace Value

/-- A number is the same number as itself. -/
theorem sameNumber_self {v : Value} {x : Binary64.Scaled} (h : v.number? = some x) :
    sameNumber v v = true := by
  unfold sameNumber
  rw [h]
  simp

mutual

/-- **A value is the same as itself.** -/
theorem same_self : (v : Value) → same v v = true
  | .null => rfl
  | .truth _ => sameNumber_self rfl
  | .int _ => sameNumber_self rfl
  | .real _ => sameNumber_self rfl
  | .nan i => by simp [same]
  | .text s => by simp [same]
  | .bytes bs => by simp [same]
  | .list vs => sameAll_self vs
  | .tuple vs => sameAll_self vs
  | .record es => by simp [same, isMapping, entries, sameEntries_of_subset es es fun _ h => h]
  | .view es => by simp [same, isMapping, entries, sameEntries_of_subset es es fun _ h => h]
  | .faulty _ => rfl
  | .mode m => by simp [same]
  | .descriptor d => sameDescriptor_self d
  | .expectation e => sameExpectation_self e
  | .ok v => same_self v
  | .err v => same_self v
  | .exn e => by simp [same]
  | .kind k => by simp [same]
  | .function f => by simp [same]
  | .computation g => by simp [same]
  | .coroutine k => by simp [same]
  | .future f => by simp [same]
  | .done run effect => by simp [same]
  | .settled i _ => by simp [same]
  | .broken i _ => by simp [same]
termination_by structural v => v

/-- A sequence agrees with itself. -/
theorem sameAll_self : (vs : List Value) → sameAll vs vs = true
  | [] => rfl
  | v :: vs => by
    have hv := same_self v
    have hvs := sameAll_self vs
    simp [sameAll, hv, hvs]
termination_by structural vs => vs

/-- Entries have their counterparts wherever they all are. -/
theorem sameEntries_of_subset : (es bs : List (Value × Value)) → (∀ e ∈ es, e ∈ bs) →
    sameEntries es bs = true
  | [], _, _ => rfl
  | e :: es, bs, h => by
    have he := hasEntry_of_mem e bs (h e (List.mem_cons_self ..))
    have hes := sameEntries_of_subset es bs fun e he => h e (List.mem_cons_of_mem _ he)
    simp [sameEntries, he, hes]
termination_by structural es => es

/-- An entry is its own counterpart. -/
theorem hasEntry_of_mem : (e : Value × Value) → (bs : List (Value × Value)) → e ∈ bs →
    hasEntry e bs = true
  | (k, v), bs, h => by
    have hk := same_self k
    have hv := same_self v
    refine List.any_eq_true.2 ⟨(k, v), h, ?_⟩
    simp [hk, hv]
termination_by structural e => e

/-- A descriptor is the same as itself. -/
theorem sameDescriptor_self : (d : Descriptor) → sameDescriptor d d = true
  | ⟨m, p, a, _⟩ => by
    have hp := sameAll_self p
    have ha := sameAll_self a
    simp [sameDescriptor, hp, ha]
termination_by structural d => d

/-- An expectation is the same as itself. -/
theorem sameExpectation_self : (e : Expectation) → sameExpectation e e = true
  | ⟨f, y, r⟩ => by
    have hf := same_self f
    have hy := same_self y
    simp [sameExpectation, hf, hy]
termination_by structural e => e

end

end Value

/-- A descriptor equals itself. -/
theorem DescriptorOf.same_self (d : Descriptor) : DescriptorOf.same d d = true :=
  Value.sameDescriptor_self d

end DescribedEffects
