import DescribedEffects.Descriptor.Shape
import Mathlib.Data.List.Forall2

/-!
# What can be read as a descriptor

Reading is a recursion over a value that carries the blame for a failure along.  What is
known of a *successful* reading is simpler, and most statements about descriptors need no
more of it:

* a path that can be read is spelled as `SpellsPath` says (`pathOf_eq_ok_iff`), a non-empty
  sequence of segments (`pathOf_eq_ok`), and a call is a path with arguments behind it
  (`readCall_eq_ok`);
* a group is read member by member, and the members of what has been read are descriptors
  (`parseMembers_eq_ok`);
-/

namespace DescribedEffects

/-! ## Paths -/

/-- No position holds a bad segment when all of them are good, and conversely. -/
theorem firstBadSegment?_eq_none {vs : List Value} {i : Nat} :
    firstBadSegment? i vs = none ↔ ∀ v ∈ vs, v.isSegment = true := by
  induction vs generalizing i with
  | nil => simp [firstBadSegment?]
  | cons v vs ih =>
    unfold firstBadSegment?
    by_cases hv : v.isSegment = true
    · rw [if_pos hv, ih]
      simp [hv]
    · rw [if_neg hv]
      simp [hv]

/-- **A sequence is a path** exactly when it is a non-empty sequence of segments, and then it
is its own reading. -/
theorem segmentsOf_eq_ok {vs p : List Value} :
    segmentsOf vs = .ok p ↔ p = vs ∧ vs ≠ [] ∧ ∀ v ∈ vs, v.isSegment = true := by
  unfold segmentsOf
  cases vs with
  | nil => simp
  | cons v vs =>
    rw [if_neg (by simp)]
    cases hbad : firstBadSegment? 0 (v :: vs) with
    | none =>
      have hall := firstBadSegment?_eq_none.1 hbad
      simp only [Except.ok.injEq]
      exact ⟨fun h => ⟨h.symm, List.cons_ne_nil _ _, hall⟩, fun h => h.1.symm⟩
    | some x =>
      have hnot : ¬ ∀ w ∈ v :: vs, w.isSegment = true := by
        rw [← firstBadSegment?_eq_none (i := 0), hbad]
        simp
      simp only [reduceCtorEq, false_iff, not_and]
      exact fun _ _ => hnot

/-- **What is read as a path is what spells one.** -/
theorem pathOf_eq_ok_iff {v : Value} {p : List Value} : pathOf v = .ok p ↔ SpellsPath v p := by
  constructor
  · intro h
    cases v with
    | text s =>
      by_cases hs : s = ""
      · simp [pathOf, hs] at h
      · obtain rfl : [Value.text s] = p := by simpa [pathOf, hs] using h
        exact .name s hs
    | list vs =>
      obtain ⟨rfl, nonempty, segments⟩ := segmentsOf_eq_ok.1 h
      exact .list _ nonempty segments
    | tuple vs =>
      obtain ⟨rfl, nonempty, segments⟩ := segmentsOf_eq_ok.1 h
      exact .tuple _ nonempty segments
    | _ => cases h
  · intro h
    cases h with
    | name s nonempty => simp [pathOf, nonempty]
    | list vs nonempty segments => exact segmentsOf_eq_ok.2 ⟨rfl, nonempty, segments⟩
    | tuple vs nonempty segments => exact segmentsOf_eq_ok.2 ⟨rfl, nonempty, segments⟩

/-- What is read as a path is a non-empty sequence of segments, and its canonical spelling is
the list of them. -/
theorem pathOf_eq_ok {v : Value} {p : List Value} (h : pathOf v = .ok p) :
    p ≠ [] ∧ (∀ s ∈ p, s.isSegment = true) ∧ canonicalPath v = .list p := by
  cases pathOf_eq_ok_iff.1 h with
  | name s nonempty => exact ⟨List.cons_ne_nil _ _, by simp [Value.isSegment, nonempty], rfl⟩
  | list vs nonempty segments => exact ⟨nonempty, segments, rfl⟩
  | tuple vs nonempty segments => exact ⟨nonempty, segments, rfl⟩

/-! ## Calls -/

/-- **A call is a path with arguments behind it.** -/
theorem readCall_eq_ok {raw : Value} {m : Mode} {rest : List Value} {d : Descriptor} :
    readCall raw m rest = .ok d ↔
      ∃ path args p, rest = path :: args ∧ pathOf path = .ok p ∧ d = ⟨m, p, args, none⟩ := by
  cases rest with
  | nil => simp [readCall]
  | cons path args =>
    cases hp : pathOf path with
    | error f => simp [readCall, normalizePath, hp, Except.map, Except.mapError]
    | ok p =>
      have hread : readCall raw m (path :: args) = .ok ⟨m, p, args, none⟩ := by
        simp [readCall, normalizePath, hp, Except.map, Except.mapError]
      rw [hread]
      constructor
      · intro h
        exact ⟨path, args, p, rfl, hp, (Except.ok.inj h).symm⟩
      · rintro ⟨path', args', p', hrest, hp', rfl⟩
        obtain ⟨rfl, rfl⟩ := List.cons.inj hrest
        rw [hp] at hp'
        rw [Except.ok.inj hp']

/-! ## Groups -/

/-- The members of a group are read one by one, and each of them is read. -/
theorem parseMembers_eq_ok {vs ds : List Value} :
    parseMembers vs = .ok ds ↔
      List.Forall₂ (fun v w => ∃ d, parseValue v = .ok d ∧ w = .descriptor d) vs ds := by
  induction vs generalizing ds with
  | nil =>
    rw [parseMembers, List.forall₂_nil_left_iff, Except.ok.injEq]
    exact eq_comm
  | cons v vs ih =>
    rw [parseMembers, List.forall₂_cons_left_iff]
    cases hv : parseValue v with
    | error m =>
      simp only [reduceCtorEq, false_and, exists_false, iff_false]
      exact fun h => by cases h
    | ok d =>
      cases hvs : parseMembers vs with
      | error m =>
        constructor
        · intro h
          cases h
        · rintro ⟨w, ws, -, hws, -⟩
          rw [← ih, hvs] at hws
          cases hws
      | ok ws =>
        constructor
        · intro h
          cases h
          exact ⟨_, _, ⟨d, rfl, rfl⟩, ih.1 hvs, rfl⟩
        · rintro ⟨w, us, ⟨d', hd, rfl⟩, hus, rfl⟩
          obtain rfl := Except.ok.inj hd
          rw [← ih, hvs] at hus
          obtain rfl := Except.ok.inj hus
          rfl

end DescribedEffects
