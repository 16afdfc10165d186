import DescribedEffects.Proofs.Harness.Failures

/-!
# Loose and exact matching

A test holds every effect against the next expectation, exactly or loosely: by equality, or by
the equality of the shapes.  Equal descriptors have equal shapes, so an effect that is met
exactly is met loosely (`Meets.loosely`).

What a test does with a descriptor depends on nothing but whether it is met.  So the two tests
take the same step wherever nothing is mismatched exactly (`step_loosely`), and an exact test
without a mismatch *is* the loose test: it goes through the same states, asks the same of its
host, and has the same result after the same number of steps (`loose_matching_accepts`).

All of this is about expectations whose groups are made of descriptors.  A group put together by
hand of something else has no shape, and a test that compares loosely complains of it.
-/

namespace DescribedEffects
namespace Harness

variable {σ : Type} {H : Host σ} {matchArgs : Bool}

/-- The groups of all effects that are expected are made of descriptors. -/
def Comparable (E : List Expectation) : Prop :=
  ∀ x ∈ E, ∀ d, x.descriptor = .ok d → Assembled d

/-- No effect that is yielded in the run from a state is a mismatch. -/
def Unbroken (H : Host σ) (matchArgs : Bool) (s₀ : State σ) : Prop :=
  ∀ s, Transition.Reaches (step H matchArgs) s₀ s → IsEmpty (Mismatch H matchArgs s)

/-! ## One effect -/

/-- **What is met exactly is met loosely.** -/
theorem Meets.loosely {x : Expectation} {d : Descriptor} (h : Meets true x d)
    (assembled : ∀ d, x.descriptor = .ok d → Assembled d) : Meets false x d := by
  obtain ⟨expected, hreads, hcompare⟩ := h
  obtain ⟨s, t, hs, ht, hst⟩ := (assembled expected hreads).same_shape (Except.ok.inj hcompare)
  refine ⟨expected, hreads, ?_⟩
  unfold ExpectationOf.compare
  rw [hs, ht]
  exact congrArg Except.ok hst

/-- An effect that is no exact mismatch meets the next expectation exactly, unless that one
cannot be read. -/
theorem meets_of_not_unmet {x : Expectation} {rest : List Expectation} {d expected : Descriptor}
    (h : ∀ v, ¬Unmet true d (x :: rest) v) (reads : x.descriptor = .ok expected) :
    Meets true x d := by
  refine ⟨expected, reads, ?_⟩
  cases hsame : expected.same d with
  | true => exact congrArg Except.ok hsame
  | false => exact absurd (.different reads (congrArg Except.ok hsame)) (h _)

/-- What is not met loosely is not met exactly either. -/
theorem Unmet.exactly {d : Descriptor} {pending : List Expectation} {v : Value}
    (h : Unmet false d pending v) (comparable : Comparable pending) : Unmet true d pending v := by
  cases h with
  | exhausted => exact .exhausted
  | @different x rest expected reads differs =>
    refine .different reads ?_
    cases hsame : expected.same d with
    | false => exact congrArg Except.ok hsame
    | true =>
      have hmeets : Meets true x d := ⟨expected, reads, congrArg Except.ok hsame⟩
      have hloosely := hmeets.loosely (comparable x (List.mem_cons_self ..))
      have hunmet : Unmet false d (x :: rest) (.descriptor expected) := .different reads differs
      exact absurd hloosely (hunmet.not_meets rfl)

/-- An effect that is no exact mismatch is treated alike by both tests. -/
theorem examine_loosely {d : Descriptor} {s : State σ} (comparable : Comparable s.pending)
    (h : ∀ v, ¬Unmet true d s.pending v) : examine H false d s = examine H true d s := by
  cases hpending : s.pending with
  | nil => exact absurd (hpending ▸ .exhausted) (h .null)
  | cons x rest =>
    cases hreads : x.descriptor with
    | error m => simp only [examine, hpending, hreads]
    | ok expected =>
      have hmeets : Meets true x d := meets_of_not_unmet (hpending ▸ h) hreads
      have hloosely := hmeets.loosely (comparable x (hpending ▸ List.mem_cons_self ..))
      rw [examine_of_meets hpending hmeets, examine_of_meets hpending hloosely]

/-- What is offered and is no mismatch is met, or is no effect, or cannot be compared. -/
theorem not_unmet_of_offered {s : State σ} {item : Value} {host : σ} {d : Descriptor}
    (h : IsEmpty (Mismatch H matchArgs s)) (offers : offered H s = some (item, host))
    (plain : item.isComputation = false) (reads : Descriptor.parse item = .ok d) (v : Value) :
    ¬Unmet matchArgs d s.pending v := by
  intro unmet
  unfold offered at offers
  split at offers
  · next signal g outer delivers active =>
    split at offers
    · next hresume =>
      cases offers
      exact h.elim ⟨signal, g, outer, item, host, d, v, delivers, active, hresume, plain, reads,
        unmet⟩
    · cases offers
  · cases offers

/-! ## One step -/

/-- How descriptors are compared makes no difference unless an item is yielded. -/
theorem step_of_not_offered {s : State σ} (h : offered H s = none) (m m' : Bool) :
    step H m s = step H m' s := by
  obtain ⟨host, active, pending, consumed, notes, signal | e⟩ := s
  · cases active with
    | nil => rfl
    | cons g outer =>
      simp only [step, stepDeliver]
      unfold offered at h
      dsimp only at h
      split at h
      · cases h
      · next hnone =>
        cases hreply : (H.resume g signal host).1 with
        | yielded item => exact (hnone item _ (Prod.ext hreply rfl)).elim
        | returned v => rfl
        | raised e =>
          unfold Host.settle
          dsimp only
          split <;> rfl
  · rfl

/-- **Where nothing is mismatched exactly both tests take the same step.** -/
theorem step_loosely {s : State σ} (comparable : Comparable s.pending)
    (h : IsEmpty (Mismatch H true s)) : step H false s = step H true s := by
  cases ho : offered H s with
  | none => exact step_of_not_offered ho false true
  | some offer =>
    obtain ⟨item, host⟩ := offer
    rw [step_of_offered ho, step_of_offered ho]
    refine congrArg Transition.next ?_
    cases hitem : item.isComputation with
    | true =>
      cases item with
      | computation g => rfl
      | _ => cases hitem
    | false =>
      rw [receive_of_plain hitem, receive_of_plain hitem]
      cases hreads : Descriptor.parse item with
      | error m => rfl
      | ok d =>
        have hnot := not_unmet_of_offered h ho hitem hreads
        exact examine_loosely comparable hnot

/-- Where nothing is mismatched exactly nothing is mismatched loosely. -/
theorem unmismatched_loosely {s : State σ} (comparable : Comparable s.pending)
    (h : IsEmpty (Mismatch H true s)) : IsEmpty (Mismatch H false s) :=
  ⟨fun m => h.elim { m with unmet := m.unmet.exactly comparable }⟩

/-! ## Whole tests -/

variable {E : List Expectation} {host : σ} {program : Nat}

/-- Whatever state a test comes to, what is left of its expectations is among them. -/
theorem comparable_of_reaches (comparable : Comparable E) {s : State σ}
    (h : Transition.Reaches (step H matchArgs) (start host program E) s) :
    Comparable s.pending := by
  obtain ⟨ds, trail⟩ := h.exists_trail (effects H)
  obtain ⟨hs, -⟩ := consumes_of_trail trail (consumes_start ..) (met_start ..)
  exact fun x hx => comparable x (List.mem_of_mem_drop (hs.pending ▸ hx))

/-- An exact test without a mismatch takes the steps of the loose test. -/
theorem steps_loosely (comparable : Comparable E)
    (unbroken : Unbroken H true (start host program E)) (s : State σ)
    (h : Transition.Reaches (step H true) (start host program E) s) :
    step H false s = step H true s :=
  step_loosely (comparable_of_reaches comparable h) (unbroken s h)

/-- **Looser matching accepts every run that exact matching accepts.**  If no effect of an exact
test is a mismatch, then none is one of the loose test.  Both go through the same states, so
they consume the same expectations; and with whatever number of steps and whether or not they
are strict they come to the same end: the same outcome, the same expectations left, and the same
transcript, so that the same functions are called with the same arguments in the same order. -/
theorem loose_matching_accepts (H : Host σ) (entries : Value) (program : Nat) (host : σ)
    (comparable : ∀ E host', Gathers H.recorded entries (host, []) E host' → Comparable E)
    (unbroken : ∀ E host', Gathers H.recorded entries (host, []) E host' →
      Unbroken H.recorded true (start host' program E)) :
    (∀ E host', Gathers H.recorded entries (host, []) E host' →
      Unbroken H.recorded false (start host' program E) ∧
      ∀ s, Transition.Reaches (step H.recorded false) (start host' program E) s ↔
        Transition.Reaches (step H.recorded true) (start host' program E) s) ∧
    ∀ fuel strict,
      runTest H.recorded fuel entries (.computation program) strict false (host, []) =
        runTest H.recorded fuel entries (.computation program) strict true (host, []) := by
  constructor
  · intro E host' gathered
    have hsteps := steps_loosely (comparable E host' gathered) (unbroken E host' gathered)
    refine ⟨fun s hs => ?_, fun s => Transition.reaches_congr hsteps⟩
    have hexactly := (Transition.reaches_congr hsteps).1 hs
    exact unmismatched_loosely (comparable_of_reaches (comparable E host' gathered) hexactly)
      (unbroken E host' gathered s hexactly)
  · intro fuel strict
    cases hsource : sourceOf entries with
    | error f => simp only [runTest, hsource]
    | ok source =>
      simp only [runTest, hsource]
      cases hgather : Transition.runFor (gather H.recorded) fuel ⟨(host, []), source, []⟩ with
      | none => rfl
      | some gathered =>
        obtain ⟨e | E, host'⟩ := gathered
        · rfl
        · have hgathers : Gathers H.recorded entries (host, []) E host' :=
            ⟨source, fuel, hsource, hgather⟩
          simp only [Option.bind_some, runGathered]
          rw [Transition.runFor_congr
            (steps_loosely (comparable E host' hgathers) (unbroken E host' hgathers))]

/-! ## A group that is met exactly -/

/-- A group of one call, as it is written. -/
def groupOf (arg : Value) : Value := .list [.mode .parallel, .list [.text "a", arg]]

/-- It yields a group and returns what comes of it. -/
def asker : Behaviour Cautious where
  resume
    | .begun, _ => .yielded (groupOf (.truth true)) rfl .waiting
    | .waiting, .send v => .returned v
    | .waiting, .throw _ => .returned .null

/-- The group in a world where nothing happens. -/
abbrev askerHost : Host (Computations Cautious × Site Unit) := asker.programs.host World.barren

/-- One is expected in place of the truth, and a function answers. -/
def answered : List Expectation := [⟨groupOf (.int 1), .function "stub", none⟩]

/-- The group is met exactly, since the truth and one are equal, so it is met loosely. -/
theorem equal_arguments_have_one_shape :
    let begun := start (cautiousStart, []) 0 answered
    Comparable answered ∧ Unbroken askerHost.recorded true begun ∧
      Unbroken askerHost.recorded false begun ∧
      ∃ r, runTest askerHost.recorded 3 (.list (answered.map .expectation)) (.computation 0) true
          false (cautiousStart, []) = some r ∧ r.outcome = .ok .null ∧ r.consumed = 1 := by
  intro begun
  have hread : (answered.map .expectation).mapM ExpectationOf.coerce = .ok answered := rfl
  have hgathers := gathers_list (H := askerHost.recorded) (cautiousStart, []) hread
  have hcomparable : Comparable answered := by
    intro x hx d hd
    obtain rfl := List.mem_singleton.1 hx
    cases hd
    have hargs : [Value.descriptor ⟨.direct, [.text "a"], [.int 1], none⟩] =
        [(⟨.direct, [.text "a"], [.int 1], none⟩ : Descriptor)].map .descriptor := rfl
    refine .group rfl hargs fun d hd => ?_
    obtain rfl := List.mem_singleton.1 hd
    exact .call (by decide)
  have hunbroken : Unbroken askerHost.recorded true begun := by
    intro s hs
    rcases hs.cases_of_next (show step _ _ _ = .next _ from rfl) with rfl | hs
    · refine ⟨fun m => ?_⟩
      obtain ⟨signal, g, outer, item, host, d, v, delivers, active, yields, plain, reads, unmet⟩ := m
      cases delivers
      cases active
      cases yields
      cases reads
      cases unmet with
      | different reads differs =>
        cases reads
        cases differs
    · obtain rfl := hs.eq_of_done (show step _ _ _ = .done _ from rfl)
      refine ⟨fun m => ?_⟩
      obtain ⟨signal, g, outer, item, host, d, v, delivers, active, yields, -⟩ := m
      cases delivers
      cases active
      cases yields
  obtain ⟨hloosely, hruns⟩ := loose_matching_accepts askerHost (.list (answered.map .expectation)) 0
    cautiousStart
    (fun E host' h => (h.unique hgathers).1 ▸ hcomparable)
    (fun E host' h => by obtain ⟨rfl, rfl⟩ := h.unique hgathers; exact hunbroken)
  refine ⟨hcomparable, hunbroken, (hloosely _ _ hgathers).1, _, (hruns 3 true).trans rfl, rfl, rfl⟩

end Harness
end DescribedEffects
