import DescribedEffects.Harness.Test
import DescribedEffects.Proofs.Computation.Keeping
import DescribedEffects.Proofs.Trail

/-!
# From a test to its machine

A test first reads its entries and then runs the harness machine over them, and the
number of steps it may take is shared by both phases.  `Gathers` says what reading the
entries comes to, and `exists_runTest_iff` takes the two phases apart: a test has an
answer for some number of steps exactly when its machine has a result.  From there on
only the machine matters.

## What every step keeps

`Host.Keeps` says that a property of the states of a host is kept by every question
that a driver asks, other than to resume or to close a computation.  The harness asks
nothing else of its host, so `kept_of_step` carries such a property along a step, and
`kept_of_runFor` along a run.
-/

namespace DescribedEffects

namespace Harness

variable {σ : Type} {H : Host σ} {matchArgs : Bool}

/-! ## The two phases of a test -/

/-- Reading the entries of a value comes to these expectations. -/
def Gathers (H : Host σ) (expectations : Value) (host : σ) (xs : List Expectation)
    (host' : σ) : Prop :=
  ∃ source n, sourceOf expectations = .ok source ∧
    Transition.runFor (gather H) n ⟨host, source, []⟩ = some (.ok xs, host')

/-- Entries are read in one way. -/
theorem Gathers.unique {entries : Value} {host host₁ host₂ : σ} {E F : List Expectation}
    (h : Gathers H entries host E host₁) (k : Gathers H entries host F host₂) :
    E = F ∧ host₁ = host₂ := by
  obtain ⟨source, n, hsource, hn⟩ := h
  obtain ⟨source', m, hsource', hm⟩ := k
  obtain rfl := Except.ok.inj (hsource.symm.trans hsource')
  obtain ⟨hread, hhost⟩ := Prod.mk.inj (Transition.runFor_unique hn hm)
  exact ⟨Except.ok.inj hread, hhost⟩

/-- What can be iterated over is read item by item. -/
theorem sourceOf_of_items {expectations : Value} {entries : List Value}
    (h : expectations.items = .ok entries) : sourceOf expectations = .ok (.items entries) := by
  cases expectations with
  | computation g => cases h
  | _ => exact congrArg (Except.map Source.items) h

/-- Only a computation is stepped for its entries. -/
theorem eq_computation_of_sourceOf {expectations : Value} {g : Nat}
    (h : sourceOf expectations = .ok (.computation g)) : expectations = .computation g := by
  unfold sourceOf at h
  split at h
  · cases h
    rfl
  · cases hitems : expectations.items with
    | error f => rw [hitems] at h; cases h
    | ok items => rw [hitems] at h; cases h

/-- Entries, each of which is an expectation, are read without touching the host. -/
theorem gathers_items {expectations : Value} {entries : List Value} {xs : List Expectation}
    (host : σ) (items : expectations.items = .ok entries)
    (h : entries.mapM ExpectationOf.coerce = .ok xs) :
    Gathers H expectations host xs host := by
  suffices step : ∀ taken, Transition.runFor (gather H) (entries.length + 1)
      ⟨host, .items entries, taken⟩ = some (.ok (taken ++ xs), host) from
    ⟨.items entries, entries.length + 1, sourceOf_of_items items, step []⟩
  clear items
  induction entries generalizing xs with
  | nil =>
    intro taken
    cases h
    simp [Transition.runFor, gather]
  | cons entry rest ih =>
    intro taken
    rw [List.mapM_cons] at h
    cases hx : ExpectationOf.coerce entry with
    | error fault => rw [hx] at h; cases h
    | ok x =>
      cases hr : rest.mapM ExpectationOf.coerce with
      | error fault => rw [hx, hr] at h; cases h
      | ok ys =>
        rw [hx, hr] at h
        cases h
        have hs : gather H ⟨host, .items (entry :: rest), taken⟩ =
            .next ⟨host, .items rest, taken ++ [x]⟩ := by
          simp only [gather, readEntry, hx]
        rw [List.length_cons, Transition.runFor_succ_of_next hs, ih hr (taken ++ [x]),
          List.append_assoc]
        rfl

/-- A list of entries, each of which is an expectation, is read without touching the
host. -/
theorem gathers_list {entries : List Value} {xs : List Expectation} (host : σ)
    (h : entries.mapM ExpectationOf.coerce = .ok xs) :
    Gathers H (.list entries) host xs host :=
  gathers_items host rfl h

/-- **The phases of a test, taken apart.**  Once its entries are read, a test has an
answer exactly when its machine has a result, and the answer is what the harness makes
of that result. -/
theorem exists_runTest_iff {expectations : Value} {program : Nat} {strict : Bool}
    {host host' : σ} {xs : List Expectation} (gathered : Gathers H expectations host xs host')
    {r : Ending σ} :
    (∃ fuel, runTest H fuel expectations (.computation program) strict matchArgs host = some r) ↔
      ∃ n r₀, Transition.runFor (step H matchArgs) n (start host' program xs) = some r₀ ∧
        r = judge H strict r₀ := by
  obtain ⟨source, m, hsource, hgather⟩ := gathered
  constructor
  · rintro ⟨fuel, h⟩
    simp only [runTest, hsource] at h
    obtain ⟨g, hg, hr⟩ := Option.bind_eq_some_iff.1 h
    obtain rfl : (.ok xs, host') = g := Transition.runFor_unique hgather hg
    obtain ⟨r₀, hr₀, rfl⟩ := Option.map_eq_some_iff.1 hr
    exact ⟨fuel, r₀, hr₀, rfl⟩
  · rintro ⟨n, r₀, hr₀, rfl⟩
    refine ⟨max m n, ?_⟩
    simp only [runTest, hsource]
    rw [Transition.runFor_mono (Nat.le_max_left m n) hgather]
    simp only [Option.bind_some, runGathered]
    rw [Transition.runFor_mono (Nat.le_max_right m n) hr₀]
    rfl

/-- A test has one answer, whatever number of steps it is allowed. -/
theorem runTest_unique {expectations : Value} {program : Nat} {strict : Bool} {host : σ}
    {n n' : Nat} {r r' : Ending σ}
    (h : runTest H n expectations (.computation program) strict matchArgs host = some r)
    (h' : runTest H n' expectations (.computation program) strict matchArgs host = some r') :
    r = r' := by
  cases hs : sourceOf expectations with
  | error f =>
    simp only [runTest, hs] at h h'
    exact Option.some.inj (h.symm.trans h')
  | ok source =>
    simp only [runTest, hs] at h h'
    obtain ⟨read, hread, hrun⟩ := Option.bind_eq_some_iff.1 h
    obtain ⟨read', hread', hrun'⟩ := Option.bind_eq_some_iff.1 h'
    obtain rfl := Transition.runFor_unique hread hread'
    rcases read with ⟨e | xs, host⟩
    · exact Option.some.inj (hrun.symm.trans hrun')
    · obtain ⟨r₀, hr₀, rfl⟩ := Option.map_eq_some_iff.1 hrun
      obtain ⟨r₁, hr₁, rfl⟩ := Option.map_eq_some_iff.1 hrun'
      rw [Transition.runFor_unique hr₀ hr₁]

@[simp] theorem judge_of_error {strict : Bool} {r : Ending σ} {e : Exn}
    (h : r.outcome = .error e) : judge H strict r = r := by
  simp [judge, h]

/-! ## What every step keeps -/

section

variable {I : σ → Prop} (K : H.Keeps I)

theorem fail_host (e : Exn) (s : State σ) : (s.fail e).host = s.host := by
  unfold State.fail
  split <;> rfl

theorem answer_host (o : Outcome) (s : State σ) : (answer s o).host = s.host := by
  cases o with
  | ok v => rfl
  | error e => exact fail_host e s

include K

theorem kept_of_failWith (body : ExnBody Value) (s : State σ) (h : I s.host) :
    I (failWith H body s).host := by
  simp only [failWith, fail_host]
  exact K.raise body s.host h

theorem kept_of_produce (x : Expectation) (d : Descriptor) (s : State σ) (h : I s.host) :
    I (produce H x d s).host := by
  unfold produce
  split
  · rwa [answer_host]
  · rwa [answer_host]
  · rw [answer_host]
    exact K.call _ _ _ h

theorem kept_of_examine (d : Descriptor) (s : State σ) (h : I s.host) :
    I (examine H matchArgs d s).host := by
  unfold examine
  split
  · exact kept_of_failWith K _ s h
  · split
    · exact kept_of_failWith K _ s h
    · split
      · exact kept_of_failWith K _ s h
      · exact kept_of_failWith K _ s h
      · exact kept_of_produce K _ d _ h

theorem kept_of_receive (item : Value) (s : State σ) (h : I s.host) :
    I (receive H matchArgs item s).host := by
  unfold receive
  split
  · exact h
  · split
    · exact kept_of_failWith K _ s h
    · exact kept_of_examine K _ s h

theorem kept_of_react (reply : Reply) (s : State σ) (h : I s.host) :
    (react H matchArgs s reply).Leads (fun t => I t.host) (fun r => I r.host) := by
  cases reply with
  | yielded item => exact kept_of_receive K item s h
  | returned v =>
    simp only [react, leave]
    split <;> exact h
  | raised e => exact h

end

/-- A property that is kept whatever the harness asks is kept by its steps. -/
theorem kept_of_step {I : σ → Prop} (K : H.Keeps I)
    (resume : ∀ g signal s, I s → I (H.resume g signal s).2)
    (close : ∀ g because s, I s → I (H.close g because s).2) {s : State σ} (h : I s.host) :
    (step H matchArgs s).Leads (fun t => I t.host) (fun r => I r.host) := by
  rcases s with ⟨host, active, pending, consumed, notes, signal | e⟩
  · cases active with
    | nil => exact h
    | cons g rest => exact kept_of_react K _ _ (resume g signal host h)
  · cases active with
    | nil => exact h
    | cons g rest =>
      have hI : I (closeFor H e g host).2 := by
        unfold closeFor
        split
        · exact close g e host h
        · exact h
      simp only [step, stepEscape]
      split
      · exact hI
      · simp only [Transition.Leads, fail_host]
        exact hI

/-- What is kept whatever the harness asks holds in every state that is reached. -/
theorem kept_of_reaches {I : σ → Prop} (K : H.Keeps I)
    (resume : ∀ g signal s, I s → I (H.resume g signal s).2)
    (close : ∀ g because s, I s → I (H.close g because s).2) {s t : State σ} (h : I s.host)
    (ht : Transition.Reaches (step H matchArgs) s t) : I t.host := by
  refine ht.invariant (P := fun s => I s.host) (fun s t hs hst => ?_) h
  have hstep : (step H matchArgs s).Leads _ _ := kept_of_step K resume close hs
  rwa [hst] at hstep

/-- What is kept whatever the harness asks holds of the host as a run leaves it. -/
theorem kept_of_runFor {I : σ → Prop} (K : H.Keeps I)
    (resume : ∀ g signal s, I s → I (H.resume g signal s).2)
    (close : ∀ g because s, I s → I (H.close g because s).2) {n : Nat} {s : State σ}
    {r : Ending σ} (h : I s.host) (hr : Transition.runFor (step H matchArgs) n s = some r) :
    I r.host := by
  obtain ⟨t, ht, hend⟩ := Transition.exists_runFor_iff.1 ⟨n, hr⟩
  have hlast : (step H matchArgs t).Leads _ _ :=
    kept_of_step K resume close (kept_of_reaches K resume close h ht)
  rwa [hend] at hlast

end Harness
end DescribedEffects
