import DescribedEffects.Proofs.Computation.Behaviour
import DescribedEffects.Proofs.Descriptor.Shapes
import DescribedEffects.Proofs.Harness.Mismatch

/-!
# How a test consumes its expectations

A test has one queue of expectations and one count, and all active computations share
them.  The queue is what is left of the list after so many expectations (`Queue`), and
nothing but an effect that meets the head of the queue moves it: not a computation that is
yielded, not an item that cannot be read, not an exception on its way out.

An effect is met or is a mismatch, there is no third thing (`examined`); this is where
well-formedness is needed, since a group put together by hand may have no shape to compare.
A mismatch pops nothing, and its verdict holds the effect, the number of expectations that
were consumed, and the effect that was expected instead, if any was.

A strict test is the same run, judged differently at its end.  `expectations_met_in_order`
puts this together.
-/

namespace DescribedEffects

/-! ## Well-formed descriptors can be compared -/

/-- Comparing well-formed descriptors has an answer. -/
theorem WellFormed.exists_compare {expected d : Descriptor} (h : WellFormed expected)
    (k : WellFormed d) (matchArgs : Bool) :
    ∃ b, ExpectationOf.compare expected d matchArgs = .ok b := by
  cases matchArgs with
  | true => exact ⟨expected.same d, rfl⟩
  | false =>
    obtain ⟨s, hs⟩ := h.assembled.exists_shape
    obtain ⟨t, ht⟩ := k.assembled.exists_shape
    refine ⟨s.same t, ?_⟩
    unfold ExpectationOf.compare
    rw [hs, ht]
    rfl

namespace Harness

variable {σ : Type} {H : Host σ} {matchArgs : Bool}

/-- The effect is the one that is expected. -/
def Meets (matchArgs : Bool) (x : Expectation) (d : Descriptor) : Prop :=
  ∃ expected, x.descriptor = .ok expected ∧
    ExpectationOf.compare expected d matchArgs = .ok true

/-- All effects that are expected are well formed. -/
def Readable (E : List Expectation) : Prop := ∀ x ∈ E, ∃ d, x.descriptor = .ok d ∧ WellFormed d

/-! ## What is offered to the harness -/

/-- The item that the innermost computation yields when it is resumed next, if it does, and
the host after that. -/
def offered (H : Host σ) (s : State σ) : Option (Value × σ) :=
  match s.control, s.active with
  | .deliver signal, g :: _ =>
    match H.resume g signal s.host with
    | (.yielded item, host) => some (item, host)
    | _ => none
  | _, _ => none

/-- The effect that is yielded next: none if the item is a computation or cannot be read. -/
def effects (H : Host σ) (s : State σ) : List Descriptor :=
  ((offered H s).bind fun x => (Descriptor.parse x.1).toOption).toList

theorem step_of_offered {s : State σ} {item : Value} {host : σ}
    (h : offered H s = some (item, host)) :
    step H matchArgs s = .next (receive H matchArgs item { s with host }) := by
  obtain ⟨host₀, active, pending, consumed, notes, signal | e⟩ := s
  · cases active with
    | nil => cases h
    | cons g outer =>
      unfold offered at h
      dsimp only at h
      split at h
      · next hresume =>
        cases h
        simp only [step, stepDeliver, hresume, Host.settle, react]
      · cases h
  · cases h

/-- An effect that is yielded was offered. -/
theorem offered_of_effects {s : State σ} {d : Descriptor} (h : effects H s = [d]) :
    ∃ item host, offered H s = some (item, host) ∧ Descriptor.parse item = .ok d ∧
      item.isComputation = false := by
  unfold effects at h
  cases ho : offered H s with
  | none => rw [ho] at h; cases h
  | some x =>
    obtain ⟨item, host⟩ := x
    rw [ho, Option.bind_some] at h
    cases hparse : Descriptor.parse item with
    | error m => rw [hparse] at h; cases h
    | ok d' =>
      rw [hparse] at h
      cases h
      refine ⟨item, host, rfl, hparse, ?_⟩
      cases item with
      | computation g => cases hparse
      | _ => rfl

/-! ## The queue -/

/-- What is left of the expectations, and how many were met. -/
def State.queue (s : State σ) : List Expectation × Nat := (s.pending, s.consumed)

@[simp] theorem queue_fail (s : State σ) (e : Exn) : (s.fail e).queue = s.queue := by
  unfold State.fail
  split <;> rfl

@[simp] theorem queue_failWith (body : ExnBody Value) (s : State σ) :
    (failWith H body s).queue = s.queue := queue_fail ..

@[simp] theorem queue_answer (s : State σ) (o : Outcome) : (answer s o).queue = s.queue := by
  cases o with
  | ok v => rfl
  | error e => exact queue_fail s e

@[simp] theorem queue_produce (x : Expectation) (d : Descriptor) (s : State σ) :
    (produce H x d s).queue = s.queue := by
  unfold produce
  split <;> simp only [queue_answer]
  rfl

/-- An item that is no effect consumes nothing. -/
theorem queue_receive_of_unreadable {item : Value} (h : ∀ d, Descriptor.parse item ≠ .ok d)
    (s : State σ) : (receive H matchArgs item s).queue = s.queue := by
  cases hitem : item.isComputation with
  | true =>
    cases item with
    | computation g => rfl
    | _ => cases hitem
  | false =>
    rw [receive_of_plain hitem]
    cases hparse : Descriptor.parse item with
    | error m => exact queue_failWith ..
    | ok d => exact absurd hparse (h d)

/-- A computation that ends consumes nothing. -/
theorem queue_of_ended {reply : Reply} (h : ∀ item, reply ≠ .yielded item) (s : State σ) :
    (react H matchArgs s (Host.settle reply)).Leads (fun t => t.queue = s.queue)
      (fun r => (r.pending, r.consumed) = s.queue) := by
  have hleave : ∀ v, (leave v s).Leads (fun t => t.queue = s.queue)
      (fun r => (r.pending, r.consumed) = s.queue) := by
    intro v
    unfold leave
    split <;> rfl
  cases reply with
  | yielded item => exact absurd rfl (h item)
  | returned v => exact hleave v
  | raised e =>
    unfold Host.settle
    dsimp only
    split
    · exact hleave _
    · rfl

variable (matchArgs) in
/-- **Only an effect moves the queue.** -/
theorem queue_of_step {s : State σ} (h : effects H s = []) :
    (step H matchArgs s).Leads (fun t => t.queue = s.queue)
      (fun r => (r.pending, r.consumed) = s.queue) := by
  cases ho : offered H s with
  | some x =>
    obtain ⟨item, host⟩ := x
    rw [step_of_offered ho]
    refine (queue_receive_of_unreadable (fun d hd => ?_) _).trans rfl
    rw [effects, ho, Option.bind_some, hd] at h
    cases h
  | none =>
    obtain ⟨host, active, pending, consumed, notes, signal | e⟩ := s
    · cases active with
      | nil => rfl
      | cons g outer =>
        refine queue_of_ended (fun item hitem => ?_) _
        have hresume : H.resume g signal host = (.yielded item, (H.resume g signal host).2) :=
          Prod.ext hitem rfl
        unfold offered at ho
        dsimp only at ho
        rw [hresume] at ho
        cases ho
    · cases active with
      | nil => rfl
      | cons g outer =>
        simp only [step, stepEscape]
        split
        · rfl
        · exact queue_fail ..

/-! ## A match or a mismatch -/

/-- What a test says was expected after so many expectations were consumed: nothing if none
was left. -/
def expectedAt (E : List Expectation) (i : Nat) : Value :=
  match E[i]? with
  | none => .null
  | some x =>
    match x.descriptor with
    | .ok expected => .descriptor expected
    | .error _ => .null

/-- Nothing was expected exactly if all expectations were consumed. -/
theorem expectedAt_eq_null_iff {E : List Expectation} (hE : Readable E) {i : Nat} :
    expectedAt E i = .null ↔ E.length ≤ i := by
  rw [← List.getElem?_eq_none_iff]
  unfold expectedAt
  cases hx : E[i]? with
  | none => simp
  | some x =>
    obtain ⟨d, hd, -⟩ := hE x (List.mem_of_getElem? hx)
    simp [hd]

/-- How an effect is held against the queue, from one state to the next. -/
inductive Examined (matchArgs : Bool) (d : Descriptor) (s t : State σ) : Prop
  /-- It meets the head, which is consumed. -/
  | met (x : Expectation) (head : s.pending = x :: t.pending) (meets : Meets matchArgs x d)
      (counted : t.consumed = s.consumed + 1)
  /-- It is a mismatch, and the verdict leaves the computation. -/
  | mismatch (expected : Value) (unmet : Unmet matchArgs d s.pending expected)
      (queue : t.queue = s.queue) (e : Exn) (escapes : t.control = .escape e)
      (verdict : e.body = .unexpected (.descriptor d) expected (.int s.consumed))
  /-- The head and the effect have no shapes to compare. -/
  | incomparable (x : Expectation) (head : x ∈ s.pending) (queue : t.queue = s.queue)
      (fails : ∀ expected b, x.descriptor = .ok expected →
        ExpectationOf.compare expected d matchArgs ≠ .ok b)

variable (H matchArgs) in
/-- **An effect meets the head of the queue or is a mismatch**, if it can be compared. -/
theorem examined (s : State σ) (d : Descriptor) :
    Examined matchArgs d s (examine H matchArgs d s) := by
  have hreject : ∀ expected, Unmet matchArgs d s.pending expected →
      Examined matchArgs d s (examine H matchArgs d s) := by
    intro expected hunmet
    let verdict := (H.raise (.unexpected (.descriptor d) expected (.int s.consumed)) s.host).1
    have hverdict : verdict.isVerdict = true := by
      show ExnKind.unexpected.isVerdict = true
      decide
    rw [examine_of_unmet hunmet]
    exact .mismatch expected hunmet (queue_failWith ..) verdict
      (congrArg State.control (fail_of_verdict hverdict _)) rfl
  cases hpending : s.pending with
  | nil => exact hreject .null (hpending ▸ .exhausted)
  | cons x rest =>
    have hmem : x ∈ s.pending := hpending ▸ List.mem_cons_self ..
    cases hreads : x.descriptor with
    | error m =>
      have hexamine : examine H matchArgs d s = failWith H m.body s := by
        simp only [examine, hpending, hreads]
      rw [hexamine]
      exact .incomparable x hmem (queue_failWith ..) fun _ _ h => by rw [hreads] at h; cases h
    | ok expected =>
      cases hcompare : ExpectationOf.compare expected d matchArgs with
      | error f =>
        have hexamine : examine H matchArgs d s = failWith H f.body s := by
          simp only [examine, hpending, hreads, hcompare]
        rw [hexamine]
        refine .incomparable x hmem (queue_failWith ..) fun expected' b h hb => ?_
        rw [hreads] at h
        cases h
        rw [hcompare] at hb
        cases hb
      | ok meets =>
        cases meets with
        | false =>
          have hunmet : Unmet matchArgs d (x :: rest) (.descriptor expected) :=
            .different hreads hcompare
          exact hreject _ (hpending ▸ hunmet)
        | true =>
          have hexamine : examine H matchArgs d s = consume H x rest d s := by
            simp only [examine, hpending, hreads, hcompare]
          have hqueue : (examine H matchArgs d s).queue = (rest, s.consumed + 1) := by
            rw [hexamine]
            exact queue_produce ..
          obtain ⟨hrest, hcount⟩ := Prod.mk.inj hqueue
          exact .met x (hpending.trans (by rw [hrest])) ⟨expected, hreads, hcompare⟩ hcount

variable (matchArgs) in
/-- An effect that is yielded is held against the queue. -/
theorem examined_of_effects {s : State σ} {d : Descriptor} (h : effects H s = [d]) :
    ∃ t, step H matchArgs s = .next t ∧ Examined matchArgs d s t := by
  obtain ⟨item, host, hoffered, hparse, hplain⟩ := offered_of_effects h
  refine ⟨_, step_of_offered hoffered, ?_⟩
  rw [receive_of_plain hplain, hparse]
  cases examined H matchArgs { s with host } d with
  | met x head meets counted => exact .met x head meets counted
  | mismatch expected unmet queue e escapes verdict =>
    exact .mismatch expected unmet queue e escapes verdict
  | incomparable x head queue fails => exact .incomparable x head queue fails

theorem effects_cases (s : State σ) : effects H s = [] ∨ ∃ d, effects H s = [d] := by
  unfold effects
  cases (offered H s).bind fun x => (Descriptor.parse x.1).toOption with
  | none => exact .inl rfl
  | some d => exact .inr ⟨d, rfl⟩

/-! ## Along a run -/

/-- The queue is what is left of the expectations that the test began with. -/
structure Consumes (E : List Expectation) (s : State σ) : Prop where
  counted : s.consumed ≤ E.length
  pending : s.pending = E.drop s.consumed

/-- The expectations that were consumed were met, in order, by some of the effects. -/
def Met (matchArgs : Bool) (E : List Expectation) (s : State σ) (ds : List Descriptor) : Prop :=
  ∃ ms : List Descriptor, ms.Sublist ds ∧ List.Forall₂ (Meets matchArgs) (E.take s.consumed) ms

theorem consumes_start (host : σ) (program : Nat) (E : List Expectation) :
    Consumes E (start host program E) := ⟨Nat.zero_le _, rfl⟩

theorem met_start (matchArgs : Bool) (host : σ) (program : Nat) (E : List Expectation) :
    Met matchArgs E (start host program E) [] := ⟨[], .refl _, .nil⟩

theorem Consumes.of_queue {E : List Expectation} {s t : State σ} (h : Consumes E s)
    (ht : t.queue = s.queue) : Consumes E t := by
  obtain ⟨hpending, hconsumed⟩ := Prod.mk.inj ht
  exact ⟨hconsumed ▸ h.counted, by rw [hpending, hconsumed, h.pending]⟩

/-- One more expectation is consumed. -/
theorem Consumes.met {E : List Expectation} {s t : State σ} {x : Expectation}
    (h : Consumes E s) (hs : s.pending = x :: t.pending) (ht : t.consumed = s.consumed + 1) :
    Consumes E t ∧ E.take t.consumed = E.take s.consumed ++ [x] := by
  have hdrop : E.drop s.consumed = x :: t.pending := h.pending.symm.trans hs
  have hlt : s.consumed < E.length := by
    by_contra hge
    rw [List.drop_eq_nil_of_le (Nat.le_of_not_lt hge)] at hdrop
    cases hdrop
  rw [List.drop_eq_getElem_cons hlt] at hdrop
  obtain ⟨hx, hrest⟩ := List.cons.inj hdrop
  refine ⟨⟨ht ▸ hlt, by rw [ht, hrest]⟩, ?_⟩
  rw [ht, List.take_succ_eq_append_getElem hlt, hx]

/-- **One step keeps the queue in order**, and consumes at most one expectation. -/
theorem consumes_of_step {E : List Expectation} {s t : State σ} (hs : Consumes E s)
    (hst : step H matchArgs s = .next t) :
    Consumes E t ∧ ∀ ds, Met matchArgs E s ds → Met matchArgs E t (ds ++ effects H s) := by
  have hkept : t.queue = s.queue →
      Consumes E t ∧ ∀ ds, Met matchArgs E s ds → Met matchArgs E t (ds ++ effects H s) := by
    intro hqueue
    refine ⟨hs.of_queue hqueue, fun ds ⟨ms, hms, hall⟩ => ⟨ms, ?_, ?_⟩⟩
    · exact hms.trans (List.sublist_append_left ..)
    · rwa [show t.consumed = s.consumed from congrArg Prod.snd hqueue]
  rcases effects_cases (H := H) s with hnone | ⟨d, hd⟩
  · have hqueue := queue_of_step matchArgs hnone
    rw [hst] at hqueue
    exact hkept hqueue
  · obtain ⟨t', ht', hexamined⟩ := examined_of_effects matchArgs hd
    obtain rfl : t' = t := Transition.next.inj (ht'.symm.trans hst)
    cases hexamined with
    | met x head meets counted =>
      obtain ⟨hconsumes, htake⟩ := hs.met head counted
      refine ⟨hconsumes, fun ds ⟨ms, hms, hall⟩ => ⟨ms ++ [d], ?_, ?_⟩⟩
      · rw [hd]
        exact hms.append (.refl _)
      · rw [htake]
        exact List.rel_append hall (.cons meets .nil)
    | mismatch expected unmet queue => exact hkept queue
    | incomparable x head queue => exact hkept queue

/-- **A run consumes its expectations in order**, each by an effect that meets it. -/
theorem consumes_of_trail {E : List Expectation} {s t : State σ} {es : List Descriptor}
    (h : Transition.Trail (step H matchArgs) (effects H) s es t) (hs : Consumes E s)
    {ds : List Descriptor} (hds : Met matchArgs E s ds) :
    Consumes E t ∧ Met matchArgs E t (ds ++ es) := by
  induction h generalizing ds with
  | refl s => exact ⟨hs, (List.append_nil ds).symm ▸ hds⟩
  | head first _ ih =>
    obtain ⟨hnext, hmet⟩ := consumes_of_step hs first
    rw [← List.append_assoc]
    exact ih hnext (hmet ds hds)

/-- A mismatch does not meet the head of the queue. -/
theorem Unmet.not_meets {d : Descriptor} {pending : List Expectation} {expected : Value}
    (h : Unmet matchArgs d pending expected) {x : Expectation} (hx : pending.head? = some x) :
    ¬ Meets matchArgs x d := by
  rintro ⟨expected', hreads, hcompare⟩
  cases h with
  | exhausted => cases hx
  | different reads differs =>
    cases hx
    obtain rfl := Except.ok.inj (hreads.symm.trans reads)
    cases hcompare.symm.trans differs

/-- What a mismatch says was expected is what the test expected at that point. -/
theorem Unmet.eq_expectedAt {E : List Expectation} {s : State σ} (hs : Consumes E s)
    {d : Descriptor} {expected : Value} (h : Unmet matchArgs d s.pending expected) :
    expected = expectedAt E s.consumed := by
  have hhead : E[s.consumed]? = s.pending.head? := by
    rw [hs.pending, List.head?_drop]
  unfold expectedAt
  rw [hhead]
  generalize s.pending = pending at h
  cases h with
  | exhausted => rfl
  | different reads differs =>
    rw [List.head?_cons]
    dsimp only
    rw [reads]

/-! ## Strict tests -/

/-- A strict test and a lenient one are one run, judged differently. -/
theorem runTest_strict {entries : Value} {program fuel : Nat} {host₀ host : σ}
    {E : List Expectation} (gathered : Gathers H entries host₀ E host) {r : Ending σ}
    (h : runTest H fuel entries (.computation program) false matchArgs host₀ = some r) :
    runTest H fuel entries (.computation program) true matchArgs host₀ =
        some (judge H true r) ∧
      ∃ n, Transition.runFor (step H matchArgs) n (start host program E) = some r := by
  have hlenient : ∀ r₀ : Ending σ, judge H false r₀ = r₀ := by
    intro r₀
    unfold judge
    split <;> rfl
  obtain ⟨source, m, hsource, hgather⟩ := gathered
  simp only [runTest, hsource] at h ⊢
  obtain ⟨g, hg, hr⟩ := Option.bind_eq_some_iff.1 h
  obtain rfl : (.ok E, host) = g := Transition.runFor_unique hgather hg
  obtain ⟨r₀, hr₀, hjudge⟩ := Option.map_eq_some_iff.1 hr
  rw [hlenient] at hjudge
  subst hjudge
  rw [hg]
  exact ⟨by simp only [Option.bind_some, runGathered, hr₀, Option.map_some], fuel, hr₀⟩

/-- A run leaves what is left of its expectations. -/
theorem consumes_of_runFor {program n : Nat} {host : σ} {E : List Expectation} {r : Ending σ}
    (h : Transition.runFor (step H matchArgs) n (start host program E) = some r) :
    r.consumed ≤ E.length ∧ r.pending = E.drop r.consumed := by
  obtain ⟨s, hs, hend⟩ := Transition.exists_runFor_iff.1 ⟨n, h⟩
  obtain ⟨ds, hds⟩ := hs.exists_trail (effects H)
  obtain ⟨hconsumes, -⟩ := consumes_of_trail hds (consumes_start ..) (met_start ..)
  have hquiet : effects H s = [] := by
    rcases effects_cases (H := H) s with hnone | ⟨d, hd⟩
    · exact hnone
    · obtain ⟨t, ht, -⟩ := examined_of_effects matchArgs hd
      rw [hend] at ht
      cases ht
  have hqueue := queue_of_step matchArgs hquiet
  rw [hend] at hqueue
  obtain ⟨hpending, hconsumed⟩ := Prod.mk.inj hqueue
  rw [hpending, hconsumed]
  exact ⟨hconsumes.counted, hconsumes.pending⟩

/-- **Expectations are consumed as a prefix of their list.**  In every state of every test
whose expectations are readable:

* the queue is what is left of the list after the expectations that were counted, and these
  were met, in order, by effects that were yielded before, at whatever depth;
* a well-formed effect that is yielded next meets the head of the queue and consumes it and
  nothing else, or it is a mismatch, which consumes nothing; the verdict holds the effect,
  the count, and what was expected at that point, which is nothing exactly if all was
  consumed;
* whatever else happens consumes nothing.

A strict test fails like a lenient one does.  If the lenient one returns, so does the strict
one when all expectations were consumed, and otherwise the verdict names the effects of the
ones that are left. -/
theorem expectations_met_in_order (H : Host σ) (matchArgs : Bool) (host : σ) (program : Nat)
    (E : List Expectation) (readable : Readable E) :
    (∀ s ds, Transition.Trail (step H matchArgs) (effects H) (start host program E) ds s →
      (s.pending <:+ E ∧ s.consumed + s.pending.length = E.length) ∧ Met matchArgs E s ds ∧
      (∀ d, effects H s = [d] → WellFormed d → ∃ t, step H matchArgs s = .next t ∧
        ((∃ x, s.pending = x :: t.pending ∧ Meets matchArgs x d ∧ t.consumed = s.consumed + 1) ∨
          ((∀ x, s.pending.head? = some x → ¬ Meets matchArgs x d) ∧
            t.pending = s.pending ∧ t.consumed = s.consumed ∧
            (expectedAt E s.consumed = .null ↔ s.consumed = E.length) ∧
            ∃ e, t.control = .escape e ∧ e.body = .unexpected (.descriptor d)
              (expectedAt E s.consumed) (.int s.consumed)))) ∧
      (effects H s = [] → (step H matchArgs s).Leads
        (fun t => t.pending = s.pending ∧ t.consumed = s.consumed)
        (fun r => r.pending = s.pending ∧ r.consumed = s.consumed))) ∧
    ∀ entries host₀, Gathers H entries host₀ E host → ∀ fuel r,
      runTest H fuel entries (.computation program) false matchArgs host₀ = some r →
      let strictly := runTest H fuel entries (.computation program) true matchArgs host₀
      (∀ e, r.outcome = .error e → strictly = some r) ∧
      ∀ v, r.outcome = .ok v → r.consumed ≤ E.length ∧
        (r.consumed = E.length → strictly = some r) ∧
        (r.consumed < E.length → ∃ e host', e.body = .unused ((E.drop r.consumed).map (·.effect)) ∧
          strictly = some { r with outcome := .error e, host := host' }) := by
  refine ⟨fun s ds trail => ?_, fun entries host₀ gathered fuel r hlenient => ?_⟩
  · obtain ⟨hs, hmet⟩ := consumes_of_trail trail (consumes_start ..) (met_start ..)
    refine ⟨⟨?_, ?_⟩, hmet, fun d hd hwell => ?_, fun hnone => ?_⟩
    · rw [hs.pending]
      exact List.drop_suffix ..
    · rw [hs.pending, List.length_drop, Nat.add_sub_cancel' hs.counted]
    · obtain ⟨t, hst, hexamined⟩ := examined_of_effects matchArgs hd
      refine ⟨t, hst, ?_⟩
      cases hexamined with
      | met x head meets counted => exact .inl ⟨x, head, meets, counted⟩
      | mismatch expected unmet queue e escapes verdict =>
        obtain ⟨hpending, hconsumed⟩ := Prod.mk.inj queue
        obtain rfl := unmet.eq_expectedAt hs
        refine .inr ⟨fun x hx => unmet.not_meets hx, hpending, hconsumed, ?_, e, escapes, verdict⟩
        rw [expectedAt_eq_null_iff readable]
        exact ⟨fun h => Nat.le_antisymm hs.counted h, fun h => h.ge⟩
      | incomparable x head queue fails =>
        obtain ⟨expected, hreads, hexpected⟩ := readable x (List.mem_of_mem_drop (hs.pending ▸ head))
        obtain ⟨b, hb⟩ := hexpected.exists_compare hwell matchArgs
        exact absurd hb (fails expected b hreads)
    · exact (queue_of_step matchArgs hnone).imp (fun _ h => Prod.mk.inj h) fun _ h => Prod.mk.inj h
  · obtain ⟨hstrict, n, hrun⟩ := runTest_strict gathered hlenient
    obtain ⟨hcounted, hpending⟩ := consumes_of_runFor hrun
    refine ⟨fun e he => ?_, fun v hv => ⟨hcounted, fun hall => ?_, fun hleft => ?_⟩⟩
    · rw [hstrict, judge_of_error he]
    · have hempty : r.pending = [] := by rw [hpending, hall, List.drop_length]
      rw [hstrict]
      simp [judge, hv, hempty]
    · have hne : r.pending.isEmpty = false := by
        rw [hpending, List.isEmpty_eq_false_iff, ne_eq, List.drop_eq_nil_iff]
        exact Nat.not_le_of_lt hleft
      refine ⟨(H.raise (leftOver r.pending) r.host).1, (H.raise (leftOver r.pending) r.host).2,
        ?_, ?_⟩
      · rw [← hpending]
        rfl
      · rw [hstrict]
        simp [judge, hv, hne]

/-- One expectation for the effect of the inner computation, and one that nothing meets. -/
def guardedExpected : List Expectation :=
  [⟨.list [.text "b"], .int 1, none⟩, ⟨.list [.list [.text "c"]], .null, none⟩]

/-- The inner computation gets its answer, and a strict test complains of the expectation that
is left. -/
theorem leftover_fails_strict_test :
    Readable guardedExpected ∧
      (∃ s, Transition.Reaches (step (guardedHost false) true) (start guardedStart 0 guardedExpected)
        s ∧ s.active = [1, 0] ∧ s.pending <:+ guardedExpected ∧ s.consumed + s.pending.length = 2) ∧
      ∃ e r, runTest (guardedHost false) 6 (.list (guardedExpected.map .expectation))
        (.computation 0) true true guardedStart = some r ∧ r.outcome = .error e ∧
        e.body = .unused [.list [.list [.text "c"]]] := by
  have hreadable : Readable guardedExpected := by
    intro x hx
    rcases List.mem_cons.1 hx with rfl | hx
    · exact ⟨⟨.direct, [.text "b"], [], none⟩, rfl, .call (by decide) (by decide) (by decide)⟩
    · rw [List.mem_singleton.1 hx]
      exact ⟨⟨.direct, [.text "c"], [], none⟩, rfl, .call (by decide) (by decide) (by decide)⟩
  obtain ⟨hall, htest⟩ :=
    expectations_met_in_order (guardedHost false) true guardedStart 0 guardedExpected hreadable
  have htrail : Transition.Trail (step (guardedHost false) true) (effects (guardedHost false))
      (start guardedStart 0 guardedExpected) _ _ := .single rfl
  obtain ⟨hqueue, -⟩ := hall _ _ htrail
  have hgathers := gathers_list (H := guardedHost false) guardedStart
    (show (guardedExpected.map .expectation).mapM ExpectationOf.coerce = .ok guardedExpected from rfl)
  obtain ⟨-, hreturns⟩ := htest _ _ hgathers 6 _ rfl
  obtain ⟨-, -, hleft⟩ := hreturns (.text "passed") rfl
  obtain ⟨e, host', hbody, hstrict⟩ := hleft (by decide)
  exact ⟨hreadable, ⟨_, htrail.reaches, rfl, hqueue⟩, e, _, hstrict, rfl, hbody⟩

end Harness
end DescribedEffects
