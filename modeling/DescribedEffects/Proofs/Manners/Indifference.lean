import DescribedEffects.Proofs.Computation.Behaviour
import DescribedEffects.Proofs.Manners.Course

/-!
# The manner of delivery does not matter

A computation is driven beside functions that have one outcome each for the same arguments.
`Interpreter.delivery_does_not_matter` says that its result and the trace of its effects are the
same in whatever manner the functions hand over their outcomes.  The two runs have little in
common: they take different numbers of steps, and what is late in one of them may still be at
work when the next effect is performed, or has been over long before.  What they share is their
course, which does not mention a manner, and either comes to what the course comes to
(`comesTo_iff_course`).

## What is asked of the computation

An item with two failing leaves has the outcome of the leaf that fails first, and which one this
is depends on the manner.  So there is at most one failing leaf in every effect that is yielded
(`Modestly`).  This is asked of the effects of one of the runs, and holds of the other because
both are on the same course.

A completion callback is made by the library for one call of a callback-style function, so a
computation that depends only on what is sent and thrown into it never has one, and the
functions have none to give away.  Values do not rule it out that one is found in the context or
given to a function that is called directly, which could not be told from a callback-style
function then; `Modestly` does (`Plan.IsRegular`).

## How long it takes

A run that sleeps takes more steps than one that does not, so the bound on the steps is not the
same for both.  `ComesTo` asks what a run comes to if it may take enough steps, and a run that
never ends comes to nothing.
-/

namespace DescribedEffects

/-- What an operation comes to if it may take enough steps. -/
def ComesTo {α : Type} (f : Nat → Verdict α) (v : Verdict α) : Prop :=
  (∃ fuel, f fuel = v) ∧ v ≠ .error .unfinished

namespace EventLoop

variable {P S S' : Type} {α : Type} {C : Programs P} {K : Callables} {M : Manner S}
  {M' : Manner S'} {A : Arena} {context : Value} {captured : Bool} {trace : Option Trace}
  {g : Nat} {p : P} {mood : S} {items minted : Nat}

/-- A computation that is driven in a loop beside which nothing goes on yet. -/
def outset (A : Arena) (trace : Option Trace) (captured : Bool) (g : Nat) (p : P) (mood : S)
    (items minted : Nat) : Loop P S :=
  State.start (p, ⟨.start mood, items, minted⟩) A.number A.earlier
    (.drive (.computation g) trace captured)

/-- The beginning of a course. -/
def Course.start (g : Nat) (p : P) (items : Nat) (trace : Option Trace) : Course P :=
  ⟨.telling ⟨p, [g], .send .null⟩ items, trace⟩

variable (C K M A) in
/-- Every effect that is yielded on the way has one failing leaf at most, and misuses no completion
callback. -/
def Modestly (trace : Option Trace) (captured : Bool) (g : Nat) (p : P) (mood : S)
    (items minted : Nat) : Prop :=
  ∀ u d, Transition.Reaches (step (C.host (K.world M)) A.context)
    (outset A trace captured g p mood items minted) u → u.driven? = some d →
      (Plan.ofDescriptor d).Modest K A.context

variable (C K M A) in
/-- The loop begins to drive, and is on its course. -/
theorem exists_onCourse (trace : Option Trace) (captured : Bool) (g : Nat) (p : P) (mood : S)
    (items minted : Nat) :
    ∃ s, Transition.Trail (step (C.host (K.world M)) A.context) (shows C)
        (outset A trace captured g p mood items minted) [] s ∧
      OnCourse C M K A.context captured (.start g p items trace) s := by
  let host : P × Site (Scene S) := (p, ⟨.start mood, items, minted⟩)
  obtain ⟨htrail, hsteady⟩ :=
    trail_begun C (K.world M) A.context host A.number A.earlier g trace captured
  refine ⟨_, htrail, hsteady, ?_, ?_⟩
  · exact .telling ⟨p, [g], .send .null⟩ _ [] ⟨[], none, trace⟩ _ rfl (List.cons_ne_nil _ _)
      rfl rfl
  · exact .telling _ items (clear_begun p mood items minted A.number A.earlier g trace captured)

/-- The course does not depend on the manner. -/
theorem Modestly.course (h : Modestly C K M A trace captured g p mood items minted) :
    (Course.start g p items trace).AllModest C K A.context := by
  obtain ⟨s, htrail, hs⟩ := exists_onCourse C K M A trace captured g p mood items minted
  exact allModest_of_loop hs fun u d hu hd => h u d (htrail.reaches.trans hu) hd

/-- How the end of a course is read. -/
def readCourse (captured : Bool) (view : Outcome × Option Trace → Value → α)
    (x : Outcome × Option Trace) : Verdict α :=
  match result captured x.1 with
  | .ok v => .ok (view x v)
  | .error e => .error (.raised e)

/-- What is left of a driven computation is read off its outcome and its trace. -/
def Views (read : Loop P S → Value → α) (view : Outcome × Option Trace → Value → α) : Prop :=
  ∀ s o t v, s.tasks[0]?.map Task.phase = some (.finished (some ⟨o, t⟩)) →
    read s v = view (o, t) v

theorem verdict_of_completes {read : Loop P S → Value → α}
    {view : Outcome × Option Trace → Value → α} (views : Views read view)
    {x : Outcome × Option Trace} {r : Ending (P × Site (Scene S))} (h : Completes captured x r)
    (host : P × Site (Scene S)) :
    (conclude read host (some r)).verdict = readCourse captured view x := by
  obtain ⟨t, rfl, hreport⟩ := h.finished
  unfold readCourse
  cases hresult : result captured x.1 with
  | ok v => exact congrArg Except.ok (views t x.1 x.2 v hreport)
  | error e => rfl

/-- **A run comes to what its course comes to**, in whatever manner. -/
theorem comesTo_iff_course {read : Loop P S → Value → α}
    {view : Outcome × Option Trace → Value → α} (views : Views read view)
    (modest : (Course.start g p items trace).AllModest C K A.context) (v : Verdict α) :
    let host := (p, (⟨.start mood, items, minted⟩ : Site (Scene S)))
    ComesTo (fun fuel => (conclude read host ({ A with fuel }.run (C.host (K.world M))
        (.drive (.computation g) trace captured) host)).verdict) v ↔
      ∃ ls x, Transition.Ends (Course.step C K A.context) (Course.shows C K A.context)
        (.start g p items trace) ls x ∧ readCourse captured view x = v := by
  intro host
  obtain ⟨s, htrail, hs⟩ := exists_onCourse C K M A trace captured g p mood items minted
  constructor
  · rintro ⟨⟨fuel, hfuel⟩, hunfinished⟩
    dsimp only at hfuel
    cases hrun : Arena.run { A with fuel } (C.host (K.world M))
        (.drive (.computation g) trace captured) host with
    | none =>
      rw [hrun] at hfuel
      exact absurd hfuel.symm hunfinished
    | some r =>
      rw [hrun] at hfuel
      obtain ⟨ls, hls⟩ := (Transition.exists_ends_iff (shows C)).1 ⟨fuel, hrun⟩
      obtain ⟨ms, -, hends⟩ := htrail.rest hls
      obtain ⟨x, hcourse, hcompletes⟩ := ends_iff_course hs modest hends
      exact ⟨ms, x, hcourse, (verdict_of_completes views hcompletes host).symm.trans hfuel⟩
  · rintro ⟨ls, x, hcourse, rfl⟩
    obtain ⟨r, hends, hcompletes⟩ := ends_of_course hcourse hs modest
    obtain ⟨fuel, hfuel⟩ :=
      (Transition.exists_ends_iff (shows C)).2 ⟨_, htrail.ends hends⟩
    refine ⟨⟨fuel, ?_⟩, ?_⟩
    · have hrun : Arena.run { A with fuel } (C.host (K.world M))
          (.drive (.computation g) trace captured) host = some r := hfuel
      dsimp only
      rw [hrun]
      exact verdict_of_completes views hcompletes host
    · unfold readCourse
      split <;> simp

end EventLoop

open EventLoop

variable {P S S' : Type}

/-- **The manner of delivery does not matter.**  The functions of a context have the outcomes
`K`, and hand them over in one manner or in another.  If no effect that is yielded has more than
one failing leaf, a driven computation comes to the same result or exception in both, and a run
of it to the same outcome and the same trace. -/
theorem Interpreter.delivery_does_not_matter (C : Programs P) (K : Callables) (M : Manner S)
    (M' : Manner S') (I : Interpreter) (A : Arena) (g : Nat) (p : P) (mood : S) (mood' : S')
    (items minted : Nat) :
    let H := C.host (K.world M)
    let H' := C.host (K.world M')
    let host := (p, (⟨.start mood, items, minted⟩ : Site (Scene S)))
    let host' := (p, (⟨.start mood', items, minted⟩ : Site (Scene S')))
    (Modestly C K M A none false g p mood items minted → ∀ v,
      ComesTo (fun fuel => ({ A with fuel }.drive H (.computation g) host).verdict) v ↔
        ComesTo (fun fuel => ({ A with fuel }.drive H' (.computation g) host').verdict) v) ∧
    (Modestly C K M A (some I.newTrace) true g p mood items minted → ∀ v,
      ComesTo (fun fuel => (I.run { A with fuel } H (.computation g) host).verdict) v ↔
        ComesTo (fun fuel => (I.run { A with fuel } H' (.computation g) host').verdict) v) := by
  intro H H' host host'
  refine ⟨fun modest v => ?_, fun modest v => ?_⟩
  · have hviews : ∀ {T : Type}, Views (fun (_ : Loop P T) v => v) fun _ v => v :=
      fun _ _ _ _ _ => rfl
    exact (comesTo_iff_course hviews modest.course v).trans
      (comesTo_iff_course hviews modest.course v).symm
  · have hviews : ∀ {T : Type}, Views (fun (s : Loop P T) v =>
        (s.result? 0).getD ⟨.ok v, I.newTrace⟩) fun x v =>
          (x.2.map fun t => (⟨x.1, t⟩ : RunResult)).getD ⟨.ok v, I.newTrace⟩ := by
      intro T s o t v hphase
      dsimp only [State.result?]
      rw [hphase]
      cases t <;> rfl
    exact (comesTo_iff_course hviews modest.course v).trans
      (comesTo_iff_course hviews modest.course v).symm

/-! ## Two manners -/

/-- Where a computation is that deals with a failure. -/
inductive Dealing
  | begun
  | failed
  | retried

/-- It performs a group of two effects, and the first of them again if the group fails. -/
def dealer : Behaviour Dealing where
  resume
    | .begun, .send _ =>
      .yielded (.descriptor ⟨.parallel, [], [.list [.text "a"],
        .descriptor ⟨.callback, [.text "b"], [.int 1], none⟩], none⟩) rfl .failed
    | .failed, .throw _ => .listed [.text "a"] .retried
    | .retried, .send v => .returned v
    | _, _ => .returned .null

/-- Functions that take no arguments. -/
def austere : Callables where
  outcome _ args := if args.isEmpty then .ok (.int 7) else .error ⟨0, .plain .value []⟩
  plain h := by
    split at h
    · cases h
      rfl
    · cases h
  ordinary h := by
    split at h
    · cases h
    · cases h
      rfl
  lasting h := by
    split at h
    · cases h
    · cases h
      rfl

/-- Functions return or raise, and call back before they return. -/
def prompt : Manner Unit :=
  ⟨fun _ _ s => (.plain, s), fun _ _ s => (.called, s), fun _ _ => true, id⟩

/-- Functions return coroutines that sleep, and call back from threads. -/
def leisurely : Manner Unit :=
  ⟨fun _ _ s => (.coroutine [2, 0], s), fun _ _ s => (.thread 1, s), fun _ _ => false, id⟩

/-- Where the dealer finds its functions. -/
def dealerArena : Arena :=
  ⟨40, 0, [], .record [(.text "a", .function "f"), (.text "b", .function "g")]⟩

/-- The dealer beside functions of a certain manner. -/
abbrev dealing (M : Manner Unit) : Host (Computations Dealing × Site (Scene Unit)) :=
  dealer.programs.host (austere.world M)

/-- The dealer before it is resumed. -/
def dealerStart : Computations Dealing × Site (Scene Unit) :=
  (.single .begun, ⟨.start (), 0, 0⟩)

/-- The effects of the dealer, in the order in which it yields them. -/
def dealerEffects : List Descriptor :=
  [⟨.parallel, [], [.list [.text "a"], .descriptor ⟨.callback, [.text "b"], [.int 1], none⟩], none⟩,
    ⟨.direct, [.text "a"], [], none⟩]

/-- Only one leaf of the dealer's effects fails. -/
theorem modestly_prompt {trace : Option Trace} {captured : Bool}
    (watched : (Transition.watchFor
        (step (dealer.programs.host (austere.world prompt)) dealerArena.context)
        (fun s => s.driven?.toList) 40
        (outset dealerArena trace captured 0 (.single .begun) () 0 0)).map Prod.fst =
      some dealerEffects) :
    Modestly dealer.programs austere prompt dealerArena trace captured 0 (.single .begun) ()
      0 0 := by
  obtain ⟨⟨ls, r⟩, hwatch, hls⟩ := Option.map_eq_some_iff.1 watched
  obtain rfl : ls = _ := hls
  have hends := Transition.exists_watchFor_iff.1 ⟨40, hwatch⟩
  intro u d hu hd
  have hmem := hends.mem_of_reaches hu (l := d) (by rw [hd]; exact List.mem_singleton_self d)
  have hsingle : ∀ d : Descriptor, d.args = [] ∨ d.mode = .callback →
      (∃ f, Context.lookup dealerArena.context d.path = .ok (.function f)) →
        (Plan.single d).IsRegular dealerArena.context := by
    rintro d hargs ⟨f, hf⟩ v hv
    obtain rfl := Except.ok.inj (hf.symm.trans hv)
    refine ⟨rfl, fun hmode w hw => ?_⟩
    rcases hargs with hargs | hcallback
    · rw [hargs] at hw
      cases hw
    · rw [hmode] at hcallback
      cases hcallback
  rcases List.mem_cons.1 hmem with rfl | hmem
  · refine ⟨by decide, Plan.isRegular_group.2 fun x hx => ?_⟩
    rcases List.mem_cons.1 hx with rfl | hx
    · exact hsingle _ (.inl rfl) ⟨_, rfl⟩
    · obtain rfl := List.mem_singleton.1 hx
      exact hsingle _ (.inr rfl) ⟨_, rfl⟩
  · obtain rfl := List.mem_singleton.1 hmem
    exact ⟨by decide, hsingle _ (.inl rfl) ⟨_, rfl⟩⟩

/-- Beside prompt functions the dealer comes to a result after two effects. -/
theorem prompt_dealer_runs :
    (dealerArena.drive (dealing prompt) (.computation 0) dealerStart).verdict = .ok (.int 7) ∧
      ∃ r, (Interpreter.run ⟨.unbounded⟩ dealerArena (dealing prompt) (.computation 0)
          dealerStart).verdict = .ok r ∧ r.outcome = .ok (.int 7) ∧
        r.trace.log.entries.map Record.descriptor = dealerEffects :=
  ⟨rfl, _, rfl, rfl, rfl⟩

/-- **Functions that take their time make no difference**, while one that is late is still at
work when the next effect is performed. -/
theorem leisure_makes_no_difference :
    (∃ v, ComesTo (fun fuel =>
        ({ dealerArena with fuel }.drive (dealing prompt) (.computation 0) dealerStart).verdict)
        (.ok v) ∧
      ComesTo (fun fuel =>
        ({ dealerArena with fuel }.drive (dealing leisurely) (.computation 0) dealerStart).verdict)
        (.ok v)) ∧
    ∃ r, ComesTo (fun fuel => (Interpreter.run ⟨.unbounded⟩ { dealerArena with fuel }
        (dealing prompt) (.computation 0) dealerStart).verdict) (.ok r) ∧
      ComesTo (fun fuel => (Interpreter.run ⟨.unbounded⟩ { dealerArena with fuel }
        (dealing leisurely) (.computation 0) dealerStart).verdict) (.ok r) ∧
      r.outcome = .ok (.int 7) ∧ r.trace.log.entries.map Record.descriptor = dealerEffects := by
  obtain ⟨hdrives, r, hruns, houtcome, hentries⟩ := prompt_dealer_runs
  obtain ⟨hdrive, hrun⟩ := Interpreter.delivery_does_not_matter dealer.programs austere prompt
    leisurely ⟨.unbounded⟩ dealerArena 0 (.single .begun) () () 0 0
  have hdriven : ComesTo (fun fuel =>
      ({ dealerArena with fuel }.drive (dealing prompt) (.computation 0) dealerStart).verdict)
      (.ok (.int 7)) := ⟨⟨40, hdrives⟩, fun h => by cases h⟩
  have hran : ComesTo (fun fuel => (Interpreter.run ⟨.unbounded⟩ { dealerArena with fuel }
      (dealing prompt) (.computation 0) dealerStart).verdict) (.ok r) :=
    ⟨⟨40, hruns⟩, fun h => by cases h⟩
  exact ⟨⟨.int 7, hdriven, (hdrive (modestly_prompt rfl) _).1 hdriven⟩, r, hran,
    (hrun (modestly_prompt rfl) _).1 hran, houtcome, hentries⟩

end DescribedEffects
