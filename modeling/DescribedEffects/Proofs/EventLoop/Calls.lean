import DescribedEffects.Proofs.EventLoop.Waiting

/-!
# Who calls what

`calls` are the function calls that a step makes on behalf of the task that the loop is busy
with, read off the transcript of the host.  Only the step that performs an effect makes any,
and it makes one at most: `calls_of_perform` says which, and `calls_of_quiet` that no other
step of a task does.

For the second the host is replaced by one whose functions do nothing (`Host.uncalled`): a step
that calls no function is a step of that host too, and none of its other questions leaves a call
in the transcript.
-/

namespace DescribedEffects

/-- The function that was called, with its arguments. -/
def Act.call? : Act → Option (Value × List Value)
  | .called f args _ => some (f, args)
  | _ => none

/-- The calls of a stretch of a transcript, in order. -/
def callsIn (acts : List Act) : List (Value × List Value) := acts.filterMap Act.call?

theorem callsIn_concat (acts : List Act) (act : Act) :
    callsIn (acts ++ [act]) = callsIn acts ++ act.call?.toList := by
  unfold callsIn
  rw [List.filterMap_append]
  cases h : act.call? <;> simp [h]

/-- A host with the same answers, whose functions do nothing. -/
def Host.uncalled {σ : Type} (H : Host σ) : Host σ :=
  { H with call := fun _ _ s => (.ok .null, s) }

/-- The function that a single effect calls. -/
def Context.callee? (context : Value) (d : Descriptor) : Option Value :=
  if d.mode = .parallel then none
  else
    match Context.lookup context d.path with
    | .ok f => if f.isCallable then some f else none
    | .error _ => none

/-- The arguments of the call, for an effect that would get the given number. -/
def Descriptor.callArgs (d : Descriptor) (run effect : Nat) : List Value :=
  if d.mode = .callback then d.args ++ [.done run effect] else d.args

namespace EventLoop

/-- A call of a function on behalf of a task. -/
structure Call where
  task : Nat
  function : Value
  args : List Value

variable {σ : Type}

/-- The calls that the next step makes on behalf of the task that the loop is busy with. -/
def calls (H : Host σ) (context : Value) (s : State (σ × List Act)) : List Call :=
  match s.control.task?, step H.recorded context s with
  | some k, .next u =>
    ((callsIn u.host.2).drop (callsIn s.host.2).length).map fun c => ⟨k, c.1, c.2⟩
  | _, _ => []

variable {H : Host σ} {context : Value} {t : Nat} {claims completes : Nat → Prop}
  {s u : State (σ × List Act)} {d : Descriptor} {goal : Goal}

/-! ## Steps that call nothing -/

theorem callsIn_of_asked {a b : σ × List Act} (h : H.recorded.uncalled.Asked a b) :
    callsIn b.2 = callsIn a.2 := by
  cases h with
  | call f args _ => rfl
  | fresh _ => rfl
  | blame id cause _ => rfl
  | _ => exact (callsIn_concat _ _).trans (List.append_nil _)

theorem callsIn_of_change (h : Change H.recorded.uncalled t claims completes s u) :
    callsIn u.host.2 = callsIn s.host.2 := by
  rcases host_of_change h with hhost | hasked | rfl
  · rw [hhost]
  · exact callsIn_of_asked hasked
  · rw [host_grantAll]
    exact (callsIn_concat _ _).trans (List.append_nil _)

/-- **What calls no function leaves no call behind.** -/
theorem callsIn_of_changes (h : Changes H.recorded.uncalled t claims completes s u) :
    callsIn u.host.2 = callsIn s.host.2 :=
  h.kept (P := fun v => callsIn v.host.2 = callsIn s.host.2)
    (fun hc hv => (callsIn_of_change hc).trans hv) rfl

theorem callsIn_of_freeChanges (h : FreeChanges H.recorded.uncalled t s u) :
    callsIn u.host.2 = callsIn s.host.2 :=
  callsIn_of_changes h

/-- A step that performs no effect and is no job calls nothing. -/
theorem step_uncalled (H : Host σ) (context : Value) {s : State σ} (busy : s.control ≠ .idle)
    (quiet : ∀ k goal d, s.control ≠ .perform k goal d) :
    step H.uncalled context s = step H context s := by
  unfold step
  cases hc : s.control with
  | idle => exact absurd hc busy
  | perform k goal d => exact absurd hc (quiet k goal d)
  | outcome k goal o => rfl
  | deliver k j captured signal => rfl

/-- **Only effects call functions.** -/
theorem calls_of_quiet (quiet : ∀ k goal d, s.control ≠ .perform k goal d) :
    calls H context s = [] := by
  unfold calls
  cases htask : s.control.task? with
  | none => rfl
  | some k =>
    have hbusy : s.control ≠ .idle := fun hidle => by rw [hidle] at htask; cases htask
    obtain ⟨u, hu, hchanges⟩ := freeChanges_step H.recorded.uncalled context s htask
    have hsame : callsIn u.host.2 = callsIn s.toIdle.host.2 := callsIn_of_changes hchanges
    change callsIn u.host.2 = callsIn s.host.2 at hsame
    rw [step_uncalled H.recorded context hbusy quiet] at hu
    simp only [hu, hsame, List.drop_length, List.map_nil]

/-! ## Performing an effect -/

/-- A function has been called, and the requests that it made are granted. -/
theorem callsIn_of_call (s : State (σ × List Act)) (f : Value) (args : List Value) :
    callsIn (grantAll H.recorded { s with host := (H.recorded.call f args s.host).2 }).host.2 =
      callsIn s.host.2 ++ [(f, args)] := by
  rw [host_grantAll]
  refine (callsIn_concat _ _).trans ((List.append_nil _).trans ?_)
  exact callsIn_concat _ _

/-- What a function came to calls nothing more. -/
theorem callsIn_acceptDirect (s : State (σ × List Act)) (o : Outcome) :
    callsIn (acceptDirect H.recorded s t goal o).host.2 = callsIn s.host.2 :=
  callsIn_of_freeChanges (H := H) (s := s)
    (changes_acceptDirect (H := H.recorded.uncalled) s goal o)

theorem callsIn_acceptCallback {p : Nat} (hp : Awaitable s p) (effect : Nat) (o : Outcome) :
    callsIn (acceptCallback H.recorded s t goal effect p d o).host.2 = callsIn s.host.2 :=
  callsIn_of_freeChanges (H := H) (s := s)
    (changes_acceptCallback (H := H.recorded.uncalled) trivial s goal hp d o)

theorem callsIn_performDirect (s : State (σ × List Act)) (f : Value) :
    callsIn (performDirect H.recorded s t goal f d).host.2 =
      callsIn s.host.2 ++ [(f, d.args)] :=
  (callsIn_acceptDirect _ _).trans (callsIn_of_call s f d.args)

theorem callsIn_performCallback (s : State (σ × List Act)) (f : Value) :
    callsIn (performCallback H.recorded s t goal f d).host.2 =
      callsIn s.host.2 ++ [(f, d.args ++ [.done s.run s.effects.length])] :=
  (callsIn_acceptCallback (Awaitable.grantAll (.effect (by simp))) _ _).trans
    (callsIn_of_call { s.newPromise.2 with
      effects := s.effects ++ [⟨d, false, s.promises.length⟩] } f _)

theorem callsIn_arriveShielded (s : State (σ × List Act)) (sentence : String) (e : Exn) :
    callsIn (arriveShielded H.recorded s t goal sentence e).host.2 = callsIn s.host.2 :=
  callsIn_of_freeChanges (H := H) (s := s)
    (changes_arriveShielded (H := H.recorded.uncalled) s goal sentence e)

variable (H context) in
/-- **Performing an effect calls the function that the effect calls**, and nothing else. -/
theorem callsIn_perform (s : State (σ × List Act)) (t : Nat) (goal : Goal) (d : Descriptor) :
    callsIn (perform H.recorded context s t goal d).host.2 = callsIn s.host.2 ++
      ((Context.callee? context d).map fun f => (f, d.callArgs s.run s.effects.length)).toList := by
  unfold perform Context.callee?
  split
  · next hmode =>
    have hgather := callsIn_of_freeChanges (H := H) (s := s.note (.dispatching d.args.length))
      (changes_gather (H := H.recorded.uncalled) (t := t) _ goal (d.args.map .perform))
    rw [if_pos hmode]
    exact hgather.trans (List.append_nil _).symm
  · next hmode =>
    rw [if_neg fun h => hmode h]
    split
    · next fault hfault =>
      rw [hfault]
      refine (callsIn_arriveShielded _ _ _).trans ((List.append_nil _).symm.trans ?_)
      cases fault.complaint (.tuple d.path) d.path <;> rfl
    · next f hf =>
      rw [hf]
      dsimp only
      cases hcallable : f.isCallable with
      | false =>
        have hvalue : Context.classify f d.mode = .value := by
          simp [Context.classify, hcallable]
        simp only [hvalue]
        exact (List.append_nil _).symm
      | true =>
        by_cases hcallback : d.mode = .callback
        · have hhow : Context.classify f d.mode = .callback :=
            classify_eq_callback.2 ⟨hcallback, hcallable⟩
          simp only [hhow, Descriptor.callArgs, if_pos hcallback]
          exact callsIn_performCallback (s.note _) f
        · have hhow : Context.classify f d.mode = .direct := by
            simp [Context.classify, hcallable, hcallback]
          simp only [hhow, Descriptor.callArgs, if_neg hcallback]
          exact callsIn_performDirect (s.note _) f

/-- **The call that the step of an effect makes.** -/
theorem calls_of_perform {k : Nat} (performs : s.control = .perform k goal d) :
    calls H context s = ((Context.callee? context d).map fun f =>
      (⟨k, f, d.callArgs s.run s.effects.length⟩ : Call)).toList := by
  have hstep :
      step H.recorded context s = .next (perform H.recorded context s.toIdle k goal d) := by
    simp only [step, performs]
    rfl
  have hcalls := callsIn_perform H context s.toIdle k goal d
  have htask : s.control.task? = some k := by rw [performs]; rfl
  unfold calls
  simp only [htask, hstep, hcalls]
  rw [show s.toIdle.host = s.host from rfl, List.drop_left]
  cases Context.callee? context d <;> rfl

end EventLoop
end DescribedEffects
