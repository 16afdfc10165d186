import DescribedEffects.Proofs.Computation.Joint
import DescribedEffects.Proofs.EventLoop.MainTask
import DescribedEffects.Proofs.EventLoop.Waiting
import Mathlib.Data.List.Permutation

/-!
# The first completion wins

A task performs a callback-style effect and waits for its outcome.  `resolve` is the loop up
to the moment when the outcome reaches the task, or to its end, and it shows the completions
of the effect that each step hears of.

`first_completion_wins` is about every run of every loop in which all completions are proper
ones (`Completion.isProper`).  The outcome that reaches the task is the one that the first of
them stands for, however many follow and in whatever order.  And it does reach the task: once a
completion has been heard of, the loop comes to hand over the outcome, unless it is stopped
because its main task is complete, or some program keeps it from its queue for good.
-/

namespace DescribedEffects
namespace EventLoop

variable {σ : Type}

/-- What becomes of a task that waits for an outcome. -/
inductive Fate (σ : Type) where
  | answered (goal : Goal) (o : Outcome) (s : State σ)
  /-- The loop ends before. -/
  | over (r : Ending σ)

/-- What has reached the task. -/
def Fate.answer? : Fate σ → Option (Goal × Outcome)
  | .answered goal o _ => some (goal, o)
  | .over _ => none

/-- The loop up to the moment when an outcome reaches a task. -/
def resolve (H : Host σ) (context : Value) (t : Nat) (s : State σ) :
    Transition (State σ) (Fate σ) :=
  match s.control with
  | .outcome i goal o =>
    if i = t then .done (.answered goal o s)
    else (step H context s).map id .over
  | _ => (step H context s).map id .over

variable {H : Host σ} {context : Value} {t : Nat} {i p : Nat} {d : Descriptor} {run : Nat}
  {first : Option Completion} {goal : Goal}

/-! ## How it begins -/

@[simp] theorem host_block (s : State σ) (k : Nat) (g : Goal) (q : Nat) :
    (block s k g q).host = s.host := by
  unfold block
  split
  · rfl
  · exact (host_setPhase ..).trans (host_subscribe ..)

/-- A task begins to wait for a promise that is open. -/
theorem waits_block {s : State σ} (made : p < s.promises.length) (opened : s.outcome? p = none)
    (ht : t < s.tasks.length) (goal : Goal) : Waits t goal p (block s t goal p) := by
  obtain ⟨waiters, hw⟩ : ∃ waiters, s.promises[p]? = some ⟨none, waiters⟩ := by
    have hp : s.promises[p]? = some s.promises[p] := List.getElem?_eq_getElem made
    rcases hpr : s.promises[p] with ⟨_ | x, waiters⟩
    · exact ⟨waiters, by rw [hp, hpr]⟩
    · simp [State.outcome?, hp, hpr] at opened
  have htask : s.tasks[t]? = some s.tasks[t] := List.getElem?_eq_getElem ht
  have hblock : block s t goal p =
      { s with
        promises := s.promises.set p ⟨none, waiters ++ [.step t]⟩
        tasks := s.tasks.set t ⟨.blocked goal p, s.tasks[t].promise⟩
        control := .idle } := by
    simp [block, opened, State.subscribe, hw, State.setPhase, htask, State.toIdle]
  rw [hblock]
  refine ⟨?_, fun h => (by cases h), .inl ⟨_, List.getElem?_set_self made, by simp⟩⟩
  simp [List.getElem?_set_self ht]

/-- A task begins to wait for an effect, or the outcome is there. -/
theorem waiting_of_block (H : Host σ) {s : State (σ × List Act)}
    (hs : Pending i p d run first s) (ht : t < s.tasks.length) (goal : Goal) :
    (Pending i p d run first (block s t goal p) ∧ Waits t goal p (block s t goal p)) ∨
      ∃ c o, first = some c ∧ (block s t goal p).control = .outcome t goal o ∧
        Decides d c o := by
  cases ho : s.outcome? p with
  | some o =>
    obtain ⟨c, hfirst, hd⟩ := hs.decided ho
    refine .inr ⟨c, o, hfirst, ?_, hd⟩
    unfold block
    rw [ho]
    rfl
  | none =>
    have hmade := hs.made
    refine .inl ⟨?_, ?_⟩
    · have hblock : Changes H.recorded t (· ≠ i) (· ≠ p) s (block s t goal p) :=
        changes_block s goal
          (.effect (List.mem_map_of_mem (List.mem_of_getElem? hs.effect)))
      have hafter := (underway_of_changes hblock hs.underway).pending
      rw [host_block, List.drop_length] at hafter
      simpa [completionsIn] using hafter
    · exact waits_block hmade ho ht goal

/-- An effect that has just been opened is on its way, and nothing has been heard of it. -/
theorem pending_of_open {s : State σ} (sound : Sound s) (opened : Sound
      { s.newPromise.2 with effects := s.effects ++ [⟨d, false, s.promises.length⟩] }) :
    Pending s.effects.length s.promises.length d s.run none
      { s.newPromise.2 with effects := s.effects ++ [⟨d, false, s.promises.length⟩] } where
  sound := opened
  made := by simp [State.newPromise]
  owed hp := Nat.lt_irrefl _ (sound.owed _ hp)
  others j e he hj := by
    have he : (s.effects ++ [(⟨d, false, s.promises.length⟩ : PendingEffect)])[j]? = some e := he
    rw [List.getElem?_append] at he
    split at he
    · exact Nat.ne_of_lt (sound.effects e (List.mem_of_getElem? he))
    · next hlt =>
      have hzero := (List.getElem?_eq_some_iff.1 he).1
      rw [List.length_singleton] at hzero
      omega
  run := rfl
  standing := by
    refine .opened List.getElem?_concat_length ?_ fun j hj hi => ?_
    · simp [State.outcome?, State.newPromise]
    · exact Nat.lt_irrefl _ (sound.settles j hj _ hi)

@[simp] theorem transcript_arriveShielded (H : Host σ) (s : State (σ × List Act)) (t : Nat)
    (goal : Goal) (sentence : String) (e : Exn) :
    (arriveShielded H.recorded s t goal sentence e).host.2 = s.host.2 := by
  have hshield : (H.recorded.shield sentence e s.host).2.2 = s.host.2 := by
    unfold Host.shield
    split <;> rfl
  exact hshield

/-- What becomes of the answer of a callback-style function is not in the transcript. -/
theorem transcript_acceptCallback (H : Host σ) (s : State (σ × List Act)) (t : Nat)
    (goal : Goal) (i p : Nat) (d : Descriptor) (o : Outcome) :
    (acceptCallback H.recorded s t goal i p d o).host.2 = s.host.2 := by
  have hblock : ∀ u : State (σ × List Act), (block u t goal p).host.2 = u.host.2 :=
    fun u => congrArg Prod.snd (host_block u t goal p)
  rcases o with e | v
  · unfold acceptCallback
    dsimp only
    split
    · split
      · rw [transcript_arriveShielded, host_claim]
      · rw [hblock]
        exact congrArg Prod.snd (host_claim s i)
    · rfl
  · unfold acceptCallback
    dsimp only
    split
    · exact hblock _
    · exact hblock _

/-- The function was called, and the effect may have been reported meanwhile.  A failure of
the function is one more report. -/
theorem waiting_of_acceptCallback (H : Host σ) {s : State (σ × List Act)}
    (hs : Pending i p d run first s) (ht : t < s.tasks.length) (goal : Goal) {o : Outcome}
    (clean : ∀ e, o = .error e → e.isOrdinary = true ∧ e.isExhausted = false)
    (f : Value) (args : List Value) :
    let after := first.or (Act.failure? (.called f args o))
    let u := acceptCallback H.recorded s t goal i p d o
    (Pending i p d run after u ∧ Waits t goal p u) ∨
      ∃ c x, after = some c ∧ u.control = .outcome t goal x ∧ Decides d c x := by
  intro after u
  rcases o with e | v
  · obtain ⟨hordinary, hexhausted⟩ := clean e rfl
    cases hc : first with
    | none =>
      have hclaim : (s.claim i).1 = true := by
        have heffect := hs.effect
        rw [hc] at heffect
        rw [State.claim_of_unclaimed heffect rfl]
      refine .inr ⟨.failed e, .error e, ?_, ?_, .raised e⟩
      · simp [after, hc, Act.failure?]
      · simp [u, acceptCallback, hordinary, hclaim, arriveShielded, Host.shield, hexhausted,
          State.arrive]
    | some c =>
      have hclaim : s.claim i = (false, s) := (hc ▸ hs).claim_of_some
      have hnoted : Pending i p d run first (s.note (.ignoring e d)) := hs.frame _ _ _ _ _
      have hblock := waiting_of_block H hnoted ht goal
      have hu : u = block (s.note (.ignoring e d)) t goal p := by
        simp [u, acceptCallback, hordinary, hclaim]
      rw [hu, show after = first from by simp [after, hc]]
      exact hblock
  · have hafter : after = first := by simp [after, Act.failure?]
    rw [hafter]
    by_cases hv : v.isAwaitable = true
    · have htask : Changes H.recorded t (· ≠ i) (· ≠ p) s (s.newTask (.watch i v)).2 :=
        Change.changes (.tasked s _)
      have hpending : Pending i p d run first (s.newTask (.watch i v)).2 := by
        have hp := (underway_of_changes htask hs.underway).pending
        have hhost : (s.newTask (.watch i v)).2.host = s.host := rfl
        rw [hhost, List.drop_length] at hp
        simpa [completionsIn] using hp
      have hu : u = block (s.newTask (.watch i v)).2 t goal p := by
        simp [u, acceptCallback, hv]
      rw [hu]
      exact waiting_of_block H hpending (Nat.lt_of_lt_of_le ht (onward_of_changes htask).tasks) goal
    · have hu : u = block s t goal p := by simp [u, acceptCallback, hv]
      rw [hu]
      exact waiting_of_block H hs ht goal

/-- The loop calls a callback-style function for a task. -/
theorem step_of_callback {s : State σ} {f : Value} (hc : s.control = .perform t goal d)
    (hmode : d.mode = .callback) (hlookup : Context.lookup context d.path = .ok f)
    (hf : f.isCallable = true) :
    step H context s =
      .next (performCallback H (s.toIdle.note (.resolving d .callback)) t goal f d) := by
  simp only [step, hc, perform, hmode, hlookup, Context.classify, hf, if_true]
  rfl

/-- **A task performs a callback-style effect.**  It waits for the outcome, or the outcome
that the first completion stands for is there at once. -/
theorem waiting_of_performCallback {a u : State (σ × List Act)} {f : Value} (sound : Sound a)
    (placed : Placed a) (hc : a.control = .perform t goal d) (hmode : d.mode = .callback)
    (hlookup : Context.lookup context d.path = .ok f) (hf : f.isCallable = true)
    (clean : ∀ c ∈ reports H context a.effects.length a, c.isProper = true)
    (h : step H.recorded context a = .next u) :
    (Pending a.effects.length a.promises.length d a.run
        (reports H context a.effects.length a).head? u ∧ Waits t goal a.promises.length u) ∨
      ∃ c o, (reports H context a.effects.length a).head? = some c ∧
        u.control = .outcome t goal o ∧ Decides d c o := by
  let noted := a.toIdle.note (.resolving d .callback)
  let opened : State (σ × List Act) :=
    { noted.newPromise.2 with effects := noted.effects ++ [⟨d, false, noted.promises.length⟩] }
  let args := d.args ++ [.done a.run a.effects.length]
  let called := grantAll H.recorded { opened with host := (H.recorded.call f args opened.host).2 }
  let o := (H.recorded.call f args opened.host).1
  have hu : acceptCallback H.recorded called t goal a.effects.length a.promises.length d o = u :=
    Transition.next.inj ((step_of_callback hc hmode hlookup hf).symm.trans h)
  have hsound : Sound noted := { sound with owed := sound.owed }
  have hopen : Change H.recorded t (· ≠ a.effects.length) (· ≠ a.promises.length) noted opened :=
    .opened noted d
  have hpending : Pending a.effects.length a.promises.length d a.run none opened :=
    pending_of_open hsound (sound_of_change hopen hsound)
  have hcall : Changes H.recorded t (· ≠ a.effects.length) (· ≠ a.promises.length) opened called :=
    changes_call opened f args
  have hcalled := (underway_of_changes hcall hpending.underway).pending
  have hplaced : t < called.tasks.length :=
    Nat.lt_of_lt_of_le (placed t (by rw [hc]; rfl)) (onward_of_changes hcall).tasks
  -- What the step hears of is what the call brings up, and then how it ends.
  let acts : List Act := [.called f args o, .drained (H.drain (H.call f args a.host.1).2).1]
  have htranscript : called.host.2 = a.host.2 ++ acts := by
    simp only [called, host_grantAll]
    exact List.append_assoc a.host.2 [_] [_]
  have hacts : u.host.2.drop a.host.2.length = acts := by
    rw [← hu, transcript_acceptCallback, htranscript, List.drop_left]
  have hreports : reports H context a.effects.length a =
      completionsIn a.run a.effects.length acts ++ (Act.failure? (.called f args o)).toList := by
    unfold reports
    rw [h, hc]
    dsimp only
    rw [hacts, if_pos rfl]
    rfl
  have hfirst : (reports H context a.effects.length a).head? =
      (completionsIn a.run a.effects.length acts).head?.or
        (Act.failure? (.called f args o)) := by
    rw [hreports, List.head?_append, Option.head?_toList]
  have hheard : called.host.2.drop opened.host.2.length = acts := by
    rw [htranscript]
    exact List.drop_left
  rw [hheard, Option.none_or] at hcalled
  rw [hfirst, ← hu]
  refine waiting_of_acceptCallback H hcalled hplaced goal
    (fun e he => Completion.isProper_failed.1 (clean _ ?_)) f args
  rw [hreports, he]
  exact List.mem_append_right _ (List.mem_singleton_self _)

/-! ## Whole runs -/

/-- What the first of the completions that were heard of means for a task that waits. -/
inductive FirstDecides (t : Nat) (goal : Goal) (d : Descriptor) :
    Option Completion → Fate σ → Prop
  /-- The outcome that reaches the task is the one that it stands for. -/
  | answered (c : Completion) (o : Outcome) (s : State σ) (decides : Decides d c o) :
      FirstDecides t goal d (some c) (.answered goal o s)
  /-- Nothing was ever heard of, and nothing is left to do. -/
  | silent (s : State σ) : FirstDecides t goal d none (.over (.deadlock s))
  /-- The main task, another one, has ended the loop. -/
  | stopped (first : Option Completion) (o : Outcome) (s : State σ) (another : t ≠ 0) :
      FirstDecides t goal d first (.over (.finished o s))

/-- A task waits for an effect, and all that is reported of it are proper completions. -/
structure Awaiting (H : Host σ) (context : Value) (t : Nat) (goal : Goal) (i p : Nat)
    (d : Descriptor) (run : Nat) (first : Option Completion) (s : State (σ × List Act)) :
    Prop where
  pending : Pending i p d run first s
  waits : Waits t goal p s
  main : Main s
  timely : Timely s
  proper : ∀ c, first = some c → c.isProper = true
  clean : ∀ u, Transition.Reaches (resolve H.recorded context t) s u →
    ∀ c ∈ reports H context i u, c.isProper = true

section

variable {s u w : State (σ × List Act)} {heard : List Completion} {fate : Fate (σ × List Act)}

theorem resolve_of_waits {s : State σ} (hw : Waits t goal p s) :
    resolve H context t s = (step H context s).map id .over := by
  have helsewhere := hw.elsewhere
  unfold resolve
  split
  · next k g o hc =>
    have hne : k ≠ t := by
      rintro rfl
      rw [hc] at helsewhere
      exact helsewhere rfl
    rw [if_neg hne]
  · rfl

/-- While a task waits the loop does what it does anyway. -/
theorem step_of_resolve {s u : State σ} (hw : Waits t goal p s)
    (h : resolve H context t s = .next u) : step H context s = .next u := by
  rw [resolve_of_waits hw] at h
  cases hstep : step H context s with
  | next v => rw [hstep] at h; cases h; rfl
  | done r => rw [hstep] at h; cases h

/-- The outcome has reached the task. -/
theorem resolve_of_outcome {s : State σ} {o : Outcome} (hc : s.control = .outcome t goal o) :
    resolve H context t s = .done (.answered goal o s) := by
  unfold resolve
  rw [hc]
  dsimp only
  rw [if_pos rfl]

/-- One step while a task waits, of the loop up to the moment when the outcome is there. -/
theorem Awaiting.next (hs : Awaiting H context t goal i p d run first s)
    (h : step H.recorded context s = .next u) :
    resolve H.recorded context t s = .next u ∧
      (Awaiting H context t goal i p d run (first.or (reports H context i s).head?) u ∨
        ∃ c o, first = some c ∧ Decides d c o ∧
          resolve H.recorded context t u = .done (.answered goal o u)) := by
  have hresolve : resolve H.recorded context t s = .next u := by
    rw [resolve_of_waits hs.waits, h]
    rfl
  refine ⟨hresolve, ?_⟩
  rcases waiting_of_step hs.pending hs.waits hs.proper (hs.clean s (.refl s)) h with
    ⟨hpending, hwaits⟩ | ⟨c, o, hfirst, hcontrol, hd⟩
  · refine .inl ⟨hpending, hwaits, ?_, ?_, fun c hc => ?_,
      fun v hv => hs.clean v (.head hresolve hv)⟩
    · exact main_of_step hs.pending.sound hs.main h
    · exact timely_of_step hs.main hs.timely h
    · rcases Option.or_eq_some_iff.1 hc with hc | ⟨-, hc⟩
      · exact hs.proper c hc
      · exact hs.clean s (.refl s) c (List.mem_of_head? hc)
  · exact .inr ⟨c, o, hfirst, hd, resolve_of_outcome hcontrol⟩

/-- The loop ends while a task waits. -/
theorem Awaiting.last (hs : Awaiting H context t goal i p d run first s)
    {r : Ending (σ × List Act)} (h : step H.recorded context s = .done r) :
    FirstDecides t goal d first (.over r) := by
  obtain ⟨-, ⟨o, rfl, ho⟩ | ⟨rfl, -, hr, -⟩⟩ := ends_of_main hs.main h
  · refine .stopped first o s fun ht => ?_
    subst ht
    rcases hs.timely with hgoing | ⟨report, hover⟩
    · rw [hgoing.outcome] at ho
      cases ho
    · have hfinished := hover.finished
      rw [hs.waits.phase] at hfinished
      cases hfinished
  · have hnone : first = none := by
      cases hs.pending.standing with
      | opened he ho hsettles => rfl
      | claimed error value he ho hq hsettles =>
        rw [hr] at hq
        cases hq
      | decided c o he ho hd =>
        rcases hs.waits.queued with ⟨waiters, hw, -⟩ | ⟨-, hq⟩
        · simp [State.outcome?, hw] at ho
        · rw [hr] at hq
          cases hq
    rw [hnone]
    exact .silent s

/-- **The first completion decides**, in every run that comes to an end. -/
theorem decides_of_ends
    (h : Transition.Ends (resolve H.recorded context t) (reports H context i) s heard fate)
    (hs : Awaiting H context t goal i p d run first s) :
    FirstDecides t goal d (first.or heard.head?) fate := by
  induction h generalizing first with
  | @last s fate final =>
    rw [resolve_of_waits hs.waits] at final
    cases hstep : step H.recorded context s with
    | next u => rw [hstep] at final; cases final
    | done r =>
      rw [hstep] at final
      cases final
      have hnothing : reports H context i s = [] := by simp only [reports, hstep]
      rw [hnothing, List.head?_nil, Option.or_none]
      exact hs.last hstep
  | @more s u heard fate step' rest ih =>
    obtain ⟨u', hu'⟩ : ∃ u', step H.recorded context s = .next u' := by
      rw [resolve_of_waits hs.waits] at step'
      cases hstep : step H.recorded context s with
      | next u' => exact ⟨u', rfl⟩
      | done r => rw [hstep] at step'; cases step'
    obtain ⟨hresolve, hnext⟩ := hs.next hu'
    obtain rfl : u' = u := Transition.next.inj (hresolve.symm.trans step')
    rw [List.head?_append, ← Option.or_assoc]
    rcases hnext with hawaiting | ⟨c, o, rfl, hd, hdone⟩
    · exact ih hawaiting
    · cases rest with
      | last final =>
        rw [hdone] at final
        cases final
        exact .answered c o _ hd
      | more first' _ => rw [hdone] at first'; cases first'

end

/-! ## The outcome reaches the task -/

/-- The run comes to its end, unless the loop never again gets to look at its queue. -/
def Resolves (H : Host σ) (context : Value) (t i : Nat) (s : State (σ × List Act)) : Prop :=
  (∃ heard fate, Transition.Ends (resolve H.recorded context t) (reports H context i) s heard
      fate) ∨
    ∃ w, Transition.Reaches (step H.recorded context) s w ∧
      ∀ v, Transition.Reaches (step H.recorded context) w v → v.control ≠ .idle

section

variable {s u w : State (σ × List Act)} {heard : List Completion}

/-- A run that resolves later resolves. -/
theorem Resolves.of_trail
    (h : Transition.Trail (resolve H.recorded context t) (reports H context i) s heard u)
    (hsteps : Transition.Reaches (step H.recorded context) s u)
    (hu : Resolves H context t i u) : Resolves H context t i s := by
  rcases hu with ⟨more, fate, hends⟩ | ⟨w, hw, hnever⟩
  · exact .inl ⟨_, fate, h.ends hends⟩
  · exact .inr ⟨w, hsteps.trans hw, hnever⟩

/-- The loop goes on, and the task is still waiting, or the run has come to its end. -/
theorem Awaiting.along (hs : Awaiting H context t goal i p d run first s)
    (h : Transition.Reaches (step H.recorded context) s w) :
    Resolves H context t i s ∨
      ∃ heard, Transition.Trail (resolve H.recorded context t) (reports H context i) s heard w ∧
        Awaiting H context t goal i p d run (first.or heard.head?) w := by
  induction h generalizing first with
  | refl s => exact .inr ⟨[], .refl s, by simpa using hs⟩
  | @head s u w step' rest ih =>
    obtain ⟨hresolve, hnext⟩ := hs.next step'
    rcases hnext with hawaiting | ⟨c, o, rfl, hd, hdone⟩
    · rcases ih hawaiting with hresolves | ⟨heard, htrail, hw⟩
      · exact .inl (hresolves.of_trail (.single hresolve) (.head step' (.refl u)))
      · refine .inr ⟨_, .head hresolve htrail, ?_⟩
        rwa [List.head?_append, ← Option.or_assoc]
    · exact .inl (.inl ⟨_, _, .more hresolve (.last hdone)⟩)

/-- What cuts the loop short ends the run, or keeps the loop from its queue for good. -/
theorem Awaiting.cut (hs : Awaiting H context t goal i p d run first s)
    (h : Cut H.recorded context s) : Resolves H context t i s := by
  rcases h with ⟨w, r, hw, hr⟩ | hnever
  · rcases hs.along hw with hresolves | ⟨heard, htrail, hw'⟩
    · exact hresolves
    · refine .inl ⟨_, .over r, htrail.ends (.last ?_)⟩
      rw [resolve_of_waits hw'.waits, hr]
      rfl
  · exact .inr hnever

/-- **An outcome that is there reaches the task.** -/
theorem Awaiting.arrives (hs : Awaiting H context t goal i p d run first s) {o : Outcome}
    (ho : s.outcome? p = some o) : Resolves H context t i s := by
  obtain ⟨before, after, hready⟩ := List.append_of_mem (hs.waits.turn ho)
  rcases comes_up H.recorded context hready with ⟨w, n, rest, hw, hidle, hb, hr⟩ | hcut
  · rcases hs.along hw with hresolves | ⟨heard, htrail, hw'⟩
    · exact hresolves
    · have how : w.outcome? p = some o :=
        hw.invariant (P := fun w => w.outcome? p = some o) (fun _ _ hv => outcome_of_step hv) ho
      obtain ⟨hresolve, -⟩ := hw'.next (step_of_turn hw'.waits how hidle hb hr)
      exact .inl ⟨_, _, htrail.ends (.more hresolve (.last (resolve_of_outcome rfl)))⟩
  · exact hs.cut hcut

/-- **A completion that has been heard of is carried out**, and its outcome reaches the
task. -/
theorem Awaiting.resolves {c : Completion}
    (hs : Awaiting H context t goal i p d run (some c) s) : Resolves H context t i s := by
  cases hs.pending.standing with
  | decided c o he ho hd => exact hs.arrives ho
  | claimed error value he ho hq hsettles =>
    obtain ⟨before, after, hready⟩ := List.append_of_mem hq
    rcases comes_up H.recorded context hready with ⟨w, n, rest, hw, hidle, hb, hr⟩ | hcut
    · rcases hs.along hw with hresolves | ⟨heard, htrail, hw'⟩
      · exact hresolves
      · refine Resolves.of_trail htrail hw ?_
        have hstep := step_of_batch H.recorded context hidle hb hr
        obtain ⟨hresolve, hnext⟩ := hw'.next hstep
        rcases hnext with hawaiting | ⟨c, o, -, hd, hdone⟩
        · obtain ⟨x, hx⟩ : ∃ x, (runJob H.recorded { w with ready := rest, batch := n }
              (.settle i error value)).outcome? p = some x := by
            have htaken : error.isMark = false := by
              simpa [Completion.isProper] using hs.proper _ rfl
            obtain ⟨x, host, -, -, heq⟩ := settle_eq (H := H.recorded)
              (s := { w with ready := rest, batch := n }) hw'.pending.effect htaken value
            refine ⟨(w.outcome? p).getD x, ?_⟩
            simp only [runJob, heq]
            cases hwp : w.outcome? p with
            | none =>
              exact outcome_complete_self (s := { w with host, ready := rest, batch := n })
                hw'.pending.made hwp x
            | some y =>
              exact outcome_complete_of_some (s := { w with host, ready := rest, batch := n })
                hwp p x
          exact (hawaiting.arrives hx).of_trail (.single hresolve) (.head hstep (.refl _))
        · exact .inl ⟨_, _, .more hresolve (.last hdone)⟩
    · exact hs.cut hcut

/-- A stretch of the run: the task is still waiting, or the outcome is there. -/
theorem Awaiting.trail (hs : Awaiting H context t goal i p d run first s)
    (h : Transition.Trail (resolve H.recorded context t) (reports H context i) s heard u) :
    Awaiting H context t goal i p d run (first.or heard.head?) u ∨ Resolves H context t i u := by
  induction h generalizing first with
  | refl s => exact .inl (by simpa using hs)
  | @head s v u heard step' rest ih =>
    obtain ⟨v', hv'⟩ : ∃ v', step H.recorded context s = .next v' := by
      rw [resolve_of_waits hs.waits] at step'
      cases hstep : step H.recorded context s with
      | next v' => exact ⟨v', rfl⟩
      | done r => rw [hstep] at step'; cases step'
    obtain ⟨hresolve, hnext⟩ := hs.next hv'
    obtain rfl : v' = v := Transition.next.inj (hresolve.symm.trans step')
    rcases hnext with hawaiting | ⟨c, o, -, -, hdone⟩
    · rw [List.head?_append, ← Option.or_assoc]
      exact ih hawaiting
    · cases rest with
      | refl => exact .inr (.inl ⟨_, _, .last hdone⟩)
      | head first' _ => rw [hdone] at first'; cases first'

end

variable {host : σ × List Act} {number : Nat} {earlier : List (Nat × Outcome)} {errand : Errand}
  {a : State (σ × List Act)} {f : Value}

/-- A task performs a callback-style effect: it waits, or the outcome has reached it. -/
theorem awaiting_of_perform
    (reached : Transition.Reaches (step H.recorded context)
      (State.start host number earlier errand) a)
    (performs : a.control = .perform t goal d) (mode : d.mode = .callback)
    (found : Context.lookup context d.path = .ok f) (callable : f.isCallable = true)
    (clean : ∀ u, Transition.Reaches (resolve H.recorded context t) a u →
      ∀ c ∈ reports H context a.effects.length u, c.isProper = true) :
    ∃ u, resolve H.recorded context t a = .next u ∧
      (Awaiting H context t goal a.effects.length a.promises.length d a.run
          (reports H context a.effects.length a).head? u ∨
        ∃ c o, (reports H context a.effects.length a).head? = some c ∧ Decides d c o ∧
          resolve H.recorded context t u = .done (.answered goal o u)) := by
  have sound := sound_of_reaches reached
  have main := main_of_reaches reached
  have timely := timely_of_reaches reached
  have placed : Placed a := placed_of_reaches reached fun k hk => by cases hk
  obtain ⟨u, hstep⟩ : ∃ u, step H.recorded context a = .next u :=
    ⟨_, step_of_callback performs mode found callable⟩
  have hresolve : resolve H.recorded context t a = .next u := by
    unfold resolve
    rw [performs, hstep]
    rfl
  refine ⟨u, hresolve, ?_⟩
  rcases waiting_of_performCallback sound placed performs mode found callable
    (clean a (.refl a)) hstep with ⟨hpending, hwaits⟩ | ⟨c, o, hfirst, hcontrol, hd⟩
  · exact .inl ⟨hpending, hwaits, main_of_step sound main hstep, timely_of_step main timely hstep,
      fun c hc => clean a (.refl a) c (List.mem_of_head? hc),
      fun v hv => clean v (.head hresolve hv)⟩
  · exact .inr ⟨c, o, hfirst, hd, resolve_of_outcome hcontrol⟩

/-- **First completion wins.**  A task of any loop performs a callback-style effect that
finds a callable, and what is reported of the effect are proper completions.  If the run comes
to an end, the first of all completions that were heard of is what decides it; and once one has
been heard of, the outcome does reach the task, unless the loop is ended by another task or kept
from its queue for good. -/
theorem first_completion_wins
    (reached : Transition.Reaches (step H.recorded context)
      (State.start host number earlier errand) a)
    (performs : a.control = .perform t goal d) (mode : d.mode = .callback)
    (found : Context.lookup context d.path = .ok f) (callable : f.isCallable = true)
    (clean : ∀ u, Transition.Reaches (resolve H.recorded context t) a u →
      ∀ c ∈ reports H context a.effects.length u, c.isProper = true) :
    (∀ heard fate,
      Transition.Ends (resolve H.recorded context t) (reports H context a.effects.length) a
        heard fate → FirstDecides t goal d heard.head? fate) ∧
    ∀ heard u,
      Transition.Trail (resolve H.recorded context t) (reports H context a.effects.length) a
        heard u → heard ≠ [] → Resolves H context t a.effects.length u := by
  obtain ⟨u, hresolve, hnext⟩ :=
    awaiting_of_perform reached performs mode found callable clean
  refine ⟨fun heard fate hends => ?_, fun heard v htrail hheard => ?_⟩
  · cases hends with
    | last final => rw [hresolve] at final; cases final
    | @more _ u' more _ first rest =>
      obtain rfl : u' = u := Transition.next.inj (first.symm.trans hresolve)
      rw [List.head?_append]
      rcases hnext with hawaiting | ⟨c, o, hfirst, hd, hdone⟩
      · exact decides_of_ends rest hawaiting
      · rw [hfirst, Option.some_or]
        cases rest with
        | last final =>
          rw [hdone] at final
          cases final
          exact .answered c o _ hd
        | more first' _ => rw [hdone] at first'; cases first'
  · cases htrail with
    | refl => exact absurd rfl hheard
    | @head _ u' _ more first rest =>
      obtain rfl : u' = u := Transition.next.inj (first.symm.trans hresolve)
      rcases hnext with hawaiting | ⟨c, o, -, -, hdone⟩
      · rcases hawaiting.trail rest with hv | hresolves
        · rw [← List.head?_append] at hv
          obtain ⟨c, later, hc⟩ := List.exists_cons_of_ne_nil hheard
          rw [hc, List.head?_cons] at hv
          exact hv.resolves
        · exact hresolves
      · cases rest with
        | refl => exact .inl ⟨_, _, .last hdone⟩
        | head first' _ => rw [hdone] at first'; cases first'

/-- A run that is watched until its outcome reaches the task. -/
theorem ends_of_watchFor {L : Type} {shows : State σ → List L} {a : State σ} {n : Nat}
    {shown : List L} {o : Outcome}
    (h : (Transition.watchFor (resolve H context t) shows n a).map
      (fun run => (run.1, run.2.answer?)) = some (shown, some (goal, o))) :
    ∃ z, Transition.Ends (resolve H context t) shows a shown (.answered goal o z) := by
  obtain ⟨⟨shown, fate⟩, hrun, hfate⟩ := Option.map_eq_some_iff.1 h
  obtain ⟨rfl, hanswer⟩ := Prod.mk.inj hfate
  cases fate with
  | answered goal' o' z =>
    cases hanswer
    exact ⟨z, Transition.exists_watchFor_iff.1 ⟨n, hrun⟩⟩
  | _ => cases hanswer

/-- A world whose functions report a success and then an error, and then fail. -/
def hasty : World (List Request) where
  call _ args w :=
    match args.getLast? with
    | some (.done run effect) =>
      (.error ⟨7, .plain .value []⟩,
        w ++ [.complete run effect .null (.int 1), .complete run effect (.text "late") .null])
    | _ => (.ok .null, w)
  start _ w := (.finished (.ok .null), w)
  wake _ w := (.finished (.ok .null), w)
  blame _ _ w := w
  drain w := (w, [])
  drain_drain _ := rfl

/-- Of three completions the first, a success, is the one that counts. -/
theorem hasty_success_wins :
    let context : Value := .record [(.text "fetch", .function "fetch")]
    let start := State.start (⟨[], 0, 0⟩, []) 0 []
      (.perform (.list [.mode .callback, .text "fetch"]))
    let d : Descriptor := ⟨.callback, [.text "fetch"], [], none⟩
    let heard : List Completion :=
      [.done .null (.int 1), .done (.text "late") .null, .failed ⟨7, .plain .value []⟩]
    ∃ a s, Transition.Reaches (step hasty.still.recorded context) start a ∧
      a.control = .perform 0 .answer d ∧
      Transition.Ends (resolve hasty.still.recorded context 0)
        (reports hasty.still context a.effects.length) a heard
        (.answered .answer (.ok (.int 1)) s) ∧
      FirstDecides 0 .answer d heard.head? (.answered .answer (.ok (.int 1)) s) := by
  intro context start d heard
  let a : State (Site (List Request) × List Act) :=
    { start with ready := [], tasks := [⟨.running, 0⟩], control := .perform 0 .answer d }
  have hreached : Transition.Reaches (step hasty.still.recorded context) start a :=
    .head (t := { start with batch := 1 }) rfl (.head rfl (.refl _))
  have hwatch : (Transition.watchFor (resolve hasty.still.recorded context 0)
      (reports hasty.still context a.effects.length) 10 a).map
      (fun run => (run.1, run.2.answer?)) = some (heard, some (.answer, .ok (.int 1))) := by cbv
  obtain ⟨s, hends⟩ := ends_of_watchFor hwatch
  refine ⟨a, s, hreached, rfl, hends, ?_⟩
  refine (first_completion_wins hreached rfl rfl rfl rfl fun u hu c hc => ?_).1 _ _ hends
  have hproper : ∀ c ∈ heard, c.isProper = true := by decide
  exact hproper c (hends.mem_of_reaches hu hc)

end EventLoop
end DescribedEffects
