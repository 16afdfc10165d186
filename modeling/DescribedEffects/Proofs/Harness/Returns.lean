import DescribedEffects.Proofs.Computation.Moments
import DescribedEffects.Proofs.Harness.Failures

/-!
# The turns of a computation under test

The harness drives computations in place.  What it goes on with after a turn is what any driver
goes on with, except after a verdict: that leaves one computation after the other, and each of
them is closed on the way.  A computation that is closed can raise something else, and if that is
no verdict, the next computation is told of it.  So the computations that are given up are not
told anything, and those around them hear of a failure.

`Testing` is what is known of the harness when the last moment at which it resumed a computation
is known.  It says of an exception on its way out whether it left the computation that raised it a
moment ago, or is a verdict, or nothing for ordinary handlers, and has been on its way for longer.
-/

namespace DescribedEffects

namespace Bodies

variable {S σ : Type} {B : Bodies S σ} {K : Host σ} {s : Running S σ} {g : Nat} {outer : List Nat}

/-- A computation that has ended lets an exception out as it is. -/
theorem closeFor_of_ended (ended : s.made.standings[g]? = some .ended) (e : Exn) :
    Harness.closeFor (B.host K) e g s = (e, s) := by
  have hclose : (B.host K).close g e s = (none, s) := by
    show B.closeAt K g e s = _
    simp only [closeAt, ended]
  unfold Harness.closeFor
  rw [hclose]
  exact ite_self _

/-- Computations that wait go on waiting while an exception is taken out of another one. -/
theorem Resting.closeFor (rests : Resting s.made outer) (inner : g ∉ outer) (e : Exn) :
    Resting (Harness.closeFor (B.host K) e g s).2.made outer := by
  unfold Harness.closeFor
  split
  · exact rests.untouched inner (untouched_close ..)
  · exact rests

end Bodies

namespace Harness

open Bodies

variable {S σ : Type} {B : Bodies S σ} {K : Host σ} {matchArgs : Bool} {program : Nat}

/-- The harness is about to resume the innermost of the active computations. -/
def moments (s : State (Running S σ)) : List (Moment S σ) :=
  match s.control with
  | .deliver signal => [⟨s.active, signal, s.host⟩]
  | .escape _ => []

/-- What comes next, given up or not. -/
def Proceeds (B : Bodies S σ) (m next : Moment S σ) : Prop := B.Follows m next ∨ B.Unwinds m next

/-- Where a harness stands that has last resumed a computation at that moment. -/
inductive Testing (B : Bodies S σ) (program : Nat) (last : Option (Moment S σ))
    (s : State (Running S σ)) : Prop
  | telling (signal : Signal) (control : s.control = .deliver signal)
      (lined : Lined s.host.made s.active signal) (bottom : s.active.getLast? = some program)
      (proceeds : ∀ m ∈ last, Proceeds B m ⟨s.active, signal, s.host⟩)
  /-- The exception was raised by the innermost computation, which has ended. -/
  | leaving (m : Moment S σ) (before : last = some m) (e surfaced : Exn)
      (control : s.control = .escape surfaced) (g : Nat) (outer : List Nat)
      (active : s.active = g :: outer) (same : m.active = s.active)
      (takes : B.Takes m (.raised e))
      (surfaces : Surfaces "generator raised StopIteration" e surfaced s.host.causes)
      (ended : s.host.made.standings[g]? = some .ended) (rests : Resting s.host.made outer)
      (bottom : s.active.getLast? = some program)
  /-- The exception came up while an item was being answered, or has left others before. -/
  | unwinding (m : Moment S σ) (before : last = some m) (e : Exn)
      (control : s.control = .escape e) (g : Nat) (outer : List Nat)
      (active : s.active = g :: outer) (gone : List Nat) (left : m.active = gone ++ s.active)
      (turn : Turn S) (takes : B.Takes m turn) (escapes : turn.letsEscape = true)
      (inner : g ∉ outer) (rests : Resting s.host.made outer)
      (bottom : s.active.getLast? = some program)

/-- The last turn accounts for how the harness ends. -/
def Accounts (B : Bodies S σ) (program : Nat) (m : Moment S σ) (r : Ending (Running S σ)) : Prop :=
  B.Concludes program m r.host.causes r.outcome

variable {s : State (Running S σ)} {m : Moment S σ} {g : Nat} {outer : List Nat}

/-- The innermost computation has yielded something. -/
theorem testing_receive (active : s.active = g :: outer) (same : m.active = s.active)
    (bottom : s.active.getLast? = some program) {item : Value}
    (resumed : B.Resumed m g outer (.yielded item) s.host) :
    Testing B program (some m) (receive (B.host K) matchArgs item s) := by
  cases resumed with
  | @yielded item plain z _ takes rests =>
    have hactive : (receive (B.host K) matchArgs item s).active = s.active :=
      (harsh_receive _ _ plain s).2
    have hrests : Resting (receive (B.host K) matchArgs item s).host.made (g :: outer) := by
      have hmade : (receive (B.host K) matchArgs item s).host.made = s.host.made :=
        kept_of_receive (keeps_host (Running.keeps_made K _)) item s rfl
      rwa [hmade]
    -- The answer is one of many, but whatever it is, nobody has left the stack.
    rw [← hactive] at active same bottom
    cases hcontrol : (receive (B.host K) matchArgs item s).control with
    | deliver signal =>
      refine .telling signal hcontrol ?_ bottom fun _ hm => ?_
      · rw [active]
        exact hrests.lined signal
      · obtain rfl := Option.some.inj hm
        exact .inl (.answered takes same.symm)
    | escape e =>
      exact .unwinding m rfl e hcontrol g outer active [] same _ takes rfl hrests.tail.1
        hrests.tail.2 bottom
  | @nested inner z n _ takes lined fresh =>
    refine .telling _ rfl ?_ ?_ fun _ hm => ?_
    · show Lined s.host.made (n :: s.active) _
      rwa [active]
    · show (n :: s.active).getLast? = _
      rw [active, List.getLast?_cons_cons, ← active]
      exact bottom
    · obtain rfl := Option.some.inj hm
      exact .inl (.begun takes (congrArg (n :: ·) same.symm) rfl fresh)

/-- The innermost computation has returned. -/
theorem testing_leave (active : s.active = g :: outer) (same : m.active = s.active)
    (bottom : s.active.getLast? = some program) {v : Value} (takes : B.Takes m (.returned v))
    (rests : Resting s.host.made outer) :
    (leave v s).Leads (Testing B program (some m)) (Accounts B program m) := by
  simp only [leave, active, List.tail_cons]
  cases outer with
  | nil => exact .returned takes (same.trans (alone_of_bottom active bottom))
  | cons h outer' =>
    refine .telling _ rfl (rests.lined _) ?_ fun _ hm => ?_
    · rwa [active, List.getLast?_cons_cons] at bottom
    · obtain rfl := Option.some.inj hm
      exact .inl (.returned takes (by rw [same, active]; rfl) rfl)

/-- The innermost computation is resumed. -/
theorem testing_deliver {signal : Signal} (lined : Lined s.host.made s.active signal)
    (bottom : s.active.getLast? = some program) :
    (stepDeliver (B.host K) matchArgs signal s).Leads
      (Testing B program (some ⟨s.active, signal, s.host⟩))
      (Accounts B program ⟨s.active, signal, s.host⟩) := by
  obtain ⟨g, outer, active⟩ := lined.exists_cons
  have hresumed : B.Resumed ⟨s.active, signal, s.host⟩ g outer _ _ :=
    resumed_of_lined K active (active ▸ lined)
  have hstep : stepDeliver (B.host K) matchArgs signal s =
      react (B.host K) matchArgs { s with host := ((B.host K).resume g signal s.host).2 }
        (Host.settle ((B.host K).resume g signal s.host).1) := by
    simp only [stepDeliver, active]
  rw [hstep]
  generalize Host.settle ((B.host K).resume g signal s.host).1 = reply at hresumed
  generalize ((B.host K).resume g signal s.host).2 = host at hresumed
  cases hresumed with
  | returned takes rests =>
    exact testing_leave (s := { s with host }) active rfl bottom takes rests
  | @raised e surfaced _ takes surfaces ended rests =>
    exact .leaving _ rfl e surfaced rfl g outer active rfl takes surfaces ended rests bottom
  | yielded takes rests =>
    exact testing_receive (s := { s with host }) active rfl bottom (.yielded takes rests)
  | nested takes lined fresh =>
    exact testing_receive (s := { s with host }) active rfl bottom (.nested takes lined fresh)

/-- An exception arrives at a computation that waits, which is told of it or given up. -/
theorem testing_fail {e : Exn} (active : s.active = g :: outer)
    (rests : Resting s.host.made s.active) (bottom : s.active.getLast? = some program)
    {gone : List Nat} (left : m.active = gone ++ s.active) {turn : Turn S}
    (takes : B.Takes m turn)
    (escapes : (e.isVerdict || !e.isOrdinary) = true → turn.letsEscape = true)
    (proceeds : Proceeds B m ⟨s.active, .throw e, s.host⟩) :
    Testing B program (some m) (s.fail e) := by
  unfold State.fail
  split
  · next hescapes =>
    rw [active] at rests
    exact .unwinding m rfl e rfl g outer active gone left turn takes (escapes hescapes)
      rests.tail.1 rests.tail.2 bottom
  · refine .telling _ rfl ?_ bottom fun _ hm => ?_
    · show Lined s.host.made s.active _
      rw [active] at rests ⊢
      exact rests.lined _
    · obtain rfl := Option.some.inj hm
      exact proceeds

/-- An exception is taken out of the innermost computation. -/
theorem testing_escape {e surfaced : Exn} {host : Running S σ} (active : s.active = g :: outer)
    (bottom : s.active.getLast? = some program)
    (closed : closeFor (B.host K) e g s.host = (surfaced, host))
    (rests : Resting host.made outer) {gone : List Nat} (left : m.active = gone ++ s.active)
    {turn : Turn S} (takes : B.Takes m turn)
    (escapes : (surfaced.isVerdict || !surfaced.isOrdinary) = true → turn.letsEscape = true)
    (proceeds : Proceeds B m ⟨outer, .throw surfaced, host⟩)
    (concludes : outer = [] → B.Concludes program m host.causes (.error surfaced)) :
    (stepEscape (B.host K) e s).Leads (Testing B program (some m)) (Accounts B program m) := by
  simp only [stepEscape, active, closed]
  cases outer with
  | nil => exact concludes rfl
  | cons h outer' =>
    have hleft : m.active = gone ++ [g] ++ h :: outer' := by
      rw [left, active, List.append_assoc]
      rfl
    refine testing_fail rfl rests ?_ hleft takes escapes proceeds
    rwa [active, List.getLast?_cons_cons] at bottom

variable (B K matchArgs program) in
/-- **One step of the harness**: it resumes a computation, or takes an exception further out. -/
theorem testing_linked :
    Transition.Linked (step (B.host K) matchArgs) moments (Testing B program) (Proceeds B)
      (Accounts B program) := by
  intro last s hs
  cases hs with
  | telling signal control lined bottom proceeds =>
    refine .inr ⟨⟨s.active, signal, s.host⟩, by simp only [moments, control], proceeds, ?_⟩
    simp only [step, control]
    exact testing_deliver lined bottom
  | leaving m before e surfaced control g outer active same takes surfaces ended rests bottom =>
    subst before
    have hmoments : moments s = [] := by simp only [moments, control]
    have hleads : (step (B.host K) matchArgs s).Leads (Testing B program (some m))
        (Accounts B program m) := by
      simp only [step, control]
      -- What has raised the exception has ended, so that closing it brings up nothing new.
      have hsame : m.active = [] ++ s.active := same
      refine testing_escape active bottom (closeFor_of_ended ended surfaced) rests hsame takes
        surfaces.letsEscape (.inl (.raised takes ?_ surfaces rfl)) fun h => ?_
      · rw [same, active]
        rfl
      · rw [h] at active
        exact .raised takes (same.trans (alone_of_bottom active bottom)) surfaces
    exact .inl ⟨hmoments, hleads.imp (fun _ => id) fun _ hr => ⟨m, rfl, hr⟩⟩
  | unwinding m before e control g outer active gone left turn takes escapes inner rests bottom =>
    subst before
    have hmoments : moments s = [] := by simp only [moments, control]
    have hleads : (step (B.host K) matchArgs s).Leads (Testing B program (some m))
        (Accounts B program m) := by
      simp only [step, control]
      -- Closing may bring up anything here; the turn accounts for an exception, but not for which.
      have hgone : m.active = gone ++ [g] ++ outer := by
        rw [left, active, List.append_assoc]
        rfl
      have hgiven : gone ++ [g] ≠ [] :=
        List.append_ne_nil_of_right_ne_nil _ (List.cons_ne_nil g [])
      exact testing_escape active bottom rfl (rests.closeFor inner e) left takes
        (fun _ => escapes) (.inr (.intro takes escapes hgiven hgone rfl))
        fun _ => .escaped takes escapes
    exact .inl ⟨hmoments, hleads.imp (fun _ => id) fun _ hr => ⟨m, rfl, hr⟩⟩

/-! ## Whole runs -/

section

variable {host : Running S σ} {x : S} (fresh : host.made.standings[program]? = some (.unstarted x))
  {xs : List Expectation} {ms : List (Moment S σ)}

include fresh

variable (xs) in
/-- A test begins by resuming its computation. -/
theorem testing_start : Testing B program none (start host program xs) := by
  refine .telling (.send .null) rfl ?_ rfl fun m hm => (by cases hm)
  exact .intro (.unstarted fresh) List.not_mem_nil ⟨.nil, fun h hh => (by cases hh)⟩

/-- **The turns of a computation under test follow each other**, as far as it gets. -/
theorem turns_of_trail
    (h : Transition.Trail (step (B.host K) matchArgs) moments (start host program xs) ms s) :
    ms.IsChain (Proceeds B) :=
  (h.chain (testing_linked B K matchArgs program) (testing_start fresh xs)).1

/-- **The last turn of a computation under test accounts for the outcome.** -/
theorem turns_of_ends {r : Ending (Running S σ)}
    (h : Transition.Ends (step (B.host K) matchArgs) moments (start host program xs) ms r) :
    ∃ m, ms.getLast? = some m ∧ Accounts B program m r :=
  (h.chain (testing_linked B K matchArgs program) (testing_start fresh xs)).2

end

/-! ## Reading the entries -/

section

variable {standing : Standing S} {a : Gathering (Running S σ)}

theorem standing_readEntry (entry : Value) {source : Source} (other : source ≠ .computation program)
    (stands : a.host.made.standings[program]? = some standing) :
    (readEntry (B.host K) entry source a).Leads
      (fun b => b.host.made.standings[program]? = some standing ∧ b.source ≠ .computation program)
      (fun r => r.2.made.standings[program]? = some standing) := by
  unfold readEntry
  split
  · exact ⟨stands, other⟩
  · next fault _ =>
    have hkeeps := keeps_host (B := B) (Running.keeps_made K a.host.made)
    have hmade := hkeeps.shield "generator raised StopIteration"
      ((B.host K).complain fault.complaint a.host).1 _ (hkeeps.complain fault.complaint a.host rfl)
    exact (congrArg (·.standings[program]?) hmade).trans stands

/-- Reading an entry leaves a computation alone that the entries do not come from. -/
theorem standing_gather (other : a.source ≠ .computation program)
    (stands : a.host.made.standings[program]? = some standing) :
    (gather (B.host K) a).Leads
      (fun b => b.host.made.standings[program]? = some standing ∧ b.source ≠ .computation program)
      (fun r => r.2.made.standings[program]? = some standing) := by
  unfold gather
  split
  · exact stands
  · exact standing_readEntry _ (fun h => by cases h) stands
  · next g hsource =>
    have hne : program ≠ g := fun h => other (h ▸ hsource)
    have hresumed := (untouched_resume B K g (.send .null) a.host).others program _ hne stands
    dsimp only
    split
    · exact standing_readEntry _ (hsource ▸ other) hresumed
    · exact hresumed
    · exact hresumed

/-- **Reading the entries** leaves a computation alone that they do not come from. -/
theorem standing_of_gathers {entries : Value} {host host' : Running S σ} {xs : List Expectation}
    (h : Gathers (B.host K) entries host xs host') (unshared : entries ≠ .computation program)
    (stands : host.made.standings[program]? = some standing) :
    host'.made.standings[program]? = some standing := by
  obtain ⟨source, n, hsource, hn⟩ := h
  have hother : source ≠ .computation program := fun h =>
    unshared (eq_computation_of_sourceOf (h ▸ hsource))
  obtain ⟨t, hreaches, hdone⟩ := Transition.exists_runFor_iff.1 ⟨n, hn⟩
  have hall : t.host.made.standings[program]? = some standing ∧
      t.source ≠ .computation program := by
    refine hreaches.invariant (P := fun b => b.host.made.standings[program]? = some standing ∧
      b.source ≠ .computation program) (fun a b ha hab => ?_) ⟨stands, hother⟩
    have hstep := standing_gather (B := B) (K := K) ha.2 ha.1
    rwa [hab] at hstep
  have hlast := standing_gather (B := B) (K := K) hall.2 hall.1
  rwa [hdone] at hlast

end

end Harness
end DescribedEffects
