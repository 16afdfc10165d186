import Mathlib.Data.List.Basic
import DescribedEffects.Proofs.BoundedLog.Latest
import DescribedEffects.Proofs.EventLoop.Recording

/-!
# Keeping a trace changes nothing

A computation can be driven without a trace, with a trace of every effect, or with a trace of
the last few; and its ordinary failures can be raised or captured as results.  These runs do the
same thing at every step, whatever the host is (`Interpreter.tracing_changes_nothing`).

All of them are one run in disguise: the one that keeps a trace without a bound and captures
nothing.  `Bookkeeping` is what the others make of its books.  Trimming after every effect keeps
what trimming once at the end would (`keepLast_append`), and a captured ending is another
outcome in the first promise, which nobody reads.  What a disguise asks for besides, `Faring`
has: the main task waits for nothing but the effects of the computation that it drives.
-/

namespace DescribedEffects

/-- Nothing is ever taken from the trace. -/
def Trace.IsWhole (t : Trace) : Prop := t.bound = .unbounded ∧ t.log.bound = none

theorem Trace.isWhole_empty : (Trace.empty .unbounded).IsWhole := ⟨rfl, rfl⟩

theorem Trace.IsWhole.add {t : Trace} (h : t.IsWhole) (r : Record) : (t.add r).IsWhole := h

/-- A host is seen as it is. -/
def Host.asItIs {σ : Type} (H : Host σ) : H.View H where
  view := id
  resume _ _ _ := rfl
  close _ _ _ := rfl
  call _ _ _ := rfl
  start _ _ := rfl
  wake _ _ := rfl
  fresh _ := rfl
  blame _ _ _ := rfl
  drain _ := rfl

namespace EventLoop

/-! ## Other books -/

/-- What is kept of the effects of a driven computation, and whether its ordinary failures are
results.  An effect that is added is added to what was kept before, and is never a strain. -/
structure Bookkeeping where
  kept : List Record → Option Trace
  capturing : Bool
  add : ∀ rs r, kept (rs ++ [r]) = (kept rs).map fun t => t.add r
  free : ∀ rs t, kept rs = some t → t.isStrained = false

namespace Bookkeeping

/-- No trace is kept, and failures are raised. -/
def plain : Bookkeeping := ⟨fun _ => none, false, fun _ _ => rfl, fun _ _ h => by cases h⟩

/-- Every effect is kept, and failures are captured. -/
def uncapped : Bookkeeping where
  kept rs := some ⟨.unbounded, ⟨rs, none⟩⟩
  capturing := true
  add _ _ := rfl
  free _ t h := by
    cases h
    exact Trace.isStrained_of_unbounded rfl

/-- The last effects are kept, so many, and failures are captured. -/
def capped (n : Nat) : Bookkeeping where
  kept rs := some ⟨.most n, ⟨keepLast (some n) rs, some n⟩⟩
  capturing := true
  add rs r := by
    have hkept := keepLast_append (some (n : Int)) rs [r]
    rw [← hkept]
    rfl
  free _ t h := by
    cases h
    exact Trace.isStrained_of_most rfl

variable (B : Bookkeeping)

/-- What is kept instead of a trace, if nothing was taken from that. -/
def rebook : Trace → Option Trace
  | ⟨.unbounded, ⟨rs, none⟩⟩ => B.kept rs
  | t => some t

theorem rebook_of_whole {t : Trace} (h : t.IsWhole) : B.rebook t = B.kept t.log.entries := by
  obtain ⟨bound, rs, limit⟩ := t
  obtain ⟨rfl, rfl⟩ := h
  rfl

theorem rebook_of_trimmed {t : Trace} (h : ¬t.IsWhole) : B.rebook t = some t := by
  obtain ⟨_ | n | x, rs, _ | m⟩ := t
  · exact absurd ⟨rfl, rfl⟩ h
  all_goals rfl

theorem rebook_add (t : Trace) (r : Record) :
    B.rebook (t.add r) = (B.rebook t).map fun t => t.add r := by
  by_cases h : t.IsWhole
  · have hentries : (t.add r).log.entries = t.log.entries ++ [r] := by
      show keepLast t.log.bound (t.log.entries ++ [r]) = _
      rw [h.2]
      rfl
    rw [B.rebook_of_whole h, B.rebook_of_whole (h.add r), hentries, B.add]
  · have hadd : ¬(t.add r).IsWhole := h
    rw [B.rebook_of_trimmed h, B.rebook_of_trimmed hadd]
    rfl

theorem isStrained_rebook (t : Trace) : (B.rebook t).any Trace.isStrained = t.isStrained := by
  by_cases h : t.IsWhole
  · rw [B.rebook_of_whole h, Trace.isStrained_of_unbounded h.1]
    cases hkept : B.kept t.log.entries with
    | none => rfl
    | some t' => exact B.free _ t' hkept
  · rw [B.rebook_of_trimmed h]
    rfl

/-- The books that are kept, as a disguise of those that keep everything and capture nothing. -/
def disguise : Disguise where
  journey j := { j with trace := j.trace.bind B.rebook }
  captured captured := B.capturing || captured
  report r := { r with trace := r.trace.bind B.rebook }
  outcome p o := if B.capturing = true ∧ p = 0 then captureOutcome o else o
  record j o := by
    obtain ⟨active, _ | d, trace⟩ := j
    · rfl
    · cases trace with
      | none => rfl
      | some t => simp [Journey.record, B.rebook_add]
  strained j := by
    obtain ⟨active, current, _ | t⟩ := j
    · rfl
    · exact B.isStrained_rebook t
  reported _ _ := rfl

/-- Capturing twice is capturing once. -/
theorem captureOutcome_idem (o : Outcome) : captureOutcome (captureOutcome o) = captureOutcome o := by
  cases o with
  | ok v => rfl
  | error e =>
    by_cases he : e.isOrdinary = true
    · simp [captureOutcome, he]
    · simp [captureOutcome, he]

theorem captures : B.disguise.Captures 0 := by
  intro captured o
  obtain ⟨kept, _ | _, add, free⟩ := B
  · rfl
  · cases captured
    · rfl
    · exact captureOutcome_idem o

theorem spares {p : Nat} (hp : p ≠ 0) : B.disguise.Spares p := fun _ =>
  if_neg fun h => hp h.2

theorem keepsStack : B.disguise.KeepsStack := ⟨fun _ => rfl, fun _ _ => rfl, fun _ _ => rfl⟩

end Bookkeeping

/-! ## The run that all of them are -/

section

variable {σ : Type} {H : Host σ} {context : Value} {s u y : State σ} {j : Journey} {t : Trace}

/-- How a loop fares that drives a computation, keeps a trace of every effect and captures
nothing.  The main task waits for the effects of the computation and for nothing else. -/
inductive Faring (s : State σ) : Prop
  | telling (j : Journey) (t : Trace) (signal : Signal)
      (control : s.control = .deliver 0 j false signal) (traced : j.trace = some t)
      (whole : t.IsWhole)
  | pending (j : Journey) (t : Trace) (d : Descriptor)
      (busy : s.control = .perform 0 (.drive j false) d ∨ Engaged 0 (.drive j false) s)
      (traced : j.trace = some t) (whole : t.IsWhole)
  | finished (o : Outcome) (t : Trace) (hover : Over (some ⟨o, some t⟩) s)
      (outcome : s.outcome? 0 = some o) (whole : t.IsWhole)

theorem faring_finishDrive (hy : Main y) (hgoing : Ongoing y) (traced : j.trace = some t)
    (whole : t.IsWhole) (o : Outcome) : Faring (finishDrive y 0 j false o) := by
  have hover : Over (some ⟨o, j.trace⟩) (finishDrive y 0 j false o) :=
    over_finish hgoing.present ..
  rw [traced] at hover
  exact .finished o t hover (outcome_finish hy hgoing _ _) whole

theorem faring_leave (hy : Main y) (hgoing : Ongoing y) (traced : j.trace = some t)
    (whole : t.IsWhole) (o : Outcome) : Faring (leave y 0 j false o) := by
  unfold leave
  split
  · exact faring_finishDrive hy hgoing traced whole o
  · split
    · exact .telling _ t _ rfl traced whole
    · split
      · exact .telling _ t _ rfl traced whole
      · exact faring_finishDrive hy hgoing traced whole _

theorem faring_receive (traced : j.trace = some t) (whole : t.IsWhole) (item : Value) :
    Faring (receive H y 0 j false item) := by
  unfold receive
  split
  · exact .telling _ t _ rfl traced whole
  · split
    · exact .telling _ t _ rfl traced whole
    · exact .pending _ t _ (.inl rfl) traced whole

theorem faring_deliver (sound : Sound y) (hy : Main y) (hgoing : Ongoing y)
    (traced : j.trace = some t) (whole : t.IsWhole) (signal : Signal) :
    Faring (deliver H y 0 j false signal) := by
  cases hactive : j.active with
  | nil =>
    simp only [deliver, hactive]
    exact faring_finishDrive hy hgoing traced whole _
  | cons g rest =>
    have hchanges : Changes H 0 (fun _ => True) (· ≠ 0) y (y.resuming H g signal) :=
      changes_resuming ..
    have hmain := main_of_changes hchanges sound hy
    have hongoing := hgoing.changes hchanges
    rw [deliver_of_active y hactive]
    split
    · exact faring_receive traced whole _
    · exact faring_leave hmain hongoing traced whole _
    · exact faring_leave hmain hongoing traced whole _

theorem faring_answerDrive (hy : Main y) (hgoing : Ongoing y) (traced : j.trace = some t)
    (whole : t.IsWhole) (o : Outcome) : Faring (answerDrive H y 0 j false o) := by
  have hdeliver : ∀ o signal, Faring (deliverRecorded H y 0 (j.record o) false signal) := by
    intro o signal
    obtain ⟨t', htrace, hwhole⟩ : ∃ t', (j.record o).trace = some t' ∧ t'.IsWhole := by
      unfold Journey.record
      split
      · exact ⟨t, traced, whole⟩
      · next d _ => exact ⟨t.add ⟨d, o⟩, by rw [traced]; rfl, whole.add _⟩
    unfold deliverRecorded
    split <;> exact .telling _ t' _ rfl htrace hwhole
  unfold answerDrive
  split
  · exact hdeliver _ _
  · split
    · exact hdeliver _ _
    · exact faring_finishDrive hy hgoing traced whole _

/-- **Every step goes on like that.** -/
theorem faring_of_step (hs : Steady s) (hf : Faring s) (h : step H context s = .next u) :
    Faring u := by
  cases hf with
  | telling j t signal control traced whole =>
    obtain rfl := Transition.next.inj (h.symm.trans (step_of_deliver H context control))
    have hbusy : s.control.task? = some 0 := by rw [control]; rfl
    exact faring_deliver hs.sound_toIdle hs.main_toIdle (hs.ongoing_toIdle hbusy) traced whole signal
  | pending j t d busy traced whole =>
    rcases busy with control | ⟨phase, hphase, hgoal, elsewhere⟩ | ⟨o, control⟩
    · exact .pending j t d (.inr (engaged_of_perform hs.main.present control h)) traced whole
    · exact .pending j t d (.inr (engaged_of_step hphase hgoal elsewhere h)) traced whole
    · obtain rfl := Transition.next.inj (h.symm.trans (step_of_answer H context control))
      have hbusy : s.control.task? = some 0 := by rw [control]; rfl
      exact faring_answerDrive hs.main_toIdle (hs.ongoing_toIdle hbusy) traced whole o
  | finished o t hover outcome whole =>
    exact .finished o t (over_of_step hover h) (outcome_of_step outcome h) whole

/-- What the main task is told answers the computation that it drives. -/
theorem Faring.drives (hf : Faring s) {goal : Goal} {o : Outcome}
    (h : s.control = .outcome 0 goal o) : goal.isQuiet = false := by
  cases hf with
  | telling j t signal control =>
    rw [h] at control
    cases control
  | pending j t d busy =>
    rcases busy with control | ⟨phase, -, -, elsewhere⟩ | ⟨o', control⟩
    · rw [h] at control
      cases control
    · rw [h] at elsewhere
      exact absurd rfl elsewhere
    · rw [h] at control
      cases control
      rfl
  | finished o' t hover =>
    have helsewhere := hover.elsewhere
    rw [h] at helsewhere
    exact absurd rfl helsewhere

/-- What is known of the run at every step. -/
structure Tracked (s : State σ) : Prop where
  steady : Steady s
  unread : Unread s
  faring : Faring s

theorem tracked_of_step (hs : Tracked s) (h : step H context s = .next u) : Tracked u :=
  ⟨hs.steady.next h, unread_of_step hs.steady.sound hs.steady.main hs.unread h,
    faring_of_step hs.steady hs.faring h⟩

/-- **Whatever is read, other books leave it as it is.** -/
theorem Tracked.fits (B : Bookkeeping) (hs : Tracked s) : B.disguise.Fits s where
  made p hp := B.spares (Nat.ne_of_gt (Nat.lt_of_lt_of_le hs.steady.main.made hp))
  futures id p h := B.spares (hs.steady.main.futures id p h)
  main task hk := by
    rw [(hs.steady.main.tasks 0 task hk).2 rfl]
    exact B.captures
  others k task hk hne := B.spares fun h => hne ((hs.steady.main.tasks k task hk).1 h)
  blocked task ht goal p h := B.spares (hs.unread.blocked task ht goal p h)
  effects k e hk := B.spares (hs.steady.main.effects k e hk)
  groups k g hk := by
    refine ⟨B.spares (hs.steady.main.groups k g hk), fun m hm => B.spares ?_⟩
    rintro rfl
    exact hs.unread.members g (List.mem_of_getElem? hk) hm
  ready j hj p h := by
    refine B.spares ?_
    rintro rfl
    exact h.elim (hs.unread.ready j hj) (hs.steady.main.ready j hj)
  answers goal o hc hquiet := by
    rw [hs.faring.drives hc] at hquiet
    cases hquiet

/-! ## The beginning -/

/-- The loop that is about to drive whatever is to be driven. -/
def atOutset (host : σ) (run : Nat) (earlier : List (Nat × Outcome)) : State σ :=
  { State.start host run earlier (.perform .null) with ready := [], tasks := [⟨.running, 0⟩] }

variable (H context) in
/-- The loop begins in the same way with all books. -/
theorem runFor_start (host : σ) (run : Nat) (earlier : List (Nat × Outcome)) (program : Value)
    (trace : Option Trace) (captured : Bool) (n : Nat) :
    Transition.runFor (step H context) (n + 2)
        (State.start host run earlier (.drive program trace captured)) =
      Transition.runFor (step H context) n
        (beginDrive H (atOutset host run earlier) 0 program trace captured) := by
  let start : State σ := State.start host run earlier (.drive program trace captured)
  have hfirst : step H context start = .next { start with batch := 1 } := rfl
  have hsecond : step H context { start with batch := 1 } =
      .next (beginDrive H (atOutset host run earlier) 0 program trace captured) := rfl
  rw [Transition.runFor_succ_of_next hfirst, Transition.runFor_succ_of_next hsecond]

variable (H) in
/-- **Once begun, all runs are one run in disguise.** -/
theorem beginDrive_disguised (B : Bookkeeping) (host : σ) (run : Nat)
    (earlier : List (Nat × Outcome)) (program : Value) :
    beginDrive H (atOutset host run earlier) 0 program (B.kept []) B.capturing =
      (beginDrive H (atOutset host run earlier) 0 program (some (.empty .unbounded)) false).disguised
        B.disguise id [] := by
  have hcaptured : B.disguise.captured false = B.capturing := Bool.or_false _
  have hjourney : ∀ active, B.disguise.journey ⟨active, none, some (.empty .unbounded)⟩ =
      ⟨active, none, B.kept []⟩ := fun _ => rfl
  unfold beginDrive
  split
  · next g =>
    rw [← hcaptured, ← hjourney]
    rfl
  · let refused : State σ := { atOutset host run earlier with
      host := (H.raise (Host.notComputation program) host).2 }
    have hfinish := finishDrive_disguised (D := B.disguise) (x := refused) [] (id : σ → σ)
      (k := 0) (fun task hk => by cases hk; exact B.captures)
      ⟨[], none, some (.empty .unbounded)⟩ false
      (.error (H.raise (Host.notComputation program) host).1)
    rw [hcaptured, hjourney] at hfinish
    exact hfinish

variable (H) in
/-- A loop that has begun to drive has a lone driver. -/
theorem lone_beginDrive (host : σ) (run : Nat) (earlier : List (Nat × Outcome)) (program : Value)
    (trace : Option Trace) (captured : Bool) :
    Lone (beginDrive H (atOutset host run earlier) 0 program trace captured) := by
  unfold beginDrive
  split
  · refine lone_of_single rfl (fun errand h => by cases h) fun k hk => ?_
    cases hk
    exact ⟨rfl, rfl⟩
  · exact lone_of_single rfl (fun errand h => by cases h) fun k hk => by cases hk

variable (H) in
theorem tracked_begin (host : σ) (run : Nat) (earlier : List (Nat × Outcome)) (program : Value) :
    Tracked (beginDrive H (atOutset host run earlier) 0 program (some (.empty .unbounded)) false) := by
  let start : State σ :=
    State.start host run earlier (.drive program (some (.empty .unbounded)) false)
  have hreach : Transition.Reaches (step H .null) start
      (beginDrive H (atOutset host run earlier) 0 program (some (.empty .unbounded)) false) :=
    .head (t := { start with batch := 1 }) rfl (.head rfl (.refl _))
  refine ⟨steady_of_reaches hreach (lone_beginDrive H host run earlier program _ _),
    unread_of_reaches hreach, ?_⟩
  unfold beginDrive
  split
  · exact .telling _ _ _ rfl rfl Trace.isWhole_empty
  · exact .finished _ _ ⟨rfl, fun h => by cases h⟩ rfl Trace.isWhole_empty

/-! ## The end -/

/-- Once the main task has an outcome and the loop is idle the driven computation is over. -/
theorem Tracked.over (hs : Tracked s) (idle : s.control = .idle) {o : Outcome}
    (ho : s.outcome? 0 = some o) :
    ∃ t, t.IsWhole ∧ s.tasks[0]?.map Task.phase = some (.finished (some ⟨o, some t⟩)) := by
  cases hs.faring with
  | telling j t signal control =>
    rw [idle] at control
    cases control
  | pending j t d busy =>
    exfalso
    rcases busy with control | ⟨phase, hphase, hgoal, -⟩ | ⟨o', control⟩
    · rw [idle] at control
      cases control
    · rcases hs.steady.timely with hgoing | ⟨report, hover⟩
      · rw [hgoing.outcome] at ho
        cases ho
      · rw [hover.finished] at hphase
        cases hphase
        cases hgoal
    · rw [idle] at control
      cases control
  | finished o' t hover outcome whole =>
    obtain rfl := Option.some.inj (outcome.symm.trans ho)
    exact ⟨t, whole, hover.finished⟩

/-- Other books have the same outcome beside what they keep. -/
theorem result?_disguised (B : Bookkeeping) (v : σ → σ) (notes : List Note) {o : Outcome}
    (whole : t.IsWhole)
    (h : s.tasks[0]?.map Task.phase = some (.finished (some ⟨o, some t⟩))) :
    (s.disguised B.disguise v notes).result? 0 = (B.kept t.log.entries).map (⟨o, ·⟩) := by
  obtain ⟨task, htask, hphase⟩ := Option.map_eq_some_iff.1 h
  have hreport : B.disguise.report ⟨o, some t⟩ = ⟨o, B.rebook t⟩ := rfl
  unfold State.result?
  rw [getElem?_tasks_disguised, htask]
  simp only [Option.map_some, Task.disguised, hphase, Phase.disguised, hreport,
    B.rebook_of_whole whole]
  cases B.kept t.log.entries <;> rfl

/-- What is left of the loop does not depend on the books. -/
theorem close_disguised {α : Type} (B : Bookkeeping) (hs : Tracked s) (verdict : Verdict α) :
    (s.disguised B.disguise id []).close verdict = s.close verdict := by
  have hfutures : (s.disguised B.disguise id []).settledFutures = s.settledFutures := by
    refine congrArg (s.earlier ++ ·) (List.filterMap_congr fun ⟨id, p⟩ hmem => ?_)
    dsimp only
    rw [outcome_spared [] _ s (B.spares (hs.steady.main.futures id p hmem))]
  unfold State.close
  rw [hfutures]
  rfl

end

end EventLoop

/-! ## Whole runs -/

section

open EventLoop

variable {σ : Type} (A : Arena) (H : Host σ) (program : Value) (host : σ)

/-- The run that keeps every effect and captures nothing. -/
def Arena.follow : Option (Ending σ) :=
  A.run H (.drive program (some (.empty .unbounded)) false) host

/-- **A run with other books** comes to the same end, in disguise. -/
theorem Arena.run_eq_follow (B : Bookkeeping) :
    A.run H (.drive program (B.kept []) B.capturing) host =
      (A.follow H program host).map (Ending.disguised B.disguise id []) := by
  unfold Arena.follow Arena.run EventLoop.run
  match A.fuel with
  | 0 | 1 => rfl
  | n + 2 =>
    rw [runFor_start, runFor_start, beginDrive_disguised]
    exact Transition.runFor_map_of_kept (P := Tracked) (fun _ _ => tracked_of_step)
      (fun s hs => step_disguised [] A.context H.asItIs B.keepsStack (hs.fits B) hs.steady.lone)
      n (tracked_begin H host A.number A.earlier program)

/-- The run comes to no end, to a rest, or to the end of what it drives. -/
theorem Arena.follow_cases :
    A.follow H program host = none ∨
      (∃ s, A.follow H program host = some (.deadlock s) ∧ Tracked s) ∨
      ∃ s o t, A.follow H program host = some (.finished o s) ∧ Tracked s ∧ t.IsWhole ∧
        s.tasks[0]?.map Task.phase = some (.finished (some ⟨o, some t⟩)) := by
  let start : State σ :=
    State.start host A.number A.earlier (.drive program (some (.empty .unbounded)) false)
  have hfirst : step H A.context start = .next { start with batch := 1 } := rfl
  have hsecond : step H A.context { start with batch := 1 } =
      .next (beginDrive H (atOutset host A.number A.earlier) 0 program (some (.empty .unbounded))
        false) := rfl
  cases hrun : A.follow H program host with
  | none => exact .inl rfl
  | some r =>
    obtain ⟨s, hreach, hdone⟩ := Transition.exists_runFor_iff.1 ⟨_, hrun⟩
    have htracked : Tracked s := by
      rcases hreach.cases_of_next hfirst with rfl | hlater
      · rw [hfirst] at hdone
        cases hdone
      rcases hlater.cases_of_next hsecond with rfl | hlatest
      · rw [hsecond] at hdone
        cases hdone
      exact hlatest.invariant (fun _ _ => tracked_of_step)
        (tracked_begin H host A.number A.earlier program)
    obtain ⟨idle, ⟨o, rfl, ho⟩ | ⟨rfl, -⟩⟩ := ends_of_main htracked.steady.main hdone
    · obtain ⟨t, whole, hphase⟩ := htracked.over idle ho
      exact .inr (.inr ⟨s, o, t, rfl, htracked, whole, hphase⟩)
    · exact .inr (.inl ⟨s, rfl, htracked⟩)

end

/-- What a run with a trace makes of how a computation came out. -/
def captured (t : Trace) : Verdict Value → Verdict RunResult
  | .ok v => .ok ⟨.ok v, t⟩
  | .error (.raised e) => if e.isOrdinary then .ok ⟨.error e, t⟩ else .error (.raised e)
  | .error .deadlock => .error .deadlock
  | .error .unfinished => .error .unfinished

/-- What is left of a run that captures failures and keeps a trace. -/
def Finished.captured {σ : Type} (t : Trace) (f : Finished σ Value) : Finished σ RunResult :=
  { f with verdict := DescribedEffects.captured t f.verdict }

section

open EventLoop

variable {σ : Type} (A : Arena) (H : Host σ) (program : Value) (host : σ)

/-- The end of a run with a trace captures that of the run without one.  The first promise of the
former has an outcome that says nothing, unless the exception is no failure. -/
theorem conclude_captured {s : State σ} (hs : Tracked s) {o : Outcome} {t : Trace} (B : Bookkeeping)
    (hresult : (s.disguised B.disguise id []).result? 0 = some ⟨o, t⟩) (unread : Trace) :
    conclude (fun s v => (s.result? 0).getD ⟨.ok v, unread⟩) host
        (some (.finished (captureOutcome o) (s.disguised B.disguise id []))) =
      (conclude (fun _ v => v) host
        (some (.finished o (s.disguised Bookkeeping.plain.disguise id [])))).captured t := by
  have hread : ∀ verdict : Verdict RunResult,
      (s.disguised B.disguise id []).close verdict = s.close verdict := close_disguised B hs
  have hplain : ∀ verdict : Verdict Value,
      (s.disguised Bookkeeping.plain.disguise id []).close verdict = s.close verdict :=
    close_disguised Bookkeeping.plain hs
  cases o with
  | ok v =>
    show (s.disguised B.disguise id []).close (.ok
        (((s.disguised B.disguise id []).result? 0).getD ⟨.ok .null, unread⟩)) =
      ((s.disguised Bookkeeping.plain.disguise id []).close (.ok v)).captured t
    rw [hresult, hread, hplain]
    rfl
  | error e =>
    show conclude _ host (some (.finished (captureOutcome (.error e)) _)) =
      ((s.disguised Bookkeeping.plain.disguise id []).close (.error (.raised e))).captured t
    cases he : e.isOrdinary with
    | true =>
      have hcapture : captureOutcome (.error e) = .ok .null := if_pos he
      rw [hcapture]
      show (s.disguised B.disguise id []).close (.ok
          (((s.disguised B.disguise id []).result? 0).getD ⟨.ok .null, unread⟩)) = _
      rw [hresult, hread, hplain]
      simp [Finished.captured, DescribedEffects.captured, State.close, he]
    | false =>
      have hcapture : captureOutcome (.error e) = .error e := if_neg (by simp [he])
      rw [hcapture]
      show (s.disguised B.disguise id []).close (.error (.raised e)) = _
      rw [hread, hplain]
      simp [Finished.captured, DescribedEffects.captured, State.close, he]

/-- **All runs with a trace capture the run without one.**  They differ in what is kept of the
same effects. -/
theorem Interpreter.run_eq_captured :
    ∃ rs : List Record, ∀ (I : Interpreter) (B : Bookkeeping), B.kept [] = some I.newTrace →
      B.capturing = true → (∀ rs, B.kept rs ≠ none) →
      ∃ t, B.kept rs = some t ∧
        I.run A H program host = (A.drive H program host).captured t := by
  have hdrive : A.drive H program host = conclude (fun _ v => v) host
      ((A.follow H program host).map (Ending.disguised Bookkeeping.plain.disguise id [])) := by
    rw [← Arena.run_eq_follow]
    rfl
  have hrun : ∀ (I : Interpreter) (B : Bookkeeping), B.kept [] = some I.newTrace →
      B.capturing = true → I.run A H program host =
        conclude (fun s v => (s.result? 0).getD ⟨.ok v, I.newTrace⟩) host
          ((A.follow H program host).map (Ending.disguised B.disguise id [])) := by
    intro I B hkept hcapturing
    rw [← Arena.run_eq_follow, hkept, hcapturing]
    rfl
  rcases A.follow_cases H program host with
    hfollow | ⟨s, hfollow, hs⟩ | ⟨s, o, t, hfollow, hs, whole, hphase⟩
  · refine ⟨[], fun I B hkept hcapturing _ => ⟨I.newTrace, hkept, ?_⟩⟩
    rw [hrun I B hkept hcapturing, hdrive, hfollow]
    rfl
  · refine ⟨[], fun I B hkept hcapturing _ => ⟨I.newTrace, hkept, ?_⟩⟩
    rw [hrun I B hkept hcapturing, hdrive, hfollow]
    show (s.disguised B.disguise id []).close _ =
      ((s.disguised Bookkeeping.plain.disguise id []).close _).captured _
    rw [close_disguised B hs, close_disguised Bookkeeping.plain hs]
    rfl
  · refine ⟨t.log.entries, fun I B hkept hcapturing hsome => ?_⟩
    obtain ⟨t', ht'⟩ := Option.ne_none_iff_exists'.1 (hsome t.log.entries)
    have hresult : (s.disguised B.disguise id []).result? 0 = some ⟨o, t'⟩ := by
      rw [result?_disguised B id [] whole hphase, ht']
      rfl
    have houtcome : B.disguise.outcome 0 o = captureOutcome o := if_pos ⟨hcapturing, rfl⟩
    refine ⟨t', ht', ?_⟩
    rw [hrun I B hkept hcapturing, hdrive, hfollow]
    simp only [Option.map_some, Ending.disguised, houtcome]
    exact conclude_captured host hs B hresult I.newTrace

/-- **A run with a trace agrees with a run without one.**  It has a result exactly when that one
returns or fails with an ordinary exception, and then the result says which; whatever else comes
of that one comes of it too.  The host is left in the same state, so that it was asked the same
questions in the same order, and the notes, which name every effect, are the same. -/
structure Finished.Agrees {σ : Type} (traced : Finished σ RunResult) (driven : Finished σ Value) :
    Prop where
  returns : (∃ r, traced.verdict = .ok r) ↔
    (∃ v, driven.verdict = .ok v) ∨ ∃ e, driven.verdict = .error (.raised e) ∧ e.isOrdinary = true
  value : ∀ v, (∃ t, traced.verdict = .ok ⟨.ok v, t⟩) ↔ driven.verdict = .ok v
  failure : ∀ e, (∃ t, traced.verdict = .ok ⟨.error e, t⟩) ↔
    driven.verdict = .error (.raised e) ∧ e.isOrdinary = true
  escape : ∀ e, traced.verdict = .error (.raised e) ↔
    driven.verdict = .error (.raised e) ∧ e.isOrdinary = false
  deadlock : traced.verdict = .error .deadlock ↔ driven.verdict = .error .deadlock
  unfinished : traced.verdict = .error .unfinished ↔ driven.verdict = .error .unfinished
  host : traced.host = driven.host
  notes : traced.notes = driven.notes
  unclaimed : traced.unclaimed = driven.unclaimed
  futures : traced.futures = driven.futures

/-- What is captured: what is returned, and ordinary failures. -/
theorem captured_eq_ok_iff {t : Trace} {verdict : Verdict Value} {r : RunResult} :
    captured t verdict = .ok r ↔
      (∃ v, verdict = .ok v ∧ ⟨.ok v, t⟩ = r) ∨
        ∃ e, verdict = .error (.raised e) ∧ e.isOrdinary = true ∧ ⟨.error e, t⟩ = r := by
  rcases verdict with (e | _ | _) | v
  · cases he : e.isOrdinary with
    | true => simp [captured, he]
    | false => simp [captured, he]
  all_goals simp [captured]

/-- What escapes: everything else. -/
theorem captured_eq_error_iff {t : Trace} {verdict : Verdict Value} {h : Halt} :
    captured t verdict = .error h ↔
      verdict = .error h ∧ ∀ e, h = .raised e → e.isOrdinary = false := by
  rcases verdict with (e | _ | _) | v
  · cases he : e.isOrdinary with
    | true =>
      simp only [captured, he, if_true, reduceCtorEq, Except.error.injEq, false_iff, not_and]
      rintro rfl hcalm
      rw [hcalm e rfl] at he
      cases he
    | false =>
      simp only [captured, he, Bool.false_eq_true, if_false, Except.error.injEq, iff_self_and]
      rintro rfl e' he'
      cases he'
      exact he
  all_goals cases h <;> simp [captured]

theorem Finished.captured_agrees {σ : Type} (t : Trace) (f : Finished σ Value) :
    (f.captured t).Agrees f where
  returns := by
    simp only [Finished.captured, captured_eq_ok_iff]
    constructor
    · rintro ⟨r, ⟨v, hv, -⟩ | ⟨e, he, hordinary, -⟩⟩
      · exact .inl ⟨v, hv⟩
      · exact .inr ⟨e, he, hordinary⟩
    · rintro (⟨v, hv⟩ | ⟨e, he, hordinary⟩)
      · exact ⟨_, .inl ⟨v, hv, rfl⟩⟩
      · exact ⟨_, .inr ⟨e, he, hordinary, rfl⟩⟩
  value v := by simp [Finished.captured, captured_eq_ok_iff]
  failure e := by simp [Finished.captured, captured_eq_ok_iff]
  escape e := by simp [Finished.captured, captured_eq_error_iff]
  deadlock := by simp [Finished.captured, captured_eq_error_iff]
  unfinished := by simp [Finished.captured, captured_eq_error_iff]
  host := rfl
  notes := rfl
  unclaimed := rfl
  futures := rfl

/-- What is no computation is refused, in a handful of steps. -/
theorem Arena.drive_of_not_computation {program : Value} (h : program.isComputation = false)
    {A : Arena} (fuel : 5 ≤ A.fuel) :
    ∃ e, (A.drive H program host).verdict = .error (.raised e) ∧
      e.body = Host.notComputation program := by
  obtain ⟨n, hn⟩ := Nat.exists_eq_add_of_le' fuel
  obtain ⟨_, number, earlier, context⟩ := A
  subst hn
  cases program with
  | computation g => cases h
  | _ => exact ⟨(H.raise (Host.notComputation _) host).1, rfl, rfl⟩

/-- **Keeping a trace changes nothing.**  Whatever is driven, on whatever host, a run with a
trace of every effect and a run with a trace of the last `n` agree with a run without a trace,
and the one trace is the end of the other.  All of them refuse what is no computation. -/
theorem Interpreter.tracing_changes_nothing {σ : Type} (A : Arena) (H : Host σ) (program : Value)
    (host : σ) (n : Nat) :
    let driven := A.drive H program host
    let uncapped := Interpreter.run ⟨.unbounded⟩ A H program host
    let capped := Interpreter.run ⟨.most n⟩ A H program host
    uncapped.Agrees driven ∧ capped.Agrees driven ∧
      (∀ r r', uncapped.verdict = .ok r → capped.verdict = .ok r' →
        r'.trace.log.entries = keepLast (some n) r.trace.log.entries) ∧
      (program.isComputation = false → 5 ≤ A.fuel →
        ∃ e, driven.verdict = .error (.raised e) ∧ e.body = Host.notComputation program) := by
  intro driven uncapped capped
  obtain ⟨rs, hall⟩ := Interpreter.run_eq_captured A H program host
  obtain ⟨t, ht, huncapped⟩ := hall ⟨.unbounded⟩ .uncapped rfl rfl fun _ => Option.some_ne_none _
  obtain ⟨t', ht', hcapped⟩ := hall ⟨.most n⟩ (.capped n) rfl rfl fun _ => Option.some_ne_none _
  cases ht
  cases ht'
  have hu : uncapped = driven.captured _ := huncapped
  have hc : capped = driven.captured _ := hcapped
  refine ⟨hu ▸ driven.captured_agrees _, hc ▸ driven.captured_agrees _, fun r r' hr hr' => ?_,
    fun h fuel => Arena.drive_of_not_computation H host h fuel⟩
  have htrace : ∀ {t : Trace} {r : RunResult}, (driven.captured t).verdict = .ok r →
      r.trace = t := by
    intro t r h
    rcases captured_eq_ok_iff.1 h with ⟨v, -, rfl⟩ | ⟨e, -, -, rfl⟩ <;> rfl
  rw [hu] at hr
  rw [hc] at hr'
  rw [htrace hr, htrace hr']

end

/-- Two effects are performed on the way, and the shorter trace has the second one. -/
theorem travel_is_traced :
    let host := traveller.programs.host .barren
    let uncapped := Interpreter.run ⟨.unbounded⟩ travelArena host (.computation 0) departure
    let capped := Interpreter.run ⟨.most 1⟩ travelArena host (.computation 0) departure
    (∃ r r', uncapped.verdict = .ok r ∧ capped.verdict = .ok r' ∧
      r.trace.log.entries.length = 2 ∧ r'.trace.log.entries.length = 1 ∧
      r'.trace.log.entries = keepLast (some 1) r.trace.log.entries) ∧
    ∃ e, (travelArena.drive host (.int 5) departure).verdict = .error (.raised e) ∧
      e.body = Host.notComputation (.int 5) :=
  let traced := Interpreter.tracing_changes_nothing travelArena
    (traveller.programs.host .barren)
  ⟨⟨_, _, rfl, rfl, rfl, rfl, (traced (.computation 0) departure 1).2.2.1 _ _ rfl rfl⟩,
    (traced (.int 5) departure 1).2.2.2 rfl (by decide)⟩

end DescribedEffects
