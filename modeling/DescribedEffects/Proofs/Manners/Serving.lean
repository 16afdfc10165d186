import DescribedEffects.Proofs.Manners.Hearing

/-!
# What a task is left with

A task that is at work for a goal is left with the outcome, or it waits for it.  `Served` says
that the state is tidy in either case, and `Due` that an outcome which has reached the task is
the one that is expected.

Nothing of this begins an effect or makes an exception.  How much is left to do for tasks that
have not begun is their `load`, with a weight for each plan.
-/

namespace DescribedEffects
namespace EventLoop

variable {P S : Type} {K : Callables} {context : Value} {es es' : List Expected} {top : Expected}
  {hand hand' : List Job} {busy busy' : Option (Nat × Goal)} {s m u : Loop P S} {C : Programs P}
  {M : Manner S} {t p q : Nat} {goal : Goal}

/-! ## The load -/

/-- What a task is still to begin. -/
def Task.load (w : Plan → Nat) (task : Task) : Nat :=
  match task.phase with
  | .fresh (.perform item) => w (Plan.ofValue item)
  | _ => 0

/-- What all tasks are still to begin. -/
def State.load {σ : Type} (w : Plan → Nat) (s : State σ) : Nat := (s.tasks.map (Task.load w)).sum

/-- What a list adds up to when one of its elements is another one. -/
theorem sum_map_set {α : Type} (f : α → Nat) {l : List α} {i : Nat} {a : α} (h : l[i]? = some a)
    (b : α) : ((l.set i b).map f).sum + f a = (l.map f).sum + f b := by
  induction l generalizing i with
  | nil => cases h
  | cons c l ih =>
    cases i with
    | zero =>
      obtain rfl : c = a := Option.some.inj h
      simp only [List.set_cons_zero, List.map_cons, List.sum_cons]
      omega
    | succ i =>
      have hrest := ih (i := i) h
      simp only [List.set_cons_succ, List.map_cons, List.sum_cons]
      omega

theorem load_setPhase {w : Plan → Nat} {task : Task} (ht : s.tasks[t]? = some task)
    (phase : Phase) :
    (s.setPhase t phase).load w + task.load w =
      s.load w + Task.load w ⟨phase, task.promise⟩ := by
  rw [setPhase_eq ht]
  exact sum_map_set (Task.load w) ht _

/-- What has to do with neither new effects nor new exceptions nor new groups. -/
structure Frugal (s u : Loop P S) : Prop where
  load : ∀ w, u.load w = s.load w
  minted : u.host.2.minted = s.host.2.minted
  groups : u.groups.length = s.groups.length

theorem Frugal.refl (s : Loop P S) : Frugal s s := ⟨fun _ => rfl, rfl, rfl⟩

theorem Frugal.trans (h : Frugal s m) (k : Frugal m u) : Frugal s u :=
  ⟨fun w => (k.load w).trans (h.load w), k.minted.trans h.minted, k.groups.trans h.groups⟩

theorem Frugal.of_tasks (tasks : u.tasks = s.tasks)
    (minted : u.host.2.minted = s.host.2.minted) (groups : u.groups.length = s.groups.length) :
    Frugal s u :=
  ⟨fun w => by rw [State.load, tasks]; rfl, minted, groups⟩

/-- Hearing of what goes on beside the loop makes no exceptions. -/
theorem frugal_beside (C : Programs P) (K : Callables) (M : Manner S) (s : Loop P S) (w : Scene S) :
    Frugal s (grantAll (C.host (K.world M)) (s.beside w)) :=
  .of_tasks (tasks_grantAll _) (by rw [host_grantAll]; rfl) (by rw [groups_grantAll]; rfl)

/-- A task that is at work is not one that has not begun. -/
theorem frugal_setPhase (ht : s.tasks[t]? = some ⟨.running, p⟩) {phase : Phase}
    (h : ∀ errand, phase ≠ .fresh errand) : Frugal s (s.setPhase t phase) where
  load w := by
    have hload := load_setPhase (w := w) ht phase
    have hnew : Task.load w ⟨phase, p⟩ = 0 := by
      unfold Task.load
      cases phase with
      | fresh errand => exact absurd rfl (h errand)
      | _ => rfl
    have hold : Task.load w ⟨.running, p⟩ = 0 := rfl
    rw [hold] at hload
    simp only [hnew] at hload
    omega
  minted := by rw [host_setPhase]
  groups := by rw [setPhase_eq ht]

/-! ## Outcomes that have reached a task -/

/-- The outcome is the one that is expected. -/
inductive Due (es : List Expected) (top : Expected) (s : Loop P S) (t : Nat) : Goal → Outcome → Prop
  | expected (goal : Goal) (p : Nat) (x : Expected) (task : s.tasks[t]? = some ⟨.running, p⟩)
      (wants : Wants es top t p goal x) (there : x.IsThere s.host.2) : Due es top s t goal x.outcome
  | watched (i p : Nat) (task : s.tasks[t]? = some ⟨.running, p⟩)
      (minds : es[p]? = some ⟨.ok .null, none⟩) (claimed : Claimed s i) :
      Due es top s t (.watch i) (.ok .null)
  | failed (i p : Nat) (e : Exn) (task : s.tasks[t]? = some ⟨.running, p⟩)
      (minds : es[p]? = some ⟨.ok .null, none⟩) (intends : Intends es s i (.error e)) :
      Due es top s t (.watch i) (.error e)

theorem Due.lasts {o : Outcome} (h : Due es top s t goal o)
    (hl : Lasts es hand busy s es' hand' busy' u) (tasks : u.tasks[t]? = s.tasks[t]?) :
    Due es' top u t goal o := by
  cases h with
  | expected goal p x task wants there =>
    exact .expected goal p x (tasks.trans task) (hl.wants wants) (hl.isThere there)
  | watched i p task minds claimed =>
    exact .watched i p (tasks.trans task) (hl.expected minds) (hl.claimed claimed)
  | failed i p e task minds intends =>
    exact .failed i p e (tasks.trans task) (hl.expected minds) (hl.intends intends)

/-- **What a task is left with**: the outcome that it is to get, or something to wait for. -/
inductive Served (K : Callables) (context : Value) (es : List Expected) (top : Expected) (t : Nat)
    (goal : Goal) (s u : Loop P S) : Prop
  | arrives (es' : List Expected) (o : Outcome) (more : es <+: es')
      (tidy : Tidy K context es' top [] (some (t, goal)) u) (due : Due es' top u t goal o)
      (control : u.control = .outcome t goal o) (quiet : u.scene.requests = [])
      (frugal : Frugal s u)
  | waits (es' : List Expected) (more : es <+: es') (tidy : Tidy K context es' top [] none u)
      (control : u.control = .idle) (quiet : u.scene.requests = []) (frugal : Frugal s u)

/-- What is neither an effect nor an exception may come before. -/
theorem Served.of_frugal (h : Served K context es' top t goal m u) (more : es <+: es')
    (frugal : Frugal s m) : Served K context es top t goal s u := by
  cases h with
  | arrives es'' o more' tidy due control quiet frugal' =>
    exact .arrives es'' o (more.trans more') tidy due control quiet (frugal.trans frugal')
  | waits es'' more' tidy control quiet frugal' =>
    exact .waits es'' (more.trans more') tidy control quiet (frugal.trans frugal')

/-- A job that is to wait for a promise without an outcome is among those that wait for it. -/
theorem exists_waiters_subscribe (made : q < s.promises.length) (opened : s.outcome? q = none)
    (j : Job) : ∃ ws, (s.subscribe q j).promises[q]? = some ⟨none, ws⟩ ∧ j ∈ ws := by
  obtain ⟨⟨o, ws⟩, hp⟩ : ∃ pr, s.promises[q]? = some pr := ⟨_, List.getElem?_eq_getElem made⟩
  obtain rfl : o = none := by simpa [State.outcome?, hp] using opened
  refine ⟨ws ++ [j], ?_, List.mem_append_right _ (List.mem_singleton_self _)⟩
  simp only [State.subscribe, hp]
  exact List.getElem?_set_self made

section

variable (hs : Tidy K context es top [] (some (t, goal)) s) (quiet : s.scene.requests = [])

include hs quiet

/-- The outcome reaches the task. -/
theorem served_arrive {o : Outcome} (due : Due es top s t goal o) :
    Served K context es top t goal s (s.arrive t goal o) :=
  .arrives es o (List.prefix_refl _) (hs.turned (.outcome t goal o) s.notes)
    (due.lasts (lasts_turned _ s.notes : Lasts es [] none s es [] none (s.arrive t goal o)) rfl) rfl
    quiet (.of_tasks rfl rfl rfl)

/-- **A task waits for a promise** on which somebody is at work, or gets the outcome at once. -/
theorem served_block (ht : s.tasks[t]? = some ⟨.running, p⟩) {x : Expected}
    (wants : Wants es top t p goal x) (expects : es[q]? = some x) (later : p < q)
    (carried : s.outcome? q = none → Carried [] (some (t, goal)) s q) :
    Served K context es top t goal s (block s t goal q) := by
  unfold block
  split
  · next o ho =>
    obtain ⟨x', hx', hxo, hthere⟩ := hs.settled q o (by omega) ho
    rw [expects] at hx'
    cases hx'
    subst hxo
    exact served_arrive hs quiet (.expected goal p x ht wants hthere)
  · next hnone =>
    have hmade : q < s.promises.length := by
      rw [← hs.length]
      exact (List.getElem?_eq_some_iff.1 expects).1
    have hwatched : ∀ i, goal ≠ .watch i := by
      rintro i rfl
      cases wants
    let waiting := s.subscribe q (.step t)
    have ht' : waiting.tasks[t]? = some ⟨.running, p⟩ := by
      rw [tasks_subscribe]
      exact ht
    have hlasts : Lasts es [] (some (t, goal)) s es [] none
        (waiting.setPhase t (.blocked goal q)) :=
      (lasts_subscribe q (.step t)).trans
        (lasts_rest ht' fun i hi => absurd hi (hwatched i))
    obtain ⟨ws, hpromise, hmem⟩ := exists_waiters_subscribe hmade hnone (.step t)
    have hws : (waiting.setPhase t (.blocked goal q)).promises[q]? = some ⟨none, ws⟩ := by
      rw [promises_setPhase]
      exact hpromise
    have hopen : (waiting.setPhase t (.blocked goal q)).outcome? q = none := by
      simp only [State.outcome?, hws, Option.bind_some]
    have heffects : (waiting.setPhase t (.blocked goal q)).effects = s.effects := by
      rw [State.setPhase_frame, show waiting = _ from State.subscribe_frame ..]
    have hcarried := (hlasts.carried (fun i e _ _ hclaimed => .inl (by
      obtain ⟨e', he', htrue⟩ := hclaimed
      rw [heffects] at he'
      exact ⟨e', he', htrue⟩)) (carried hnone)).resolve_right (absurd hopen)
    have htidy : Tidy K context es top [] none (waiting.setPhase t (.blocked goal q)) :=
      (hs.subscribe rfl).rest ht' (fun i hi => absurd hi (hwatched i))
        (.blocked goal q x wants expects later (.opened ws hws hmem hcarried))
    have hfrugal : Frugal s (waiting.setPhase t (.blocked goal q)) :=
      (Frugal.of_tasks (tasks_subscribe ..) (by rw [host_subscribe])
        (by rw [groups_subscribe])).trans
        (frugal_setPhase ht' fun _ h => by cases h)
    refine .waits es (List.prefix_refl _) (htidy.turned .idle _) rfl ?_
      (hfrugal.trans (.of_tasks rfl rfl rfl))
    show (State.host (waiting.setPhase t (.blocked goal q))).2.world.requests = []
    rw [host_setPhase, host_subscribe]
    exact quiet

/-- **A coroutine that a task awaits has run for a while.** -/
theorem served_advance (ht : s.tasks[t]? = some ⟨.running, p⟩) {k : Nat} {b : Body}
    (body : s.scene.bodies[k]? = some b) (bears : Bears es top s t p b goal) {progress : Progress}
    (finished : ∀ o, progress = .finished o → Due es top s t goal o) :
    Served K context es top t goal s (advance s t goal k progress) := by
  have hasleep : ∀ v : Loop P S, Lasts es [] (some (t, goal)) s es [] (some (t, goal)) v →
      Tidy K context es top [] (some (t, goal)) v → v.tasks = s.tasks → v.host = s.host →
      v.groups = s.groups → Queued [] v (.step t) →
      Served K context es top t goal s (v.setPhase t (.asleep goal k)).toIdle := by
    intro v hlasts hv htasks hhost hgroups hqueued
    have ht' : v.tasks[t]? = some ⟨.running, p⟩ := by rwa [htasks]
    have hwatched : ∀ i, goal = .watch i →
        Claimed v i ∨ ∃ k', Phase.asleep goal k = .asleep (.watch i) k' :=
      fun i hi => .inr ⟨k, by rw [hi]⟩
    have hrest : Lasts es [] (some (t, goal)) v es [] none (v.setPhase t (.asleep goal k)) :=
      lasts_rest ht' hwatched
    obtain ⟨b', hb', hbears⟩ := (hlasts.trans hrest).bears body bears
    have htidy := hv.rest ht' hwatched (.asleep goal k b' hb' hbears (hrest.queued _ hqueued))
    refine .waits es (List.prefix_refl _) (htidy.turned .idle _) rfl ?_
      ((Frugal.of_tasks htasks (by rw [hhost]) (by rw [hgroups])).trans
        ((frugal_setPhase ht' fun _ h => by cases h).trans (.of_tasks rfl rfl rfl)))
    show (State.host (v.setPhase t (.asleep goal k))).2.world.requests = []
    rw [host_setPhase, hhost]
    exact quiet
  unfold advance
  split
  · next o => exact served_arrive hs quiet (finished o rfl)
  · have hcommute : (s.setPhase t (.asleep goal k)).enqueue (.step t) =
        (s.enqueue (.step t)).setPhase t (.asleep goal k) := by
      rw [setPhase_eq ht, setPhase_eq (s := s.enqueue _) ht]
      rfl
    rw [hcommute]
    exact hasleep _ (lasts_enqueue _) (hs.enqueue trivial) rfl rfl rfl (queued_enqueue_self _)
  · next n _ =>
    have hcommute : (s.setPhase t (.asleep goal k)).setTimer n (.step t) =
        (s.setTimer n (.step t)).setPhase t (.asleep goal k) := by
      rw [setPhase_eq ht, setPhase_eq (s := s.setTimer n _) ht]
      rfl
    rw [hcommute]
    exact hasleep _ (lasts_setTimer n _) (hs.setTimer n trivial) rfl rfl rfl
      (queued_setTimer.2 (.inr rfl))

end

/-! ## Awaiting what a function returned -/

section

variable (hs : Tidy K context es top [] (some (t, goal)) s)
  (ht : s.tasks[t]? = some ⟨.running, p⟩)

include hs ht

omit hs ht in
/-- What a coroutine reports is the completion of an effect. -/
theorem reports_of_bears {b : Body} (bears : Bears es top s t p b goal) {r : Request}
    (hr : b.report = some r) : Reports es s r := by
  cases bears with
  | direct goal wants report => rw [report] at hr; cases hr
  | watch i announces minds =>
    cases announces with
    | reports o intends report ends =>
      rw [report] at hr
      exact ⟨i, o, intends, (Option.some.inj hr).symm⟩
    | reported heard report ends => rw [report] at hr; cases hr
    | fails e intends report ends => rw [report] at hr; cases hr

omit hs ht in
/-- **The outcome of a coroutine that is over is due**, and what it reported has been heard. -/
theorem due_of_finished {b : Body} (bears : Bears es top s t p b goal)
    (lasts : Lasts es [] (some (t, goal)) s es [] (some (t, goal)) u)
    (task : u.tasks[t]? = some ⟨.running, p⟩)
    (reported : ∀ i error value, b.report = some (.complete s.run i error value) → Claimed u i)
    (quiet : u.scene.requests = []) : Due es top u t goal b.outcome := by
  cases bears with
  | direct goal wants report =>
    exact .expected goal p ⟨b.outcome, none⟩ task (lasts.wants wants) fun n hn => by cases hn
  | watch i announces minds =>
    cases announces with
    | reports o intends report ends =>
      rw [ends]
      exact .watched i p task (lasts.expected minds) (reported i _ _ report)
    | reported heard report ends =>
      rw [ends]
      refine .watched i p task (lasts.expected minds) ((lasts.heard heard).resolve_right ?_)
      rintro ⟨error, value, hr⟩
      rw [quiet] at hr
      cases hr
    | fails e intends report ends =>
      rw [ends]
      exact .failed i p e task (lasts.expected minds) (lasts.intends intends)

variable (C M) in
/-- **A task awaits a coroutine**, which has been started or woken. -/
theorem served_coroutine {k : Nat} {b : Body} (body : s.scene.bodies[k]? = some b)
    (bears : Bears es top s t p b goal) :
    Served K context es top t goal s
      (advance (grantAll (C.host (K.world M)) (s.beside ((s.scene.proceed k).2.listen M))) t goal k
        (s.scene.proceed k).1) := by
  obtain ⟨progress, b', reports, hproceed, hends, hreport, hprogress⟩ := proceed_cases body
  rw [hproceed]
  let w : Scene S := { s.scene with
    bodies := s.scene.bodies.set k b'
    requests := s.scene.requests ++ reports }
  have hlt := (List.getElem?_eq_some_iff.1 body).1
  have hw : Lasts es [] (some (t, goal)) s es [] (some (t, goal)) (s.beside w) := by
    refine lasts_beside (fun j c hj => ?_) fun i error value hr => .inl (List.mem_append_left _ hr)
    by_cases hkj : k = j
    · subst hkj
      rw [body] at hj
      cases hj
      refine ⟨b', List.getElem?_set_self hlt, hends, ?_⟩
      rcases hreport with ⟨hsame, -⟩ | ⟨hnone, hreports⟩
      · exact .inl hsame
      · refine .inr ⟨hnone, fun i error value hr => .inr ⟨error, value, ?_⟩⟩
        rw [hr] at hreports
        exact List.mem_append_right _ (hreports ▸ List.mem_singleton_self _)
    · exact ⟨c, (List.getElem?_set_ne hkj).trans hj, rfl, .inl rfl⟩
  have hreports : ∀ r ∈ reports, Reports es s r := by
    intro r hr
    rcases hreport with ⟨-, rfl⟩ | ⟨-, rfl⟩
    · cases hr
    · exact reports_of_bears bears (Option.mem_toList.1 hr)
  have htidy : Tidy K context es top [] (some (t, goal)) (s.beside w) :=
    hs.beside hw (fun r hr => .inl hr)
      (fun r hr => (List.mem_append.1 hr).imp_right fun hr => .inr (hreports r hr)) (Nat.le_refl _)
  let u : Loop P S := grantAll (C.host (K.world M)) ((s.beside w).beside (w.listen M))
  obtain ⟨hheeds, hall, hquiet⟩ : Heeds es [] (some (t, goal)) (s.beside w) u ∧
    Tidy K context es top [] (some (t, goal)) u ∧ u.scene.requests = [] := htidy.hear C M
  have hlasts : Lasts es [] (some (t, goal)) s es [] (some (t, goal)) u := hw.trans hheeds.lasts
  have htask : u.tasks[t]? = some ⟨.running, p⟩ :=
    (congrArg (·[t]?) (tasks_grantAll _)).trans ht
  obtain ⟨b'', hb'', hbears⟩ := hlasts.bears body bears
  refine (served_advance hall hquiet htask hb'' hbears fun o ho => ?_).of_frugal
    (List.prefix_refl _) (frugal_beside C K M s _)
  rcases hprogress with ⟨n, hasleep, -⟩ | ⟨hfinished, hasked, -⟩
  · rw [hasleep] at ho
    cases ho
  · rw [hfinished] at ho
    cases ho
    refine due_of_finished bears hlasts htask (fun i error value hr => ?_) hquiet
    have hmem : Request.complete (s.beside w).run i error value ∈ w.requests := by
      rw [hr] at hasked
      exact List.mem_append_right _ (hasked ▸ List.mem_singleton_self _)
    refine (hheeds.lasts.requests i _ _ hmem).resolve_left fun hr => ?_
    rw [hquiet] at hr
    cases hr

end

/-- An exception that does not mark the end of a computation leaves any body of code. -/
theorem arriveShielded_of_lasting (H : Host (P × Site (Scene S))) (s : Loop P S) (sentence : String)
    {e : Exn} (h : e.isExhausted = false) :
    arriveShielded H s t goal sentence e = s.arrive t goal (.error e) := by
  simp only [arriveShielded, Host.shield, h, Bool.false_eq_true, if_false]

/-- A future is known to the loop. -/
theorem Tidy.withFuture (hs : Tidy K context es top hand busy s) {id : Nat}
    (h : id < s.scene.futures) (q : Nat) :
    Lasts es hand busy s es hand busy { s with futures := s.futures ++ [(id, q)] } ∧
      Tidy K context es top hand busy { s with futures := s.futures ++ [(id, q)] } := by
  have hlasts : Lasts es hand busy s es hand busy { s with futures := s.futures ++ [(id, q)] } :=
    .of_kept (List.prefix_refl _) (fun _ h => h) rfl rfl (List.Subset.refl _) (fun _ _ h => h)
      (fun _ _ h => opened_same rfl h) (fun _ _ => rfl)
      fun _ _ h => .inl (h.of_tasks fun _ _ h => h)
  refine ⟨hlasts, hs.next_of_promises hlasts rfl (fun _ hj => .inl hj)
    (fun _ _ _ ht => .inl ⟨ht, .inr rfl⟩) (fun _ hr => .inl hr) (fun _ hr => .inl hr)
    fun x hx => ?_⟩
  rcases List.mem_append.1 hx with hx | hx
  · exact hs.futures x hx
  · rw [List.mem_singleton.1 hx]
    exact h

end EventLoop
end DescribedEffects
