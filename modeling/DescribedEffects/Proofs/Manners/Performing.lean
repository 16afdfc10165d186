import DescribedEffects.Proofs.Manners.Serving

/-!
# Performing an effect in any manner

However a function hands over its outcome, the task that called it is left with the outcome or
waits for it (`served_direct`, `served_callback`), and a tidy loop is tidy after that.

A function that is called directly has done its part when it returns: the outcome is known, or
there is a coroutine or a future to wait for (`served_handOver`).  The effect of a callback-style
function has begun before the function is called (`Calling`).  After the call the loop turns to
the world, and by then somebody has promised the completion, or it is there (`Announcing`); what
the task is left with depends on what the function returned.
-/

namespace DescribedEffects
namespace EventLoop

variable {P S : Type} {K : Callables} {context : Value} {es es' : List Expected} {top : Expected}
  {hand hand' : List Job} {busy busy' : Option (Nat × Goal)} {s m u : Loop P S} {C : Programs P}
  {M : Manner S} {t p q : Nat} {goal : Goal}

/-! ## Calling a function -/

/-- A function that is called directly hands over its outcome. -/
theorem answer_of_direct (K : Callables) (M : Manner S) {f : Value} {args : List Value}
    (hf : f.isDone = false) (hargs : ∀ v ∈ args.getLast?, v.isDone = false) (w : Scene S) :
    K.answer M f args w = { w with mood := (M.direct f args w.mood).2 }.handOver (K.outcome f args)
      (M.direct f args w.mood).1 := by
  unfold Callables.answer
  split
  · cases hf
  · next h => cases hargs _ h
  · rfl

/-- A callback-style function announces its outcome. -/
theorem answer_of_callback (K : Callables) (M : Manner S) {f : Value} (hf : f.isDone = false)
    (args : List Value) (run effect : Nat) (w : Scene S) :
    K.answer M f (args ++ [.done run effect]) w =
      { w with mood := (M.callback f args w.mood).2 }.announce run effect (K.outcome f args)
        (M.callback f args w.mood).1 := by
  have hlast : (args ++ [Value.done run effect]).getLast? = some (.done run effect) := by simp
  unfold Callables.answer
  split
  · cases hf
  · next h =>
    rw [hlast] at h
    cases h
    rw [List.dropLast_concat]
  · next h => exact absurd hlast (h _ _)

/-- Who is given a future waits for its promise. -/
theorem acceptDirect_future {H : Host (P × Site (Scene S))} {id : Nat}
    (h : u.futures.lookup id = some q) :
    acceptDirect H u t goal (.ok (.future id)) = block u t goal q := by
  simp [acceptDirect, Value.isAwaitable, await, h]

/-- Something else is up beside the loop. -/
theorem Tidy.mood (hs : Tidy K context es top hand busy s) (mood : S) :
    Lasts es hand busy s es hand busy (s.beside { s.scene with mood }) ∧
      Tidy K context es top hand busy (s.beside { s.scene with mood }) := by
  have h : Lasts es hand busy s es hand busy (s.beside { s.scene with mood }) :=
    lasts_beside (bodies_same (List.prefix_refl _)) fun _ _ _ hr => .inl hr
  exact ⟨h, hs.beside h (fun _ hr => .inl hr) (fun _ hr => .inl hr) (Nat.le_refl _)⟩

/-- A coroutine is made. -/
theorem Tidy.spawn (hs : Tidy K context es top hand busy s) (b : Body) :
    Lasts es hand busy s es hand busy (s.beside (s.scene.spawn b).2) ∧
      Tidy K context es top hand busy (s.beside (s.scene.spawn b).2) := by
  have h : Lasts es hand busy s es hand busy (s.beside (s.scene.spawn b).2) :=
    lasts_beside (bodies_same (List.prefix_append ..)) fun _ _ _ hr => .inl hr
  exact ⟨h, hs.beside h (fun _ hr => .inl hr) (fun _ hr => .inl hr) (Nat.le_refl _)⟩

/-- **A future is made**, whose outcome is there or will be. -/
theorem Tidy.future (hs : Tidy K context es top hand busy s) (o : Outcome) (delay : Option Nat) :
    let w : Scene S := { s.scene with futures := s.scene.futures + 1 }
    let v := grant (s.beside w) (.future s.scene.futures (some o) delay)
    Lasts es hand busy s (es ++ [⟨o, none⟩]) hand busy v ∧
      Tidy K context (es ++ [⟨o, none⟩]) top hand busy v ∧ v.scene = w ∧
      v.tasks = s.tasks ∧ Frugal s v ∧
      v.futures = s.futures ++ [(s.scene.futures, s.promises.length)] ∧
      (v.outcome? s.promises.length = none →
        Queued hand v (.fulfil s.promises.length o)) := by
  intro w v
  let x : Expected := ⟨o, none⟩
  have hbeside : Lasts es hand busy s es hand busy (s.beside w) :=
    lasts_beside (bodies_same (List.prefix_refl _)) fun _ _ _ hr => .inl hr
  have htidy : Tidy K context es top hand busy (s.beside w) :=
    hs.beside hbeside (fun _ hr => .inl hr) (fun _ hr => .inl hr) (Nat.le_succ _)
  have hpromise := htidy.newPromise x
  have hexpects : (es ++ [x])[s.promises.length]? = some x := getElem?_newPromise htidy x
  let known : Loop P S := { (s.beside w).newPromise.2 with
    futures := s.futures ++ [(s.scene.futures, s.promises.length)] }
  obtain ⟨hknown, htidy'⟩ : Lasts (es ++ [x]) hand busy (s.beside w).newPromise.2 (es ++ [x]) hand
      busy known ∧ Tidy K context (es ++ [x]) top hand busy known :=
    hpromise.withFuture (Nat.lt_succ_self _) _
  have hall : Lasts es hand busy s (es ++ [x]) hand busy known :=
    (hbeside.trans (lasts_newPromise x)).trans hknown
  cases delay with
  | none =>
    have hv : v = known.complete s.promises.length o := rfl
    have hmade : s.promises.length < known.promises.length := by
      show s.promises.length < (s.promises ++ [_]).length
      rw [List.length_append]
      exact Nat.lt_succ_self _
    have hopen : known.outcome? s.promises.length = none := by
      show Option.bind ((s.promises ++ [⟨none, []⟩])[s.promises.length]?) _ = _
      rw [List.getElem?_concat_length]
      rfl
    rw [hv]
    refine ⟨hall.trans (lasts_complete ..), htidy'.complete hexpects rfl (fun n hn => by cases hn),
      ?_, tasks_complete .., .of_tasks (tasks_complete ..) ?_ ?_, ?_, fun hnone => ?_⟩
    · rw [State.scene, host_complete]
      rfl
    · rw [host_complete]
      rfl
    · rw [State.complete_frame]
      rfl
    · rw [State.complete_frame]
    · rw [outcome_complete_self hmade hopen] at hnone
      cases hnone
  | some n =>
    have hv : v = known.setTimer n (.fulfil s.promises.length o) := rfl
    rw [hv]
    exact ⟨hall.trans (lasts_setTimer ..), htidy'.setTimer n hexpects, rfl, rfl,
      .of_tasks rfl rfl rfl, rfl,
      fun _ => queued_setTimer.2 (.inr rfl)⟩

section

variable (hs : Tidy K context es top [] (some (t, goal)) s)
  (ht : s.tasks[t]? = some ⟨.running, p⟩)

include hs ht

variable (C M) in
/-- An outcome that is known reaches the task when the loop has turned to the world. -/
theorem served_known {x : Expected} (wants : Wants es top t p goal x) (there : x.minted = none) :
    Served K context es top t goal s
      ((grantAll (C.host (K.world M)) (s.beside (s.scene.listen M))).arrive t goal x.outcome) := by
  obtain ⟨hheeds, htidy, hquiet⟩ := hs.hear C M
  have htask := (congrArg (·[t]?) (tasks_grantAll (H := C.host (K.world M))
    (s.beside (s.scene.listen M)))).trans ht
  refine (served_arrive htidy hquiet (.expected goal p x htask (hheeds.lasts.wants wants)
    fun n hn => ?_)).of_frugal (List.prefix_refl _) (frugal_beside C K M s _)
  rw [there] at hn
  cases hn

variable (C M) in
/-- A function has returned a coroutine. -/
theorem served_spawned {o : Outcome} (sleeps : List Nat) (wants : Wants es top t p goal ⟨o, none⟩) :
    Served K context es top t goal s (acceptDirect (C.host (K.world M))
      (grantAll (C.host (K.world M))
        (s.beside ((s.scene.handOver o (.coroutine sleeps)).2.listen M))) t goal
      (s.scene.handOver o (.coroutine sleeps)).1) := by
  let b : Body := ⟨sleeps, none, [], o⟩
  let k := s.scene.bodies.length
  obtain ⟨hspawn, hspawned⟩ := hs.spawn b
  let v : Loop P S := s.beside (s.scene.spawn b).2
  let u : Loop P S := grantAll (C.host (K.world M)) (v.beside (v.scene.listen M))
  obtain ⟨hheeds, htidy, hquiet⟩ : Heeds es [] (some (t, goal)) v u ∧
    Tidy K context es top [] (some (t, goal)) u ∧ u.scene.requests = [] := hspawned.hear C M
  have hbody : v.scene.bodies[k]? = some b := List.getElem?_concat_length
  have hbears : Bears es top v t p b goal := .direct goal (hspawn.wants wants) rfl
  obtain ⟨b', hb', hbears'⟩ := hheeds.lasts.bears hbody hbears
  have htask : u.tasks[t]? = some ⟨.running, p⟩ :=
    (congrArg (·[t]?) (tasks_grantAll _)).trans ht
  exact (served_coroutine C M htidy htask hb' hbears').of_frugal (List.prefix_refl _)
    (frugal_beside C K M s _)

variable (C M) in
/-- A function has returned a future. -/
theorem served_future {o : Outcome} (delay : Option Nat) (made : p < es.length)
    (quiet : s.scene.requests = []) (wants : Wants es top t p goal ⟨o, none⟩) :
    Served K context es top t goal s (acceptDirect (C.host (K.world M))
      (grantAll (C.host (K.world M))
        (s.beside ((s.scene.handOver o (.future delay)).2.listen M))) t goal
      (s.scene.handOver o (.future delay)).1) := by
  let x : Expected := ⟨o, none⟩
  let q := s.promises.length
  let id := s.scene.futures
  let w : Scene S := { s.scene with futures := id + 1 }
  let v : Loop P S := grant (s.beside w) (.future id (some o) delay)
  obtain ⟨hfuture, hfuty, hscene, htasks, hfrugal, hfutures, hqueued⟩ :
    Lasts es [] (some (t, goal)) s (es ++ [x]) [] (some (t, goal)) v ∧
      Tidy K context (es ++ [x]) top [] (some (t, goal)) v ∧ v.scene = w ∧ v.tasks = s.tasks ∧
        Frugal s v ∧ v.futures = s.futures ++ [(id, q)] ∧
        (v.outcome? q = none → Queued [] v (.fulfil q o)) := hs.future o delay
  let u : Loop P S := grantAll (C.host (K.world M)) (v.beside (v.scene.listen M))
  have hgrant : grantAll (C.host (K.world M))
      (s.beside ((w.ask (.future id (some o) delay)).listen M)) = u := by
    rw [grantAll_ask C K M s (show w.requests = [] from quiet)]
    show _ = grantAll (C.host (K.world M)) (v.beside (v.scene.listen M))
    rw [hscene]
  obtain ⟨hheeds, htidy, hquiet⟩ : Heeds (es ++ [x]) [] (some (t, goal)) v u ∧
    Tidy K context (es ++ [x]) top [] (some (t, goal)) u ∧ u.scene.requests = [] :=
      hfuty.hear C M
  have hlasts : Lasts es [] (some (t, goal)) s (es ++ [x]) [] (some (t, goal)) u :=
    hfuture.trans hheeds.lasts
  have htask : u.tasks[t]? = some ⟨.running, p⟩ := by
    rw [show u.tasks = v.tasks from tasks_grantAll _, htasks, ht]
  have hlookup : u.futures.lookup id = some q := by
    rw [hheeds.futures, hfutures, List.lookup_append, List.lookup_eq_none_iff.2 fun y hy => ?_]
    · simp
    · have hlt : y.1 < id := hs.futures y hy
      simpa using Nat.ne_of_gt hlt
  show Served K context es top t goal s (acceptDirect (C.host (K.world M)) (grantAll
    (C.host (K.world M)) (s.beside ((w.ask (.future id (some o) delay)).listen M))) t goal
      (.ok (.future id)))
  rw [hgrant, acceptDirect_future hlookup]
  refine (served_block htidy hquiet htask (hlasts.wants wants) (x := x) ?_ ?_
    fun hnone => ?_).of_frugal (List.prefix_append ..) (hfrugal.trans (frugal_beside C K M v _))
  · show (es ++ [x])[s.promises.length]? = some x
    rw [← hs.length]
    exact List.getElem?_concat_length
  · rw [hs.length] at made
    exact made
  · refine .future o (hheeds.lasts.queued _ (hqueued ?_))
    by_contra hthere
    exact hheeds.lasts.there hthere hnone

variable (C M) in
/-- **An outcome that is handed over** in whatever manner. -/
theorem served_handOver {o : Outcome} (plain : ∀ v, o = .ok v → v.isAwaitable = false)
    (lasting : ∀ e, o = .error e → e.isExhausted = false) (made : p < es.length)
    (quiet : s.scene.requests = []) (wants : Wants es top t p goal ⟨o, none⟩) (how : Handover) :
    Served K context es top t goal s (acceptDirect (C.host (K.world M))
      (grantAll (C.host (K.world M)) (s.beside ((s.scene.handOver o how).2.listen M))) t goal
      (s.scene.handOver o how).1) := by
  have hknown := served_known C M hs ht wants rfl
  have hraised : ∀ e, o = .error e → ∀ (v : Loop P S) (sentence : String),
      arriveShielded (C.host (K.world M)) v t goal sentence e = v.arrive t goal (.error e) :=
    fun e he v sentence => arriveShielded_of_lasting _ v sentence (lasting e he)
  cases how with
  | plain =>
    simp only [Scene.handOver]
    cases o with
    | error e =>
      simp only [acceptDirect, hraised e rfl]
      exact hknown
    | ok v =>
      simp only [acceptDirect, plain v rfl, Bool.false_eq_true, if_false]
      exact hknown
  | coroutine sleeps => exact served_spawned C M hs ht sleeps wants
  | awaitable id =>
    cases o with
    | error e =>
      have haccept : ∀ v : Loop P S, acceptDirect (C.host (K.world M)) v t goal
          (.ok (Scene.awaitable id (.error e))) = v.arrive t goal (.error e) :=
        fun v => hraised e rfl v _
      simp only [Scene.handOver, haccept]
      exact hknown
    | ok v => exact hknown
  | future delay => exact served_future C M hs ht delay made quiet wants

variable (C M) in
/-- **A function that is called directly**, in whatever manner it hands over its outcome. -/
theorem served_direct (made : p < es.length) {f : Value} (hf : f.isDone = false) {d : Descriptor}
    (hargs : ∀ v ∈ d.args.getLast?, v.isDone = false) (quiet : s.scene.requests = [])
    (wants : Wants es top t p goal ⟨K.outcome f d.args, none⟩) :
    Served K context es top t goal s (performDirect (C.host (K.world M)) s t goal f d) := by
  have hperform : performDirect (C.host (K.world M)) s t goal f d =
      acceptDirect (C.host (K.world M)) (grantAll (C.host (K.world M))
        (s.beside ((K.answer M f d.args s.scene).2.listen M))) t goal
        (K.answer M f d.args s.scene).1 := rfl
  rw [hperform, answer_of_direct K M hf hargs]
  obtain ⟨hmood, hmoody⟩ := hs.mood (M.direct f d.args s.scene.mood).2
  exact (served_handOver C M hmoody ht (fun _ => K.plain) (fun _ => K.lasting) made quiet
    (hmood.wants wants) _).of_frugal (List.prefix_refl _) (.of_tasks rfl rfl rfl)

/-- **A task waits for an effect whose completion is reported or announced.** -/
theorem served_pending (made : p < q) (quiet : s.scene.requests = []) {x : Expected}
    (wants : Wants es top t p goal x) (expects : es[q]? = some x) {i : Nat} {d : Descriptor}
    (effect : ∃ c, s.effects[i]? = some ⟨d, c, q⟩)
    (claimed : Claimed s i → ∃ error value, Queued [] s (.settle i error value))
    (announced : ¬ Claimed s i → Announced [] (some (t, goal)) s i) :
    Served K context es top t goal s (block s t goal q) := by
  obtain ⟨c, heffect⟩ := effect
  refine served_block hs quiet ht wants expects made fun _ => ?_
  refine .effect i _ heffect rfl (fun hc => claimed ⟨_, heffect, hc⟩) fun hc => announced ?_
  rintro ⟨e', he', htrue⟩
  rw [heffect] at he'
  cases he'
  exact Bool.noConfusion (hc.symm.trans htrue)

end

/-- What a callback-style function leaves behind: the loop has turned to the world, and the
effect is the last one that was begun. -/
structure Announcing (K : Callables) (context : Value) (es : List Expected) (top : Expected)
    (t p : Nat) (goal : Goal) (q i : Nat) (d : Descriptor) (o : Outcome) (s u : Loop P S) :
    Prop where
  tidy : Tidy K context es top [] (some (t, goal)) u
  quiet : u.scene.requests = []
  task : u.tasks[t]? = some ⟨.running, p⟩
  wants : Wants es top t p goal ⟨o, none⟩
  expects : es[q]? = some ⟨o, none⟩
  later : p < q
  effect : ∃ c, u.effects[i]? = some ⟨d, c, q⟩
  claimed : Claimed u i → ∃ error value, Queued [] u (.settle i error value)
  waiters : u.promises[q]? = some ⟨none, []⟩
  frugal : Frugal s u

namespace Announcing

variable {i : Nat} {d : Descriptor} {o : Outcome}
  (h : Announcing K context es top t p goal q i d o s u)

include h

/-- The function has returned nothing to be awaited. -/
theorem served (announced : ¬ Claimed u i → Announced [] (some (t, goal)) u i) :
    Served K context es top t goal s (block u t goal q) :=
  (served_pending h.tidy h.task h.later h.quiet h.wants h.expects h.effect h.claimed
    announced).of_frugal (List.prefix_refl _) h.frugal

/-- The function has raised its outcome. -/
theorem raised (H : Host (P × Site (Scene S))) {e : Exn} (ho : o = .error e)
    (ordinary : e.isOrdinary = true) (lasting : e.isExhausted = false) :
    Served K context es top t goal s (acceptCallback H u t goal i q d (.error e)) := by
  obtain ⟨c, heffect⟩ := h.effect
  simp only [acceptCallback, if_pos ordinary]
  cases c with
  | false =>
    have hwhy : ∀ e', u.effects[i]? = some e' → e'.claimed = false →
        (∃ error value, Queued [] u (.settle i error value)) ∨ u.outcome? e'.promise ≠ none ∨
          ∀ ws, u.promises[e'.promise]? = some ⟨none, ws⟩ → ws = [] := by
      intro e' he' _
      rw [heffect] at he'
      cases he'
      refine .inr (.inr fun ws hws => ?_)
      rw [h.waiters] at hws
      cases hws
      rfl
    have hlasts : Lasts es [] (some (t, goal)) u es [] (some (t, goal)) _ := lasts_claim hwhy
    have htidy := h.tidy.claim hwhy
    rw [State.claim_of_unclaimed heffect rfl] at hlasts htidy ⊢
    rw [if_pos rfl, arriveShielded_of_lasting _ _ _ lasting]
    subst ho
    exact (served_arrive htidy h.quiet (.expected goal p ⟨.error e, none⟩ h.task
      (hlasts.wants h.wants) fun n hn => by cases hn)).of_frugal (List.prefix_refl _)
        (h.frugal.trans (.of_tasks rfl rfl rfl))
  | true =>
    rw [State.claim_of_claimed fun e' he' => by rw [heffect] at he'; cases he'; rfl, if_neg (by simp)]
    have hnoted : Lasts es [] (some (t, goal)) u es [] (some (t, goal)) (u.note (.ignoring e d)) :=
      lasts_turned u.control _
    obtain ⟨error, value, hqueued⟩ := h.claimed ⟨_, heffect, rfl⟩
    have htidy : Tidy K context es top [] (some (t, goal)) (u.note (.ignoring e d)) :=
      h.tidy.turned u.control _
    exact (served_pending htidy h.task h.later h.quiet h.wants h.expects
      ⟨true, heffect⟩ (fun _ => ⟨error, value, hnoted.queued _ hqueued⟩)
        fun hnot => absurd ⟨_, heffect, rfl⟩ hnot).of_frugal (List.prefix_refl _)
          (h.frugal.trans (.of_tasks rfl rfl rfl))

/-- The function has returned a coroutine, which is watched. -/
theorem watched {k : Nat} {b : Body} (present : 0 < u.tasks.length)
    (body : u.scene.bodies[k]? = some b) (announces : Announces es u i b) :
    Served K context es top t goal s
      (block (u.newTask (.watch i (.coroutine k))).2 t goal q) := by
  let x : Expected := ⟨.ok .null, none⟩
  let task : Task := ⟨.fresh (.watch i (.coroutine k)), u.promises.length⟩
  let v : Loop P S := u.newPromise.2.withTask task
  have hlasts : Lasts es [] (some (t, goal)) u (es ++ [x]) [] (some (t, goal)) v :=
    (lasts_newPromise x).trans (lasts_withTask task)
  obtain ⟨b', hb', hannounces⟩ := hlasts.announces body announces
  have htidy : Tidy K context (es ++ [x]) top [] (some (t, goal)) v :=
    (h.tidy.newPromise x).withTask (.watcher i k b' (Nat.ne_of_gt present) hb' hannounces
      (getElem?_newPromise h.tidy x) (queued_enqueue_self _))
  have hnew : v.tasks[u.tasks.length]? = some task := List.getElem?_concat_length
  have hlt := (List.getElem?_eq_some_iff.1 h.task).1
  have htask : v.tasks[t]? = some ⟨.running, p⟩ :=
    (List.getElem?_append_left hlt).trans h.task
  have hfrugal : Frugal u v :=
    ⟨fun w => by simp [State.load, v, State.withTask, State.enqueue, State.newPromise, task,
      Task.load], rfl, rfl⟩
  have hclaimed : Claimed v i → Claimed u i := id
  refine (served_pending htidy htask h.later h.quiet (hlasts.wants h.wants)
    (hlasts.expected h.expects) h.effect (fun hc => ?_) fun _ => .watched u.tasks.length
      (.fresh _ _ hnew)).of_frugal (List.prefix_append ..) (h.frugal.trans hfrugal)
  obtain ⟨error, value, hqueued⟩ := h.claimed hc
  exact ⟨error, value, hlasts.queued _ hqueued⟩

end Announcing

/-- A callback-style function is being called: its effect has begun, and nobody has claimed it. -/
structure Calling (K : Callables) (context : Value) (es : List Expected) (top : Expected)
    (t p : Nat) (goal : Goal) (q i : Nat) (d : Descriptor) (o : Outcome) (s v : Loop P S) :
    Prop where
  tidy : Tidy K context es top [] (some (t, goal)) v
  task : v.tasks[t]? = some ⟨.running, p⟩
  wants : Wants es top t p goal ⟨o, none⟩
  expects : es[q]? = some ⟨o, none⟩
  later : p < q
  effect : v.effects[i]? = some ⟨d, false, q⟩
  waiters : v.promises[q]? = some ⟨none, []⟩
  reportable : Reportable o
  frugal : Frugal s v

/-- An effect begins. -/
theorem calling_of_begun (hs : Tidy K context es top [] (some (t, goal)) s)
    (ht : s.tasks[t]? = some ⟨.running, p⟩) (made : p < es.length) {o : Outcome}
    (wants : Wants es top t p goal ⟨o, none⟩) (reportable : Reportable o) (d : Descriptor) :
    Calling K context (es ++ [⟨o, none⟩]) top t p goal s.promises.length s.effects.length d o s
      { s.newPromise.2 with effects := s.effects ++ [⟨d, false, s.promises.length⟩] } := by
  let x : Expected := ⟨o, none⟩
  let e : PendingEffect := ⟨d, false, s.promises.length⟩
  have hlasts : Lasts es [] (some (t, goal)) s (es ++ [x]) [] (some (t, goal))
      { s.newPromise.2 with effects := s.effects ++ [e] } :=
    (lasts_newPromise x).trans (lasts_withEffect e)
  exact {
    tidy := (hs.newPromise x).withEffect e
    task := ht
    wants := hlasts.wants wants
    expects := getElem?_newPromise hs x
    later := hs.length ▸ made
    effect := List.getElem?_concat_length
    waiters := List.getElem?_concat_length
    reportable := reportable
    frugal := .of_tasks rfl rfl rfl }

namespace Calling

variable {i : Nat} {d : Descriptor} {o : Outcome} {v v' : Loop P S}
  (h : Calling K context es top t p goal q i d o s v)

include h

theorem intends : Intends es v i o := ⟨h.reportable, _, h.effect, h.expects⟩

/-- Something goes on beside the loop, or a timer is set. -/
theorem next (lasts : Lasts es [] (some (t, goal)) v es [] (some (t, goal)) v')
    (tidy : Tidy K context es top [] (some (t, goal)) v') (tasks : v'.tasks = v.tasks)
    (effects : v'.effects = v.effects) (promises : v'.promises = v.promises)
    (frugal : Frugal v v') : Calling K context es top t p goal q i d o s v' where
  tidy := tidy
  task := by rw [tasks, h.task]
  wants := lasts.wants h.wants
  expects := h.expects
  later := h.later
  effect := by rw [effects, h.effect]
  waiters := by rw [promises, h.waiters]
  reportable := h.reportable
  frugal := h.frugal.trans frugal

theorem mood (mood : S) :
    Calling K context es top t p goal q i d o s (v.beside { v.scene with mood }) := by
  obtain ⟨hmood, hmoody⟩ := h.tidy.mood mood
  exact h.next hmood hmoody rfl rfl rfl (.of_tasks rfl rfl rfl)

variable (C M)

/-- The loop turns to the world. -/
theorem announcing :
    let u := grantAll (C.host (K.world M)) (v.beside (v.scene.listen M))
    Heeds es [] (some (t, goal)) v u ∧ Announcing K context es top t p goal q i d o s u := by
  intro u
  obtain ⟨hheeds, htidy, hquiet⟩ : Heeds es [] (some (t, goal)) v u ∧
    Tidy K context es top [] (some (t, goal)) u ∧ u.scene.requests = [] := h.tidy.hear C M
  obtain ⟨c, hu, -⟩ := hheeds.lasts.effects i _ h.effect
  refine ⟨hheeds, htidy, hquiet, ?_, hheeds.lasts.wants h.wants, h.expects, h.later, ⟨c, hu⟩,
    fun hc => (hheeds.claims i hc).resolve_left ?_, ?_,
    h.frugal.trans (frugal_beside C K M v _)⟩
  · rw [show u.tasks = v.tasks from tasks_grantAll _, h.task]
  · rintro ⟨e', he', htrue⟩
    rw [h.effect] at he'
    cases he'
    cases htrue
  · rw [hheeds.promises, h.waiters]

/-- The completion is reported at once. -/
theorem asked : Served K context es top t goal s (block (grantAll (C.host (K.world M))
    (v.beside ((v.scene.ask (.reporting v.run i o)).listen M))) t goal q) := by
  let v' : Loop P S := v.beside (v.scene.ask (.reporting v.run i o))
  have hlasts : Lasts es [] (some (t, goal)) v es [] (some (t, goal)) v' :=
    lasts_beside (bodies_same (List.prefix_refl _)) fun _ _ _ hr =>
      .inl (List.mem_append_left _ hr)
  have htidy : Tidy K context es top [] (some (t, goal)) v' :=
    h.tidy.beside hlasts (fun _ hr => .inl hr) (fun r hr => (List.mem_append.1 hr).imp_right
      fun hr => .inr ⟨i, o, h.intends, List.mem_singleton.1 hr⟩) (Nat.le_refl _)
  obtain ⟨hheeds, hpledge⟩ :=
    (h.next hlasts htidy rfl rfl rfl (.of_tasks rfl rfl rfl)).announcing C M
  refine hpledge.served fun hnot => ?_
  refine (hheeds.lasts.announced (.asked (errorOf o) (valueOf o) ?_)).resolve_right hnot
  exact List.mem_append_right _ (List.mem_singleton_self _)

/-- The completion is reported by a timer, at the latest. -/
theorem timed (quiet : v.scene.requests = []) (delay : Nat) :
    Served K context es top t goal s (block (grantAll (C.host (K.world M))
      (v.beside ((v.scene.callLater v.run i delay o).listen M))) t goal q) := by
  let job : Job := .invoke (.done v.run i) [errorOf o, valueOf o]
  let v' : Loop P S := v.setTimer delay job
  have hlasts : Lasts es [] (some (t, goal)) v es [] (some (t, goal)) v' :=
    lasts_setTimer delay job
  have htidy : Tidy K context es top [] (some (t, goal)) v' :=
    h.tidy.setTimer delay ⟨i, o, rfl, h.intends, rfl⟩
  have hgrant : grantAll (C.host (K.world M))
      (v.beside ((v.scene.callLater v.run i delay o).listen M)) =
        grantAll (C.host (K.world M)) (v'.beside (v'.scene.listen M)) :=
    grantAll_ask C K M v quiet _
  obtain ⟨hheeds, hpledge⟩ :=
    (h.next hlasts htidy rfl rfl rfl (.of_tasks rfl rfl rfl)).announcing C M
  rw [hgrant]
  refine hpledge.served fun hnot => ?_
  exact (hheeds.lasts.announced (.later _ (queued_setTimer.2 (.inr rfl)))).resolve_right hnot

/-- A coroutine that announces the completion is watched. -/
theorem spawned {b : Body} (announces : Announces es (v.beside (v.scene.spawn b).2) i b) :
    Served K context es top t goal s (block ((grantAll (C.host (K.world M))
      (v.beside ((v.scene.spawn b).2.listen M))).newTask
        (.watch i (.coroutine v.scene.bodies.length))).2 t goal q) := by
  let v' : Loop P S := v.beside (v.scene.spawn b).2
  obtain ⟨hspawn, hspawned⟩ : Lasts es [] (some (t, goal)) v es [] (some (t, goal)) v' ∧
    Tidy K context es top [] (some (t, goal)) v' := h.tidy.spawn b
  obtain ⟨hheeds, hpledge⟩ :=
    (h.next hspawn hspawned rfl rfl rfl (.of_tasks rfl rfl rfl)).announcing C M
  have hbody : v'.scene.bodies[v.scene.bodies.length]? = some b := List.getElem?_concat_length
  obtain ⟨b', hb', hannounces⟩ := hheeds.lasts.announces hbody announces
  have hlt := (List.getElem?_eq_some_iff.1 hpledge.task).1
  exact hpledge.watched (Nat.zero_lt_of_lt hlt) hb' hannounces

/-- **An outcome that is announced** in whatever manner. -/
theorem announced (quiet : v.scene.requests = []) (how : Announcement) :
    Served K context es top t goal s (acceptCallback (C.host (K.world M))
      (grantAll (C.host (K.world M)) (v.beside ((v.scene.announce v.run i o how).2.listen M)))
      t goal i q d (v.scene.announce v.run i o how).1) := by
  cases how with
  | called => exact h.asked C M
  | raised =>
    cases o with
    | ok _ => exact h.asked C M
    | error e =>
      obtain ⟨ordinary, lasting⟩ := h.reportable e rfl
      exact (h.announcing C M).2.raised _ rfl ordinary lasting
  | timer delay => exact h.timed C M quiet delay
  | thread delay =>
    let w : Scene S := { v.scene with threads := v.scene.threads ++ [.reporting v.run i o] }
    have hlasts : Lasts es [] (some (t, goal)) v es [] (some (t, goal)) (v.beside w) :=
      lasts_beside (bodies_same (List.prefix_refl _)) fun _ _ _ hr => .inl hr
    have htidy : Tidy K context es top [] (some (t, goal)) (v.beside w) :=
      h.tidy.beside hlasts (fun r hr => (List.mem_append.1 hr).imp_right fun hr =>
        ⟨i, o, h.intends, List.mem_singleton.1 hr⟩) (fun _ hr => .inl hr) (Nat.le_refl _)
    exact (h.next hlasts htidy rfl rfl rfl (.of_tasks rfl rfl rfl)).timed C M quiet delay
  | coroutine before raises after =>
    have hreports := h.spawned C M (b := ⟨before, some (.reporting v.run i o), after, .ok .null⟩)
      (.reports o h.intends rfl rfl)
    cases raises with
    | false => exact hreports
    | true =>
      cases o with
      | ok _ => exact hreports
      | error e =>
        exact h.spawned C M (b := ⟨before, none, after, .error e⟩) (.fails e h.intends rfl rfl)

end Calling

variable (C M) in
/-- **A callback-style function**, in whatever manner it announces its outcome. -/
theorem served_callback (hs : Tidy K context es top [] (some (t, goal)) s)
    (ht : s.tasks[t]? = some ⟨.running, p⟩) (made : p < es.length) {f : Value}
    (hf : f.isDone = false) {d : Descriptor} (quiet : s.scene.requests = [])
    (wants : Wants es top t p goal ⟨K.outcome f d.args, none⟩) :
    Served K context es top t goal s (performCallback (C.host (K.world M)) s t goal f d) := by
  let q := s.promises.length
  let i := s.effects.length
  let begun : Loop P S := { s.newPromise.2 with effects := s.effects ++ [⟨d, false, q⟩] }
  have hperform : performCallback (C.host (K.world M)) s t goal f d =
      acceptCallback (C.host (K.world M)) (grantAll (C.host (K.world M))
        (begun.beside
          ((K.answer M f (d.args ++ [.done begun.run i]) begun.scene).2.listen M))) t goal
        i q d (K.answer M f (d.args ++ [.done begun.run i]) begun.scene).1 := rfl
  have hcalling := (calling_of_begun hs ht made wants
    (fun _ he => ⟨K.ordinary he, K.lasting he⟩) d).mood (M.callback f d.args begun.scene.mood).2
  rw [hperform, answer_of_callback K M hf]
  exact (hcalling.announced C M quiet _).of_frugal (List.prefix_append ..) (.refl s)

end EventLoop
end DescribedEffects
