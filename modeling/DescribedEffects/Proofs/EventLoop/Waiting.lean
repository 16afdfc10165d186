import DescribedEffects.Proofs.EventLoop.Pending

/-!
# Waiting for a callback-style effect

While a task waits for a callback-style effect the loop goes on with everything else.
`reports` are the completions of the effect that one step of the loop hears of: the
completion callback is called while a program runs, the function itself fails, or the
awaitable that it returned does.  Programs say so to their host, and the host keeps a
transcript.

`waiting_of_step` says what one step makes of such an effect, with the first of all the
completions so far.  Either the effect and the task are still waiting and the completions
that the step heard of come after the others, or the step gives the task the outcome that
the first completion stands for.
-/

namespace DescribedEffects

/-- The completions that one question to the host brings up. -/
def Act.completions (run effect : Nat) : Act → List Completion
  | .drained requests => requests.filterMap (Request.completion? run effect)
  | _ => []

/-- The failure of a function that was called. -/
def Act.failure? : Act → Option Completion
  | .called _ _ (.error e) => some (.failed e)
  | _ => none

/-- The completions that a stretch of a transcript brings up, in order. -/
def completionsIn (run effect : Nat) (acts : List Act) : List Completion :=
  acts.flatMap (Act.completions run effect)

namespace EventLoop

variable {σ : Type}

/-- The completions of an effect that a step hears of.  The function fails, if it does, in
the very step that performs the effect. -/
def reports (H : Host σ) (context : Value) (effect : Nat) (s : State (σ × List Act)) :
    List Completion :=
  match step H.recorded context s with
  | .done _ => []
  | .next u =>
    let acts := u.host.2.drop s.host.2.length
    completionsIn s.run effect acts ++
      match s.control with
      | .perform .. => if s.effects.length = effect then acts.filterMap Act.failure? else []
      | .outcome _ (.watch i) (.error e) => if i = effect then [.failed e] else []
      | _ => []

variable {H : Host σ} {context : Value} {t t' : Nat} {claims completes : Nat → Prop}

/-! ## Transcripts -/

@[simp] theorem completionsIn_append (run effect : Nat) (acts more : List Act) :
    completionsIn run effect (acts ++ more) =
      completionsIn run effect acts ++ completionsIn run effect more :=
  List.flatMap_append ..

/-- A question that takes out no requests brings up no completions. -/
theorem transcript_of_asked {a b : σ × List Act} (h : H.recorded.Asked a b) (run effect : Nat) :
    ∃ acts, b.2 = a.2 ++ acts ∧ completionsIn run effect acts = [] := by
  cases h with
  | fresh s => exact ⟨[], (List.append_nil _).symm, rfl⟩
  | blame id cause s => exact ⟨[], (List.append_nil _).symm, rfl⟩
  | _ => exact ⟨[_], rfl, rfl⟩

/-- A change asks the host something, takes out its requests or has nothing to do with
it. -/
theorem host_of_change {s u : State σ} (h : Change H t claims completes s u) :
    u.host = s.host ∨ H.Asked s.host u.host ∨ u = grantAll H s := by
  cases h with
  | asked h => exact .inr (.inl h)
  | granted => exact .inr (.inr rfl)
  | moved phase => exact .inl (host_setPhase ..)
  | subscribed p hj _ => exact .inl (host_subscribe ..)
  | claimed hi => exact .inl (host_claim ..)
  | completed hp o => exact .inl (host_complete ..)
  | _ => exact .inl rfl

/-! ## What a step makes of an effect -/

variable {i p : Nat} {d : Descriptor} {run : Nat} {first : Option Completion} {goal : Goal}

/-- An effect on its way, with the transcript since some moment.  The first completion is the
one that was known at that moment, or else the first that has come up since. -/
structure Underway (i p : Nat) (d : Descriptor) (run : Nat) (first : Option Completion)
    (base : List Act) (s : State (σ × List Act)) : Prop where
  heard : ∃ acts, s.host.2 = base ++ acts ∧
    Pending i p d run (first.or (completionsIn run i acts).head?) s

theorem Pending.underway {s : State (σ × List Act)} (h : Pending i p d run first s) :
    Underway i p d run first s.host.2 s :=
  ⟨[], (List.append_nil _).symm, by simpa [completionsIn] using h⟩

theorem underway_of_grantAll {base : List Act} {s : State (σ × List Act)}
    (hs : Underway i p d run first base s) :
    Underway i p d run first base (grantAll H.recorded s) := by
  obtain ⟨acts, hacts, hpending⟩ := hs.heard
  refine ⟨acts ++ [.drained (H.drain s.host.1).1], ?_, ?_⟩
  · rw [host_grantAll]
    show s.host.2 ++ _ = _
    rw [hacts, List.append_assoc]
  · have hgrant := pending_of_grantAll (H := H.recorded) hpending
    rw [Option.or_assoc] at hgrant
    rw [completionsIn_append, List.head?_append]
    simpa [completionsIn, Act.completions, Host.recorded] using hgrant

/-- **What the rest of the loop does makes no difference to an effect**, other than by the
completions that come up. -/
theorem underway_of_change {base : List Act} {s u : State (σ × List Act)}
    (h : Change H.recorded t (· ≠ i) (· ≠ p) s u) (hs : Underway i p d run first base s) :
    Underway i p d run first base u := by
  obtain ⟨acts, hacts, hpending⟩ := hs.heard
  rcases pending_of_change h hpending with hp | rfl
  · rcases host_of_change h with hhost | hasked | rfl
    · exact ⟨acts, by rw [hhost, hacts], hp⟩
    · obtain ⟨more, hmore, hnone⟩ := transcript_of_asked hasked run i
      refine ⟨acts ++ more, by rw [hmore, hacts, List.append_assoc], ?_⟩
      rwa [completionsIn_append, hnone, List.append_nil]
    · exact underway_of_grantAll hs
  · exact underway_of_grantAll hs

theorem underway_of_changes {base : List Act} {s u : State (σ × List Act)}
    (h : Changes H.recorded t (· ≠ i) (· ≠ p) s u) (hs : Underway i p d run first base s) :
    Underway i p d run first base u :=
  h.kept underway_of_change hs

theorem waits_of_changes {s u : State σ} (h : Changes H t' claims completes s u) (ht : t' ≠ t)
    (hs : Waits t goal p s) : Waits t goal p u :=
  h.kept (fun hc => waits_of_change hc ht) hs

/-- The transcript since the beginning of a step holds what the step hears of. -/
theorem Underway.pending {s u : State (σ × List Act)}
    (h : Underway i p d run first s.host.2 u) :
    Pending i p d run (first.or (completionsIn run i (u.host.2.drop s.host.2.length)).head?)
      u := by
  obtain ⟨acts, hacts, hpending⟩ := h.heard
  rwa [hacts, List.drop_left]

/-! ## Completions that are carried out -/

@[simp] theorem effects_complete (s : State σ) (q : Nat) (o : Outcome) :
    (s.complete q o).effects = s.effects := by
  rw [State.complete_frame]

@[simp] theorem run_complete (s : State σ) (q : Nat) (o : Outcome) :
    (s.complete q o).run = s.run := by
  rw [State.complete_frame]

/-- An open promise that is completed has the outcome. -/
theorem outcome_complete_self {s : State σ} (made : p < s.promises.length)
    (opened : s.outcome? p = none) (o : Outcome) : (s.complete p o).outcome? p = some o := by
  have hp : s.promises[p]? = some s.promises[p] := List.getElem?_eq_getElem made
  unfold State.complete
  split
  · simp [State.outcome?, List.getElem?_set_self made]
  · next hno =>
    exfalso
    rcases hpr : s.promises[p] with ⟨_ | x, waiters⟩
    · exact hno waiters (by rw [hp, hpr])
    · simp [State.outcome?, hp, hpr] at opened

/-- Completing the open promise of an effect that has been claimed decides the effect. -/
theorem pending_of_complete {s : State σ} {c : Completion} {o : Outcome} (sound : Sound s)
    (made : p < s.promises.length) (owed : p ∉ s.owed)
    (others : ∀ j e, s.effects[j]? = some e → j ≠ i → e.promise ≠ p) (hrun : s.run = run)
    (effect : s.effects[i]? = some ⟨d, true, p⟩) (opened : s.outcome? p = none)
    (decides : Decides d c o) : Pending i p d run (some c) (s.complete p o) where
  sound := sound_complete sound p o
  made := by rwa [length_promises_complete]
  owed := by rwa [owed_complete sound.waiters]
  others := by rwa [effects_complete]
  run := (run_complete s p o).trans hrun
  standing := .decided c o (by rwa [effects_complete])
    (outcome_complete_self made opened o) decides

/-- A failure completes an effect at once if it is the first report of it, and is ignored
otherwise. -/
theorem pending_of_failure {s : State σ} (hs : Pending i p d run first s) (e : Exn) (n : Note) :
    Pending i p d run (first.or (some (.failed e)))
      (if (s.claim i).1 then (s.claim i).2.complete p (.error e) else (s.claim i).2.note n) := by
  cases hs.standing with
  | opened he ho hsettles =>
    have hsound := sound_claim hs.sound i
    have howed := owed_claim s i
    rw [State.claim_of_unclaimed he rfl] at hsound howed ⊢
    refine pending_of_complete hsound hs.made (fun hp => hs.owed (howed ▸ hp)) ?_ hs.run
      (List.getElem?_set_self hs.lt) ho (.raised e)
    intro j x hx hj
    have hx : (s.effects.set i ⟨d, true, p⟩)[j]? = some x := hx
    rw [List.getElem?_set_ne hj.symm] at hx
    exact hs.others j x hx hj
  | claimed error value he ho hq hsettles =>
    rw [hs.claim_of_some]
    exact hs.frame _ _ _ _ _
  | decided c o he ho hd =>
    rw [hs.claim_of_some]
    exact hs.frame _ _ _ _ _

/-- An exception that marks the end of a computation is carried out as if it were nothing. -/
theorem settle_of_isMark (H : Host σ) (s : State σ) (i : Nat) {error : Value}
    (mark : error.isMark = true) (value : Value) : settle H s i error value = s := by
  unfold settle
  split
  · rfl
  · exact if_pos mark

/-- What carrying out any other completion comes to. -/
theorem settle_eq {s : State σ} {claimed : Bool} (h : s.effects[i]? = some ⟨d, claimed, p⟩)
    {error : Value} (taken : error.isMark = false) (value : Value) :
    ∃ o host, Decides d (.done error value) o ∧ (host = s.host ∨ host = (H.fresh s.host).2) ∧
      settle H s i error value = State.complete { s with host } p o := by
  have hraised : ∀ odd : ∀ e, error = .exn e → e.isOrdinary = false, error ≠ .null →
      Decides d (.done error value)
        (.error (H.raise (.execution (.descriptor d) error) s.host).1) := fun odd hne =>
    .oddity error value _ hne odd rfl
  cases error with
  | null => exact ⟨.ok value, s.host, .success value, .inl rfl, by simp [settle, h, taken]⟩
  | exn x =>
    cases hx : x.isOrdinary with
    | true =>
      exact ⟨.error x, s.host, .failure x value hx, .inl rfl, by simp [settle, h, taken, hx]⟩
    | false =>
      refine ⟨_, _, hraised (fun e he => ?_) (fun hne => by cases hne), .inr rfl, ?_⟩
      · cases he
        exact hx
      · simp [settle, h, taken, hx, Host.raise]
  | _ =>
    exact ⟨_, _, hraised (fun e he => by cases he) (fun hne => by cases hne), .inr rfl,
      by simp [settle, h, taken, Host.raise]⟩

/-! ## Jobs while an effect is on its way -/

section

variable {s u : State σ} {j : Job} {rest : List Job}

/-- A job that does not carry out the completion of the effect is taken off the queue. -/
theorem pending_of_pop (hs : Pending i p d run first s) (hr : s.ready = j :: rest)
    (hj : j.settles? ≠ some i) (n : Nat) :
    Pending i p d run first { s with ready := rest, batch := n } where
  sound := sound_of_pop hr hs.sound n
  made := hs.made
  owed hp := hs.owed (mem_owed_of_pop hr hp)
  others := hs.others
  run := hs.run
  standing := by
    have hsub : ∀ k ∈ rest, k ∈ s.ready := fun k hk => hr ▸ List.mem_cons_of_mem j hk
    cases hs.standing with
    | opened he ho hsettles => exact .opened he ho fun k hk => hsettles k (hsub k hk)
    | claimed error value he ho hq hsettles =>
      refine .claimed error value he ho ?_ fun k hk => hsettles k (hsub k hk)
      rw [hr] at hq
      rcases List.mem_cons.1 hq with rfl | hq
      · exact absurd rfl hj
      · exact hq
    | decided c o he ho hd => exact .decided c o he ho hd

/-- A job other than the turn of the task is taken off the queue. -/
theorem waits_of_pop (hw : Waits t goal p s) (hr : s.ready = j :: rest)
    (hj : j ≠ .step t ∨ s.outcome? p = none) (n : Nat) :
    Waits t goal p { s with ready := rest, batch := n } where
  phase := hw.phase
  elsewhere := hw.elsewhere
  queued := by
    rcases hw.queued with hq | ⟨ho, hq⟩
    · exact .inl hq
    · rcases hj with hj | hj
      · rw [hr] at hq
        rcases List.mem_cons.1 hq with rfl | hq
        · exact absurd rfl hj
        · exact .inr ⟨ho, hq⟩
      · exact absurd hj ho

/-- A job of the queue does not complete the promise of an effect, unless it is the effect's
own. -/
theorem aim_ne (hs : Pending i p d run first s) (hj : j ∈ s.ready) (hi : j.settles? ≠ some i)
    {q : Nat} (hq : s.aim? j = some q) : q ≠ p := by
  rintro rfl
  cases j with
  | step k =>
    obtain ⟨task, htask, hp⟩ := Option.map_eq_some_iff.1 hq
    refine hs.owed ?_
    simp only [State.owed, List.mem_append, List.mem_map]
    exact .inl (.inl (.inl (.inl ⟨task, List.mem_of_getElem? htask, hp⟩)))
  | notice k m =>
    obtain ⟨group, hgroup, hp⟩ := Option.map_eq_some_iff.1 hq
    refine hs.owed ?_
    simp only [State.owed, List.mem_append, List.mem_map]
    exact .inl (.inl (.inl (.inr ⟨group, List.mem_of_getElem? hgroup, hp⟩)))
  | settle k e v =>
    obtain ⟨x, hx, hp⟩ := Option.map_eq_some_iff.1 hq
    exact hs.others k x hx (fun h => hi (congrArg some h)) hp
  | fulfil r o =>
    cases hq
    refine hs.owed ?_
    simp only [State.owed, List.mem_append, List.mem_filterMap]
    exact .inl (.inr ⟨_, hj, rfl⟩)
  | invoke f args => cases hq
  | stop => cases hq

end

/-- **A job of another sort leaves the effect and the task that waits for it alone.** -/
theorem waiting_of_runJob {s : State (σ × List Act)} {j : Job} {rest : List Job} {n : Nat}
    (hs : Pending i p d run first s) (hw : Waits t goal p s) (hr : s.ready = j :: rest)
    (hstep : j ≠ .step t) (hsettle : j.settles? ≠ some i) :
    Underway i p d run first s.host.2
        (runJob H.recorded { s with ready := rest, batch := n } j) ∧
      Waits t goal p (runJob H.recorded { s with ready := rest, batch := n } j) := by
  have hpending := pending_of_pop hs hr hsettle n
  have hwaits := waits_of_pop hw hr (.inl hstep) n
  by_cases hstop : j = .stop
  · subst hstop
    have hp : Pending i p d run first { s with ready := rest, batch := n, stopping := true } :=
      hpending.frame _ _ _ _ _
    exact ⟨hp.underway, hwaits.phase, hwaits.elsewhere, hwaits.queued⟩
  · obtain ⟨t', ht', hchanges⟩ : ∃ t', t' ≠ t ∧
        Changes H.recorded t' (· ≠ i) (· ≠ p) { s with ready := rest, batch := n }
          (runJob H.recorded { s with ready := rest, batch := n } j) :=
      exists_changes_runJob _ ⟨t + 1, Nat.succ_ne_self t⟩ (fun k hj hk => hstep (hk ▸ hj)) hstop
        fun q hq => aim_ne hs (hr ▸ List.mem_cons_self ..) hsettle hq
    exact ⟨underway_of_changes hchanges hpending.underway,
      waits_of_changes hchanges ht' hwaits⟩

/-- **Carrying out the completion that claimed the effect decides it.** -/
theorem waiting_of_settle {s : State (σ × List Act)} {rest : List Job} {n : Nat}
    {error value : Value} (hs : Pending i p d run first s) (hw : Waits t goal p s)
    (proper : ∀ c, first = some c → c.isProper = true)
    (hr : s.ready = .settle i error value :: rest) :
    Underway i p d run first s.host.2
        (settle H.recorded { s with ready := rest, batch := n } i error value) ∧
      Waits t goal p
        (settle H.recorded { s with ready := rest, batch := n } i error value) := by
  have hwaits := waits_of_pop hw hr (.inl fun h => by cases h) n
  obtain ⟨o, host, hd, hhost, heq⟩ : ∃ o host,
      (s.outcome? p = none → Decides d (.done error value) o) ∧
        (host = s.host ∨ host = (H.recorded.fresh s.host).2) ∧
        settle H.recorded { s with ready := rest, batch := n } i error value =
          State.complete { s with host, ready := rest, batch := n } p o := by
    cases mark : error.isMark with
    | false =>
      obtain ⟨o, host, hd, hhost, heq⟩ := settle_eq (H := H.recorded)
        (s := { s with ready := rest, batch := n }) hs.effect mark value
      exact ⟨o, host, fun _ => hd, hhost, heq⟩
    | true =>
      -- A mark did not claim the effect, so the outcome is there.
      cases hs.standing with
      | opened he ho hsettles =>
        exact absurd rfl (hsettles _ (hr ▸ List.mem_cons_self ..))
      | claimed error' value' he ho hq hsettles =>
        cases hsettles _ (hr ▸ List.mem_cons_self ..) rfl
        have hproper := proper _ rfl
        simp [Completion.isProper, mark] at hproper
      | decided c o he ho hd =>
        refine ⟨o, s.host, fun hnone => by simp [ho] at hnone, .inl rfl, ?_⟩
        rw [settle_of_isMark _ _ _ mark]
        exact (complete_of_outcome (s := { s with ready := rest, batch := n }) ho o).symm
  have htranscript : host.2 = s.host.2 := by
    rcases hhost with rfl | rfl <;> rfl
  have hw' : Waits t goal p { s with host, ready := rest, batch := n } :=
    ⟨hwaits.phase, hwaits.elsewhere, hwaits.queued⟩
  have hsound : Sound { s with host, ready := rest, batch := n } := by
    have hpop := sound_of_pop hr hs.sound n
    exact { hpop with owed := hpop.owed }
  have howed : p ∉ State.owed { s with host, ready := rest, batch := n } := fun hp =>
    hs.owed (mem_owed_of_pop (n := n) hr hp)
  rw [heq]
  refine ⟨⟨[], ?_, ?_⟩, waits_of_complete hw' p o⟩
  · rw [host_complete, List.append_nil]
    exact htranscript
  · have hnone : first.or (completionsIn run i []).head? = first := by simp [completionsIn]
    rw [hnone]
    cases hs.standing with
    | opened he ho hsettles =>
      exact absurd rfl (hsettles _ (hr ▸ List.mem_cons_self ..))
    | claimed error' value' he ho hq hsettles =>
      cases hsettles _ (hr ▸ List.mem_cons_self ..) rfl
      exact pending_of_complete hsound hs.made howed hs.others hs.run he ho (hd ho)
    | decided c o' he ho hd' =>
      have hcomplete := complete_of_outcome (s := { s with host, ready := rest, batch := n }) ho o
      rw [hcomplete]
      exact ⟨hsound, hs.made, howed, hs.others, hs.run, .decided c o' he ho hd'⟩

@[simp] theorem host_finishWatch (s : State σ) (k effect : Nat) (o : Outcome) :
    (finishWatch s k effect o).host = s.host := by
  unfold finishWatch
  split
  · exact host_finish ..
  · split
    · split
      · exact host_finish ..
      · dsimp only
        split
        · rw [host_finish, host_complete, host_claim]
        · exact (host_finish ..).trans (host_claim ..)
    · exact host_finish ..

/-- The promise of a task is not that of an effect. -/
theorem task_promise_ne {s : State σ} (hs : Pending i p d run first s) {k : Nat} {task : Task}
    (h : s.tasks[k]? = some task) : task.promise ≠ p := by
  rintro rfl
  refine hs.owed ?_
  simp only [State.owed, List.mem_append, List.mem_map]
  exact .inl (.inl (.inl (.inl ⟨task, List.mem_of_getElem? h, rfl⟩)))

/-- **The awaitable of the effect fails.** -/
theorem waiting_of_failure (H : Host σ) {s : State (σ × List Act)} (hs : Pending i p d run first s)
    (hw : Waits t goal p s) (ht : t' ≠ t) {e : Exn} (he : e.isOrdinary = true) :
    Pending i p d run (first.or (some (.failed e))) (finishWatch s t' i (.error e)) ∧
      Waits t goal p (finishWatch s t' i (.error e)) := by
  obtain ⟨m, hm, hpending, hwaits⟩ : ∃ m,
      finishWatch s t' i (.error e) = finish m t' none (.ok .null) ∧
        Pending i p d run (first.or (some (.failed e))) m ∧ Waits t goal p m := by
    have hclaim := waits_of_claim hw i
    refine ⟨_, by simp only [finishWatch, he, if_true, hs.effect],
      pending_of_failure hs e (.ignoring e d), ?_⟩
    split
    · exact waits_of_complete hclaim p _
    · exact ⟨hclaim.phase, hclaim.elsewhere, hclaim.queued⟩
  have hfinish : Changes H.recorded t' (· ≠ i) (· ≠ p) m (finish m t' none (.ok .null)) :=
    changes_finish m (fun _ => task_promise_ne hpending) none _
  have hafter := (underway_of_changes hfinish hpending.underway).pending
  rw [host_finish, List.drop_length] at hafter
  rw [hm]
  refine ⟨?_, waits_of_changes hfinish ht hwaits⟩
  simpa [completionsIn] using hafter

/-- What a step hears of, other than that the awaitable of the effect fails, is in the
transcript. -/
theorem reports_of_step {s u : State (σ × List Act)} (hs : Pending i p d run first s)
    (h : step H.recorded context s = .next u)
    (hwatch : ∀ k e, s.control ≠ .outcome k (.watch i) (.error e)) :
    reports H context i s = completionsIn run i (u.host.2.drop s.host.2.length) := by
  have hne : s.effects.length ≠ i := Nat.ne_of_gt hs.lt
  unfold reports
  rw [h, hs.run]
  cases hc : s.control with
  | idle => exact List.append_nil _
  | deliver k j captured signal => exact List.append_nil _
  | perform k g e =>
    dsimp only
    rw [if_neg hne, List.append_nil]
  | outcome k g o =>
    rcases g with _ | j | ⟨j, captured⟩
    · exact List.append_nil _
    · rcases o with e | v
      · have hj : j ≠ i := by
          rintro rfl
          exact hwatch k e hc
        dsimp only
        rw [if_neg hj, List.append_nil]
      · exact List.append_nil _
    · exact List.append_nil _

/-- The turn of the task that waits comes for nothing, or the outcome is there. -/
theorem stepTask_of_waits {s : State σ} (hw : Waits t goal p s) :
    stepTask H s t =
      match s.outcome? p with
      | some o => (s.setPhase t .running).arrive t goal o
      | none => s := by
  unfold stepTask
  cases houtcome : s.outcome? p <;> simp only [hw.phase, houtcome]

/-- The turn of a task whose outcome is there. -/
theorem stepTask_of_outcome {s : State σ} {o : Outcome}
    (phase : s.tasks[t]?.map Task.phase = some (.blocked goal p)) (ho : s.outcome? p = some o) :
    stepTask H s t = (s.setPhase t .running).arrive t goal o := by
  simp only [stepTask, phase, ho]

/-- A task whose outcome is there has its turn in the queue. -/
theorem Waits.turn {s : State σ} {o : Outcome} (hw : Waits t goal p s)
    (ho : s.outcome? p = some o) : .step t ∈ s.ready := by
  rcases hw.queued with ⟨waiters, hw, -⟩ | ⟨-, hq⟩
  · simp [State.outcome?, hw] at ho
  · exact hq

/-- A task whose outcome is there gets it at its turn. -/
theorem step_of_turn {s : State σ} {o : Outcome} {n : Nat} {rest : List Job}
    (hw : Waits t goal p s) (ho : s.outcome? p = some o) (hidle : s.control = .idle)
    (hb : s.batch = n + 1) (hr : s.ready = .step t :: rest) :
    step H context s = .next
      ((State.setPhase { s with ready := rest, batch := n } t .running).arrive t goal o) := by
  rw [step_of_batch H context hidle hb hr]
  exact congrArg Transition.next
    (stepTask_of_outcome (s := { s with ready := rest, batch := n }) hw.phase ho)

/-- **One step of the loop when nothing is under way.** -/
theorem waiting_of_idle {s u : State (σ × List Act)} (hs : Pending i p d run first s)
    (hw : Waits t goal p s) (proper : ∀ c, first = some c → c.isProper = true)
    (hidle : s.control = .idle)
    (h : step H.recorded context s = .next u) :
    (Underway i p d run first s.host.2 u ∧ Waits t goal p u) ∨
      ∃ c o, first = some c ∧ u.control = .outcome t goal o ∧ Decides d c o := by
  rcases step_idle_cases hidle h with ⟨n, j, rest, -, hr, rfl⟩ | ⟨n, rfl⟩ | ⟨tm, later, hr, ht, rfl⟩
  · by_cases hstep : j = .step t
    · subst hstep
      have hpending := pending_of_pop hs hr (fun h => by cases h) n
      simp only [runJob]
      cases ho : s.outcome? p with
      | none =>
        have hwaits := waits_of_pop hw hr (.inr ho) n
        rw [stepTask_of_waits hwaits]
        have ho' : State.outcome? { s with ready := rest, batch := n } p = none := ho
        rw [ho']
        exact .inl ⟨hpending.underway, hwaits⟩
      | some o =>
        obtain ⟨c, hfirst, hd⟩ := hs.decided ho
        refine .inr ⟨c, o, hfirst, ?_, hd⟩
        rw [stepTask_of_outcome (s := { s with ready := rest, batch := n }) hw.phase ho]
        rfl
    · by_cases hsettle : j.settles? = some i
      · obtain ⟨error, value, rfl⟩ : ∃ error value, j = .settle i error value := by
          cases j <;> cases hsettle
          exact ⟨_, _, rfl⟩
        exact .inl (waiting_of_settle hs hw proper hr)
      · exact .inl (waiting_of_runJob hs hw hr hstep hsettle)
  · have hpending : Pending i p d run first { s with batch := n } := hs.frame _ _ _ _ _
    exact .inl ⟨hpending.underway, hw.phase, hw.elsewhere, hw.queued⟩
  · refine .inl ⟨Pending.underway
      (s := { s with clock := tm.due, ready := [tm.job], timers := later }) ?_, ?_⟩
    · have hsound := sound_of_clock hr ht hs.sound
      have hgrown : Grown s { s with clock := tm.due, ready := [tm.job], timers := later } :=
        ⟨Nat.le_refl _, fun p hp => .inl (mem_owed_of_clock hr ht hp)⟩
      refine hs.transfer hsound hgrown rfl hs.others rfl rfl ?_ ?_
      · rw [hr]
        exact fun j hj => absurd hj List.not_mem_nil
      · intro j hj hi
        obtain rfl := List.mem_singleton.1 hj
        rw [hs.sound.timers tm (ht ▸ List.mem_cons_self ..)] at hi
        cases hi
    · refine ⟨hw.phase, hw.elsewhere, ?_⟩
      rcases hw.queued with hq | ⟨ho, hq⟩
      · exact .inl hq
      · rw [hr] at hq
        cases hq

/-- The watch over the awaitable of the effect ends. -/
theorem waiting_of_watch {s u : State (σ × List Act)} (hs : Pending i p d run first s)
    (hw : Waits t goal p s) (ht : t' ≠ t) {o : Outcome}
    (hc : s.control = .outcome t' (.watch i) o)
    (clean : ∀ c ∈ reports H context i s, c.isProper = true)
    (h : step H.recorded context s = .next u) :
    Pending i p d run (first.or (reports H context i s).head?) u ∧ Waits t goal p u := by
  have hidle : Pending i p d run first s.toIdle := hs.frame _ _ _ _ _
  have hwidle : Waits t goal p s.toIdle := ⟨hw.phase, fun h => (by cases h), hw.queued⟩
  have hu : finishWatch s.toIdle t' i o = u := by
    simp only [step, hc] at h
    exact Transition.next.inj h
  rcases o with e | v
  · have hreports : reports H context i s = [.failed e] := by
      have hhost : u.host = s.host := hu ▸ host_finishWatch s.toIdle t' i _
      unfold reports
      rw [h, hc]
      dsimp only
      rw [hhost, List.drop_length, if_pos rfl]
      rfl
    have hproper : (Completion.failed e).isProper = true :=
      clean _ (by rw [hreports]; exact List.mem_singleton_self _)
    have he : e.isOrdinary = true := (Completion.isProper_failed.1 hproper).1
    rw [hreports, ← hu]
    exact waiting_of_failure H hidle hwidle ht he
  · have hfinish : Changes H.recorded t' (· ≠ i) (· ≠ p) s.toIdle u :=
      hu ▸ changes_finish s.toIdle (fun _ => task_promise_ne hs) none (.ok .null)
    have hnever : ∀ k e, s.control ≠ .outcome k (.watch i) (.error e) := by
      intro k e hk
      rw [hc] at hk
      cases hk
    rw [reports_of_step hs h hnever]
    exact ⟨(underway_of_changes hfinish hidle.underway).pending,
      waits_of_changes hfinish ht hwidle⟩

/-- The loop is busy with another task, and not with the end of a watch for the effect. -/
theorem waiting_of_busy {s u : State (σ × List Act)} (hs : Pending i p d run first s)
    (hw : Waits t goal p s) (ht : t' ≠ t) (busy : s.control.task? = some t')
    (hwatch : ∀ k o, s.control ≠ .outcome k (.watch i) o)
    (h : step H.recorded context s = .next u) :
    Underway i p d run first s.host.2 u ∧ Waits t goal p u := by
  have hidle : Pending i p d run first s.toIdle := hs.frame _ _ _ _ _
  have hwidle : Waits t goal p s.toIdle := ⟨hw.phase, fun h => (by cases h), hw.queued⟩
  have hopen : s.effects.length ≠ i := Nat.ne_of_gt hs.lt
  obtain ⟨v, hv, hchanges⟩ : ∃ v, step H.recorded context s = .next v ∧
      Changes H.recorded t' (· ≠ i) (· ≠ p) s.toIdle v := by
    refine step_of_task s busy (fun _ _ _ _ _ _ => hopen) (fun _ => task_promise_ne hs)
      fun k o hc => ⟨?_, fun pending hk => ?_⟩
    · rintro rfl
      exact hwatch _ o hc
    · refine hs.others k pending hk ?_
      rintro rfl
      exact hwatch _ o hc
  obtain rfl : v = u := Transition.next.inj (hv.symm.trans h)
  exact ⟨underway_of_changes hchanges hidle.underway, waits_of_changes hchanges ht hwidle⟩

/-- **One step while a task waits for an effect.**  The step hears of completions and the
first of all of them stays the first; or it is the task's turn, and the outcome that the
first completion stands for reaches it. -/
theorem waiting_of_step {s u : State (σ × List Act)} (hs : Pending i p d run first s)
    (hw : Waits t goal p s) (proper : ∀ c, first = some c → c.isProper = true)
    (clean : ∀ c ∈ reports H context i s, c.isProper = true)
    (h : step H.recorded context s = .next u) :
    (Pending i p d run (first.or (reports H context i s).head?) u ∧ Waits t goal p u) ∨
      ∃ c o, first = some c ∧ u.control = .outcome t goal o ∧ Decides d c o := by
  have htranscript : (∀ k o, s.control ≠ .outcome k (.watch i) o) →
      Underway i p d run first s.host.2 u →
      Pending i p d run (first.or (reports H context i s).head?) u := by
    intro hwatch hu
    rw [reports_of_step hs h fun k e => hwatch k _]
    exact hu.pending
  cases htask : s.control.task? with
  | none =>
    have hidle : s.control = .idle := Control.eq_idle htask
    have hwatch : ∀ k o, s.control ≠ .outcome k (.watch i) o := by
      rw [hidle]
      exact fun _ _ h => by cases h
    exact (waiting_of_idle hs hw proper hidle h).imp_left (And.imp_left (htranscript hwatch))
  | some t' =>
    have ht : t' ≠ t := by
      rintro rfl
      exact hw.elsewhere htask
    refine .inl ?_
    by_cases hwatch : ∃ k o, s.control = .outcome k (.watch i) o
    · obtain ⟨k, o, hc⟩ := hwatch
      obtain rfl : k = t' := by
        rw [hc] at htask
        exact Option.some.inj htask
      exact waiting_of_watch hs hw ht hc clean h
    · have hnever : ∀ k o, s.control ≠ .outcome k (.watch i) o := fun k o hc => hwatch ⟨k, o, hc⟩
      exact (waiting_of_busy hs hw ht htask hnever h).imp_left (htranscript hnever)

end EventLoop
end DescribedEffects
