import DescribedEffects.Computation.Transcript
import DescribedEffects.Proofs.EventLoop.Queue

/-!
# The standing of a callback-style effect

A callback-style effect can be reported complete from many sides: its completion callback
is called, by anybody and any number of times, the function itself fails, or the awaitable
that the function returned does.  Each of these is a `Completion`, and `Decides` says what
outcome a completion stands for.

The effect is *open* until the first report.  If that is a failure the outcome is there at
once.  If the callback was called the effect is *claimed*: a job that carries out this very
completion is in the queue, and no other job for the effect.  `Standing` is this state, with
the first completion as its index, and `Pending` adds that nobody else can complete the
promise of the effect.  The changes that the rest of the loop makes, and requests about
other effects, leave it alone (`pending_of_change`); requests about the effect move it on
(`pending_of_grantAll`), and after the first of them they do not.
-/

namespace DescribedEffects

/-- One report that a callback-style effect is complete. -/
inductive Completion where
  /-- The completion callback was called. -/
  | done (error value : Value)
  /-- The function, or the awaitable that it returned, failed. -/
  | failed (e : Exn)

/-- The outcome that a completion of an effect stands for. -/
inductive Decides (d : Descriptor) : Completion → Outcome → Prop
  | success (value : Value) : Decides d (.done .null value) (.ok value)
  | failure (e : Exn) (value : Value) (ordinary : e.isOrdinary = true) :
      Decides d (.done (.exn e) value) (.error e)
  /-- Whatever else is given as an error is the cause of one. -/
  | oddity (error value : Value) (x : Exn) (present : error ≠ .null)
      (odd : ∀ e, error = .exn e → e.isOrdinary = false)
      (cause : x.body = .execution (.descriptor d) error) :
      Decides d (.done error value) (.error x)
  | raised (e : Exn) : Decides d (.failed e) (.error e)

/-- The promise of an effect takes the completion: what fails does so with an ordinary exception,
and no exception is one that marks the end of a computation. -/
def Completion.isProper : Completion → Bool
  | .done error _ => !error.isMark
  | .failed e => e.isOrdinary && !e.isExhausted

theorem Completion.isProper_failed {e : Exn} :
    (Completion.failed e).isProper = true ↔ e.isOrdinary = true ∧ e.isExhausted = false := by
  simp [Completion.isProper]

/-- The completion that a request reports, if it is about the given effect of the given run
of the loop. -/
def Request.completion? (run effect : Nat) : Request → Option Completion
  | .complete r i error value => if r = run ∧ i = effect then some (.done error value) else none
  | _ => none

namespace EventLoop

variable {σ : Type} {H : Host σ} {context : Value} {t : Nat} {claims completes : Nat → Prop}

/-- How it stands with an effect whose first completion is known. -/
inductive Standing (i p : Nat) (d : Descriptor) : Option Completion → State σ → Prop
  | opened {s : State σ} (effect : s.effects[i]? = some ⟨d, false, p⟩)
      (outcome : s.outcome? p = none) (settles : ∀ j ∈ s.ready, j.settles? ≠ some i) :
      Standing i p d none s
  | claimed {s : State σ} (error value : Value) (effect : s.effects[i]? = some ⟨d, true, p⟩)
      (outcome : s.outcome? p = none) (queued : .settle i error value ∈ s.ready)
      (settles : ∀ j ∈ s.ready, j.settles? = some i → j = .settle i error value) :
      Standing i p d (some (.done error value)) s
  | decided {s : State σ} (c : Completion) (o : Outcome)
      (effect : s.effects[i]? = some ⟨d, true, p⟩) (outcome : s.outcome? p = some o)
      (decides : Decides d c o) : Standing i p d (some c) s

/-- An effect that is on its way, with the first of its completions so far.  Nobody else
completes its promise. -/
structure Pending (i p : Nat) (d : Descriptor) (run : Nat) (first : Option Completion)
    (s : State σ) : Prop where
  sound : Sound s
  made : p < s.promises.length
  owed : p ∉ s.owed
  others : ∀ j e, s.effects[j]? = some e → j ≠ i → e.promise ≠ p
  run : s.run = run
  standing : Standing i p d first s

variable {i p : Nat} {d : Descriptor} {run : Nat} {first : Option Completion} {s u : State σ}

theorem Pending.effect (h : Pending i p d run first s) :
    s.effects[i]? = some ⟨d, first.isSome, p⟩ := by
  cases h.standing with
  | opened effect => exact effect
  | claimed _ _ effect => exact effect
  | decided _ _ effect => exact effect

/-- An effect that has been reported is not claimed again. -/
theorem Pending.claim_of_some {c : Completion} (h : Pending i p d run (some c) s) :
    s.claim i = (false, s) :=
  State.claim_of_claimed fun _ he =>
    congrArg PendingEffect.claimed (Option.some.inj (he.symm.trans h.effect))

theorem Pending.lt (h : Pending i p d run first s) : i < s.effects.length :=
  (List.getElem?_eq_some_iff.1 h.effect).1

/-- The outcome of an effect, if there is one, is decided by the first completion. -/
theorem Pending.decided (h : Pending i p d run first s) {o : Outcome} (ho : s.outcome? p = some o) :
    ∃ c, first = some c ∧ Decides d c o := by
  cases h.standing with
  | opened _ hnone _ => rw [ho] at hnone; cases hnone
  | claimed _ _ _ hnone _ _ => rw [ho] at hnone; cases hnone
  | decided c o' _ ho' hd =>
    obtain rfl : o = o' := Option.some.inj (ho.symm.trans ho')
    exact ⟨c, rfl, hd⟩

/-- What leaves the effect, the outcome of its promise and its jobs alone leaves its
standing alone. -/
theorem Standing.transfer (h : Standing i p d first s) (effect : u.effects[i]? = s.effects[i]?)
    (outcome : u.outcome? p = s.outcome? p) (kept : ∀ j ∈ s.ready, j ∈ u.ready)
    (new : ∀ j ∈ u.ready, j.settles? = some i → j ∈ s.ready) : Standing i p d first u := by
  cases h with
  | opened he ho hs =>
    exact .opened (effect.trans he) (outcome.trans ho) fun j hj hi => hs j (new j hj hi) hi
  | claimed error value he ho hq hs =>
    exact .claimed error value (effect.trans he) (outcome.trans ho) (kept _ hq) fun j hj hi =>
      hs j (new j hj hi) hi
  | decided c o he ho hd => exact .decided c o (effect.trans he) (outcome.trans ho) hd

/-- A pending effect that a change leaves alone. -/
theorem Pending.transfer (h : Pending i p d run first s) (sound : Sound u) (grown : Grown s u)
    (hrun : u.run = s.run)
    (others : ∀ j e, u.effects[j]? = some e → j ≠ i → e.promise ≠ p)
    (effect : u.effects[i]? = s.effects[i]?) (outcome : u.outcome? p = s.outcome? p)
    (kept : ∀ j ∈ s.ready, j ∈ u.ready)
    (new : ∀ j ∈ u.ready, j.settles? = some i → j ∈ s.ready) :
    Pending i p d run first u where
  sound := sound
  made := Nat.lt_of_lt_of_le h.made grown.promises
  owed hp := by
    rcases grown.owed p hp with hp | hp
    · exact h.owed hp
    · exact absurd h.made (Nat.not_lt.2 hp.1)
  others := others
  run := hrun.trans h.run
  standing := h.standing.transfer effect outcome kept new

/-- What is no business of effects makes no difference to one. -/
theorem Pending.frame (h : Pending i p d run first s) (host : σ) (batch : Nat)
    (stopping : Bool) (notes : List Note) (control : Control) :
    Pending i p d run first { s with host, batch, stopping, notes, control } :=
  h.transfer { h.sound with owed := h.sound.owed } (.of_owed (Nat.le_refl _) rfl) rfl h.others
    rfl rfl (fun _ => id) fun _ hj _ => hj

/-- Changing another effect, but not its promise, keeps the promises of the others apart. -/
theorem others_of_set (h : Pending i p d run first s) {k : Nat} (hk : k ≠ i)
    {x y : PendingEffect} (hx : s.effects[k]? = some x) (hy : y.promise = x.promise) :
    ∀ j e, (s.effects.set k y)[j]? = some e → j ≠ i → e.promise ≠ p := by
  intro j e he hj
  rw [List.getElem?_set] at he
  split at he
  · next hkj =>
    split at he
    · cases he
      rw [hy]
      exact h.others k x hx hk
    · cases he
  · exact h.others j e he hj

/-- Granting requests about other effects. -/
theorem pending_of_granting (h : Granting claims s u) (hi : ∀ j, claims j → j ≠ i)
    (hs : Pending i p d run first s) : Pending i p d run first u := by
  have hsound := sound_of_granting h hs.sound
  have hgrown := grown_of_granting h
  cases h with
  | drained host =>
    exact hs.transfer hsound hgrown rfl hs.others rfl rfl (fun _ => id) fun _ hj _ => hj
  | @reported k x may hk unclaimed error value =>
    refine hs.transfer hsound hgrown rfl (others_of_set hs (hi k may) hk rfl)
      (List.getElem?_set_ne (hi k may)) rfl (fun _ => List.mem_append_left _) fun j hj hji => ?_
    rcases List.mem_append.1 hj with hj | hj
    · exact hj
    · obtain rfl := List.mem_singleton.1 hj
      exact absurd (Option.some.inj hji) (hi k may)
  | deferred n f args =>
    exact hs.transfer hsound hgrown rfl hs.others rfl rfl (fun _ => id) fun _ hj _ => hj
  | future k o =>
    exact hs.transfer hsound hgrown rfl hs.others rfl (outcome_concat_eq rfl hs.made)
      (fun _ => id) fun _ hj _ => hj
  | ripening hf n o =>
    exact hs.transfer hsound hgrown rfl hs.others rfl rfl (fun _ => id) fun _ hj _ => hj

/-- **A request moves an effect on if it is the first report of it**, and otherwise leaves it
alone. -/
theorem pending_of_grant (hs : Pending i p d run first s) (r : Request) :
    Pending i p d run (first.or (r.completion? run i)) (grant s r) := by
  by_cases hr : ∃ error value, r = .complete run i error value
  · obtain ⟨error, value, rfl⟩ := hr
    obtain rfl := hs.run
    have hgrant : Relation.ReflTransGen (Granting fun _ => True) s _ :=
      granting_grant s (.complete s.run i error value) fun _ _ _ _ => trivial
    have hsound := kept_of_granting sound_of_granting hgrant hs.sound
    have hgrown := kept_of_granting (P := Grown s)
      (fun h hs => hs.trans (grown_of_granting h)) hgrant (.refl s)
    have heffect := hs.effect
    rw [grant_complete, heffect] at hsound hgrown ⊢
    cases hs.standing with
    | opened he ho hsettles =>
      have hset : (s.effects.set i ⟨d, true, p⟩)[i]? = some ⟨d, true, p⟩ := by
        rw [List.getElem?_set_self hs.lt]
      refine ⟨hsound, hs.made, fun hp => ?_, fun j e he hj => ?_, rfl, ?_⟩
      · rcases hgrown.owed p hp with hp | hp
        · exact hs.owed hp
        · exact absurd hs.made (Nat.not_lt.2 hp.1)
      · have hset : (s.effects.set i ⟨d, true, p⟩)[j]? = some e := he
        rw [List.getElem?_set_ne hj.symm] at hset
        exact hs.others j e hset hj
      · have hcompletion : (Request.complete s.run i error value).completion? s.run i =
            some (.done error value) := if_pos ⟨rfl, rfl⟩
        rw [hcompletion]
        refine .claimed error value hset ho (by simp) fun j hj hji => ?_
        rcases List.mem_append.1 hj with hj | hj
        · exact absurd hji (hsettles j hj)
        · exact List.mem_singleton.1 hj
    | claimed error' value' he ho hq hsettles => exact hs
    | decided c o he ho hd => exact hs
  · have hnone : r.completion? run i = none := by
      cases r with
      | complete run' j error value =>
        have hne : ¬ (run' = run ∧ j = i) := by
          rintro ⟨rfl, rfl⟩
          exact hr ⟨error, value, rfl⟩
        exact if_neg hne
      | _ => rfl
    rw [hnone, Option.or_none]
    have hgranting : Relation.ReflTransGen (Granting (· ≠ i)) s (grant s r) := by
      refine granting_grant s r ?_
      rintro j error value rfl rfl
      exact hr ⟨error, value, by rw [hs.run]⟩
    exact kept_of_granting (fun h => pending_of_granting h fun _ => id) hgranting hs

/-- **Granting requests moves an effect on by the first report among them.** -/
theorem pending_of_grantAll (hs : Pending i p d run first s) :
    Pending i p d run
      (first.or ((H.drain s.host).1.filterMap (Request.completion? run i)).head?)
      (grantAll H s) := by
  unfold grantAll
  dsimp only
  generalize (H.drain s.host).1 = requests
  have hgranting : Granting (· ≠ i) s { s with host := (H.drain s.host).2 } := .drained s _
  have hdrained := pending_of_granting hgranting (fun _ => id) hs
  clear hs
  generalize { s with host := (H.drain s.host).2 } = u at hdrained ⊢
  induction requests generalizing first u with
  | nil => simpa using hdrained
  | cons r rest ih =>
    have hgrant := ih _ (pending_of_grant hdrained r)
    rw [List.foldl_cons]
    cases hc : r.completion? run i with
    | none =>
      rw [hc, Option.or_none] at hgrant
      rwa [List.filterMap_cons_none hc]
    | some c =>
      rw [hc, Option.or_assoc] at hgrant
      rwa [List.filterMap_cons_some hc]

/-- Jobs that begin to wait carry out no completion. -/
theorem settles_concat_of_isPatient {ready : List Job} {waiters : List Job}
    (h : ∀ j ∈ waiters, j.isPatient = true) :
    ∀ j ∈ ready ++ waiters, j.settles? = some i → j ∈ ready := by
  intro j hj hi
  rcases List.mem_append.1 hj with hj | hj
  · exact hj
  · rw [settles?_of_isPatient (h j hj)] at hi
    cases hi

/-- **What the rest of the loop does leaves a pending effect alone**, requests apart. -/
theorem pending_of_change (h : Change H t (· ≠ i) (· ≠ p) s u)
    (hs : Pending i p d run first s) :
    Pending i p d run first u ∨ u = grantAll H s := by
  have hsound := sound_of_change h hs.sound
  have hgrown := grown_of_change h hs.sound.waiters
  cases h with
  | granted => exact .inr rfl
  | moved phase =>
    refine .inl ?_
    rw [State.setPhase_frame] at hsound hgrown ⊢
    exact hs.transfer hsound hgrown rfl hs.others rfl rfl (fun _ => id) fun _ hj _ => hj
  | queued =>
    exact .inl (hs.transfer hsound hgrown rfl hs.others rfl rfl
      (fun _ => List.mem_append_left _) (settles_concat_of_isPatient (by simp [Job.isPatient])))
  | promised o =>
    exact .inl (hs.transfer hsound hgrown rfl hs.others rfl (outcome_concat_eq rfl hs.made)
      (fun _ => id) fun _ hj _ => hj)
  | @subscribed q j hj _ =>
    refine .inl ?_
    have houtcome := outcome_subscribe s q j p
    rw [State.subscribe_frame] at hsound hgrown houtcome ⊢
    exact hs.transfer hsound hgrown rfl hs.others rfl houtcome (fun _ => id) fun _ hj _ => hj
  | tasked errand =>
    exact .inl (hs.transfer hsound hgrown rfl hs.others rfl (outcome_concat_eq rfl hs.made)
      (fun _ => List.mem_append_left _) (settles_concat_of_isPatient (by simp [Job.isPatient])))
  | grouped n =>
    exact .inl (hs.transfer hsound hgrown rfl hs.others rfl (outcome_concat_eq rfl hs.made)
      (fun _ => id) fun _ hj _ => hj)
  | opened e =>
    refine .inl (hs.transfer hsound hgrown rfl (fun j x hx hj => ?_)
      (List.getElem?_append_left hs.lt) (outcome_concat_eq rfl hs.made) (fun _ => id)
      fun _ hj _ => hj)
    have hx : (s.effects ++ [(⟨e, false, s.promises.length⟩ : PendingEffect)])[j]? = some x := hx
    rw [List.getElem?_append] at hx
    split at hx
    · exact hs.others j x hx hj
    · obtain rfl := List.mem_singleton.1 (List.mem_of_getElem? hx)
      exact Nat.ne_of_gt hs.made
  | @claimed k hk =>
    refine .inl ?_
    rcases s.claim_cases k with ⟨_, hx, -, hu⟩ | hu <;> rw [hu] at hsound hgrown ⊢
    · exact hs.transfer hsound hgrown rfl (others_of_set hs hk hx rfl)
        (List.getElem?_set_ne hk) rfl (fun _ => id) fun _ hj _ => hj
    · exact hs
  | @completed q hq o =>
    refine .inl ?_
    have houtcome := outcome_complete_of_ne (s := s) hq o
    rcases s.complete_cases q o with ⟨waiters, hw, hu⟩ | hu <;> rw [hu] at hsound hgrown houtcome ⊢
    · have hpatient := hs.sound.waiters _ (List.mem_of_getElem? hw)
      exact hs.transfer hsound hgrown rfl hs.others rfl houtcome
        (fun _ => List.mem_append_left _) (settles_concat_of_isPatient hpatient)
    · exact hs
  | _ =>
    exact .inl (hs.transfer hsound hgrown rfl hs.others rfl rfl (fun _ => id) fun _ hj _ => hj)

/-! ## The task that waits -/

/-- A task is blocked on a promise.  While the promise is open the task is among those that
wait for it, and once it is complete the task is in the queue. -/
structure Waits (t : Nat) (goal : Goal) (p : Nat) (s : State σ) : Prop where
  phase : s.tasks[t]?.map Task.phase = some (.blocked goal p)
  elsewhere : s.control.task? ≠ some t
  queued : (∃ waiters, s.promises[p]? = some ⟨none, waiters⟩ ∧ .step t ∈ waiters) ∨
    s.outcome? p ≠ none ∧ .step t ∈ s.ready

variable {goal : Goal} {t' : Nat}

/-- What keeps the task where it is, the promise and the queue keeps it waiting. -/
theorem Waits.transfer (h : Waits t goal p s)
    (phase : u.tasks[t]?.map Task.phase = s.tasks[t]?.map Task.phase)
    (elsewhere : u.control.task? ≠ some t)
    (promise : ∀ waiters, s.promises[p]? = some ⟨none, waiters⟩ →
      ∃ more, u.promises[p]? = some ⟨none, waiters ++ more⟩)
    (onward : Onward s u) : Waits t goal p u where
  phase := phase.trans h.phase
  elsewhere := elsewhere
  queued := by
    rcases h.queued with ⟨waiters, hw, ht⟩ | ⟨ho, ht⟩
    · obtain ⟨more, hmore⟩ := promise waiters hw
      exact .inl ⟨_, hmore, List.mem_append_left _ ht⟩
    · obtain ⟨o, ho⟩ := Option.ne_none_iff_exists'.1 ho
      refine .inr ⟨?_, onward.ready.subset ht⟩
      rw [onward.outcome ho]
      exact Option.some_ne_none o

/-- A promise that is still as it was. -/
theorem promise_same (h : u.promises[p]? = s.promises[p]?) :
    ∀ waiters, s.promises[p]? = some ⟨none, waiters⟩ →
      ∃ more, u.promises[p]? = some ⟨none, waiters ++ more⟩ :=
  fun _ hw => ⟨[], by rw [h, hw, List.append_nil]⟩

/-- Making another promise leaves an earlier one alone. -/
theorem promise_concat {new : Promise} (h : u.promises = s.promises ++ [new]) :
    ∀ waiters, s.promises[p]? = some ⟨none, waiters⟩ →
      ∃ more, u.promises[p]? = some ⟨none, waiters ++ more⟩ := by
  intro waiters hw
  have hlt := (List.getElem?_eq_some_iff.1 hw).1
  refine ⟨[], ?_⟩
  rw [h, List.getElem?_append_left hlt, hw, List.append_nil]

theorem waits_of_granting (h : Granting claims s u) (hs : Waits t goal p s) :
    Waits t goal p u := by
  have honward := onward_of_granting h
  cases h with
  | future k o => exact hs.transfer rfl hs.elsewhere (promise_concat rfl) honward
  | _ => exact hs.transfer rfl hs.elsewhere (promise_same rfl) honward

/-- Completing a promise keeps those that wait for it in view. -/
theorem waits_of_complete (hs : Waits t goal p s) (q : Nat) (o : Outcome) :
    Waits t goal p (s.complete q o) := by
  rcases s.complete_cases q o with ⟨waiters, hq, hu⟩ | hu <;> rw [hu]
  · refine ⟨hs.phase, hs.elsewhere, ?_⟩
    by_cases hqp : q = p
    · subst hqp
      have hlt := (List.getElem?_eq_some_iff.1 hq).1
      rcases hs.queued with ⟨waiters', hw, ht⟩ | ⟨ho, ht⟩
      · rw [hq] at hw
        cases hw
        refine .inr ⟨?_, List.mem_append_right _ ht⟩
        simp [State.outcome?, List.getElem?_set_self hlt]
      · exact absurd (by simp [State.outcome?, hq]) ho
    · rcases hs.queued with ⟨waiters', hw, ht⟩ | ⟨ho, ht⟩
      · refine .inl ⟨waiters', ?_, ht⟩
        rw [List.getElem?_set_ne hqp, hw]
      · refine .inr ⟨?_, List.mem_append_left _ ht⟩
        unfold State.outcome? at ho ⊢
        rwa [List.getElem?_set_ne hqp]
  · exact hs

theorem waits_of_claim (hs : Waits t goal p s) (k : Nat) : Waits t goal p (s.claim k).2 := by
  rw [State.claim_frame]
  exact ⟨hs.phase, hs.elsewhere, hs.queued⟩

/-- **What is done on behalf of another task keeps a task waiting.** -/
theorem waits_of_change (h : Change H t' claims completes s u) (ht : t' ≠ t)
    (hs : Waits t goal p s) : Waits t goal p u := by
  have honward := onward_of_change h
  cases h with
  | granted => exact kept_of_granting waits_of_granting (granting_grantAll H s) hs
  | idled =>
    exact hs.transfer rfl (fun h => by cases h) (promise_same rfl) honward
  | turned hc =>
    refine hs.transfer rfl ?_ (promise_same rfl) honward
    rw [hc]
    exact fun h => ht (Option.some.inj h)
  | moved phase =>
    rcases s.setPhase_cases t' phase with ⟨_, -, hu⟩ | hu <;> rw [hu] at honward ⊢
    · refine hs.transfer ?_ hs.elsewhere (promise_same rfl) honward
      rw [List.getElem?_set_ne ht]
    · exact hs
  | promised o => exact hs.transfer rfl hs.elsewhere (promise_concat rfl) honward
  | @subscribed q j hj _ =>
    rcases s.subscribe_cases q j with ⟨waiters, hq, hu⟩ | hu <;> rw [hu] at honward ⊢
    · refine hs.transfer rfl hs.elsewhere (fun waiters' hw => ?_) honward
      by_cases hqp : q = p
      · subst hqp
        have hlt := (List.getElem?_eq_some_iff.1 hq).1
        rw [hq] at hw
        cases hw
        exact ⟨[j], List.getElem?_set_self hlt⟩
      · refine ⟨[], ?_⟩
        rw [List.getElem?_set_ne hqp, hw, List.append_nil]
    · exact hs
  | tasked errand =>
    refine hs.transfer ?_ hs.elsewhere (promise_concat rfl) honward
    have hlt : t < s.tasks.length := by
      obtain ⟨task, htask, -⟩ := Option.map_eq_some_iff.1 hs.phase
      exact (List.getElem?_eq_some_iff.1 htask).1
    simp [State.newTask, State.newPromise, State.enqueue, List.getElem?_append_left hlt]
  | grouped n => exact hs.transfer rfl hs.elsewhere (promise_concat rfl) honward
  | opened e => exact hs.transfer rfl hs.elsewhere (promise_concat rfl) honward
  | claimed hk => exact waits_of_claim hs _
  | completed hq o => exact waits_of_complete hs _ o
  | _ => exact hs.transfer rfl hs.elsewhere (promise_same rfl) honward

end EventLoop
end DescribedEffects
