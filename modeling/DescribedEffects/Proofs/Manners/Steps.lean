import DescribedEffects.Proofs.Manners.Jobs

/-!
# Steps of a loop while an item is performed

`Sure` is all that is known of a loop from the time when an item has been yielded until the
driver is told of the outcome.  Every step in between keeps it (`Sure.next`), in whatever manner
functions hand over their outcomes.

## Exceptions of the library

The identity of an exception that the library makes tells the item on whose account it is made
and how many were made for it before.  What is known beforehand is how many there will be, one or
none: those that have been made and those that are still to be made (`Sure.account`).
-/

namespace DescribedEffects
namespace EventLoop

variable {P S : Type} {K : Callables} {context : Value} {es es' : List Expected} {top : Expected}
  {s m u : Loop P S} {C : Programs P} {M : Manner S} {t p q i : Nat} {goal : Goal} {o : Outcome}

/-- What comes before a state that is idle. -/
theorem Moves.before (h : Moves K context es top m u) (frugal : Frugal s m)
    (load : ∀ w, s.control.load w = 0) (idle : m.control = .idle) : Moves K context es top s u := by
  obtain ⟨es', more, tidy, aims, quiet, pays, groups⟩ := h
  have hdebt : ∀ w, m.debt w = s.debt w := fun w => by
    rw [State.debt, State.debt, frugal.load, load, idle]
    rfl
  refine .mk es' more tidy aims quiet ⟨?_, ?_⟩ (groups.imp (fun h => h.trans frugal.groups) ?_)
  · rw [← hdebt]
    exact pays.size
  · rw [← hdebt, ← frugal.minted]
    exact pays.minted
  · rintro ⟨t, goal, d, n, control, -⟩
    rw [idle] at control
    cases control

/-! ## Ends of tasks -/

theorem complete_setPhase (s : Loop P S) (t : Nat) (phase : Phase) (q : Nat) (o : Outcome) :
    (s.setPhase t phase).complete q o = (s.complete q o).setPhase t phase := by
  unfold State.complete State.setPhase
  cases ht : s.tasks[t]? with
  | none =>
    dsimp only
    split
    · simp only [ht]
    · simp only [ht]
  | some task =>
    dsimp only
    split
    · simp only [ht]
    · simp only [ht]

theorem claim_complete (s : Loop P S) (i q : Nat) (o : Outcome) :
    (s.claim i).2.complete q o = ((s.complete q o).claim i).2 := by
  unfold State.claim
  rw [effects_complete]
  cases s.effects[i]? with
  | none => rfl
  | some e =>
    dsimp only
    split
    · rfl
    · unfold State.complete
      dsimp only
      split <;> rfl

/-- A task that is complete has ended. -/
theorem finish_eq (ht : s.tasks[t]? = some ⟨.running, p⟩) (report : Option Report) (o : Outcome) :
    finish s t report o = ((s.complete p o).setPhase t (.finished report)).toIdle := by
  simp only [finish, ht, complete_setPhase]

section

variable (hs : Tidy K context es top [] (some (t, goal)) s) (idle : s.control = .idle)
  (quiet : s.scene.requests = []) (ht : s.tasks[t]? = some ⟨.running, p⟩)

include hs idle quiet ht

/-- **A task is complete**, with what is expected of it. -/
theorem moves_finish (watched : ∀ i, goal = .watch i → Claimed s i) {x : Expected}
    (expects : es[p]? = some x) (outcome : x.outcome = o) (there : x.IsThere s.host.2) :
    Moves K context es top s (finish s t none o) := by
  let v := s.complete p o
  have htask : v.tasks[t]? = some ⟨.running, p⟩ := by
    rw [tasks_complete]
    exact ht
  have heffects : v.effects = s.effects := effects_complete ..
  have hmade : p < s.promises.length := by
    rw [← hs.length]
    exact (List.getElem?_eq_some_iff.1 expects).1
  have hthere : (v.setPhase t (.finished none)).outcome? p ≠ none := by
    rw [setPhase_eq htask]
    exact outcome_complete_ne_none hmade o
  have htidy : Tidy K context es top [] none (v.setPhase t (.finished none)) := by
    refine (hs.complete expects outcome there).rest htask (fun i hi => .inl ?_)
      (.finished none hthere)
    obtain ⟨e, he, htrue⟩ := watched i hi
    exact ⟨e, by rwa [heffects], htrue⟩
  have hquiet : (v.setPhase t (.finished none)).scene.requests = [] := by
    rw [scene_setPhase, State.scene, host_complete]
    exact quiet
  rw [finish_eq ht]
  exact moves_idle (htidy.turned .idle _) idle rfl hquiet
    ((frugal_complete s p o).trans ((frugal_setPhase htask fun _ h => by cases h).trans
      (.of_tasks rfl rfl rfl)))

end

/-- A task gets the outcome of its item. -/
theorem moves_answer (hs : Tidy K context es top [] (some (t, .answer)) s)
    (idle : s.control = .idle) (quiet : s.scene.requests = []) (due : Due es top s t .answer o) :
    Moves K context es top s (finish s t none o) := by
  cases due with
  | expected _ p x task wants there =>
    cases wants with
    | answer expects =>
      exact moves_finish hs idle quiet task (fun i hi => by cases hi) expects rfl there

/-- A failure completes an effect that nothing else has claimed, and the watcher ends. -/
theorem moves_fail (hs : Tidy K context es top [] (some (t, .watch i)) s)
    (idle : s.control = .idle) (quiet : s.scene.requests = [])
    (task : s.tasks[t]? = some ⟨.running, p⟩) (minds : es[p]? = some ⟨.ok .null, none⟩) {e : Exn}
    {pending : PendingEffect} (pends : s.effects[i]? = some pending)
    (unclaimed : pending.claimed = false)
    (expects : es[pending.promise]? = some ⟨.error e, none⟩) :
    Moves K context es top s
      (finish ((s.claim i).2.complete pending.promise (.error e)) t none (.ok .null)) := by
  have hmade : pending.promise < s.promises.length := by
    rw [← hs.length]
    exact (List.getElem?_eq_some_iff.1 expects).1
  let v := s.complete pending.promise (.error e)
  have hpends : v.effects[i]? = some pending := by
    rw [effects_complete]
    exact pends
  have htidy : Tidy K context es top [] (some (t, .watch i)) (v.claim i).2 := by
    refine (hs.complete expects rfl fun n hn => by cases hn).claim fun e' he' _ => ?_
    rw [hpends] at he'
    cases he'
    exact .inr (.inl (outcome_complete_ne_none hmade _))
  have htask : (v.claim i).2.tasks[t]? = some ⟨.running, p⟩ := by
    rw [State.claim_of_unclaimed hpends unclaimed]
    show v.tasks[t]? = _
    rw [tasks_complete]
    exact task
  have hidle : (v.claim i).2.control = .idle := by
    rw [State.claim_of_unclaimed hpends unclaimed]
    exact (control_complete ..).trans idle
  have hquiet : (v.claim i).2.scene.requests = [] := by
    rw [State.scene, host_claim, host_complete]
    exact quiet
  rw [claim_complete]
  refine (moves_finish htidy hidle hquiet htask (fun k hk => ?_) minds rfl fun n hn => by
    cases hn).before ((frugal_complete s _ _).trans (frugal_claim v i))
      (fun w => by rw [idle]; rfl) hidle
  cases hk
  rw [State.claim_of_unclaimed hpends unclaimed]
  exact ⟨_, List.getElem?_set_self (List.getElem?_eq_some_iff.1 hpends).1, rfl⟩

/-- **What a callback-style function returned has ended.**  A failure completes the effect, if
nothing else has claimed it. -/
theorem moves_watch (hs : Tidy K context es top [] (some (t, .watch i)) s)
    (idle : s.control = .idle) (quiet : s.scene.requests = [])
    (due : Due es top s t (.watch i) o) : Moves K context es top s (finishWatch s t i o) := by
  cases due with
  | expected _ p x task wants there => cases wants
  | watched _ p task minds claimed =>
    exact moves_finish hs idle quiet task (fun k hk => by cases hk; exact claimed) minds rfl
      fun n hn => by cases hn
  | failed _ p e task minds intends =>
    obtain ⟨reportable, pending, heffect, expects⟩ := intends
    simp only [finishWatch, if_pos (reportable e rfl).1, heffect]
    cases hclaimed : pending.claimed with
    | true =>
      have hclaim : s.claim i = (false, s) := State.claim_of_claimed fun e' he' => by
        rw [heffect] at he'
        cases he'
        exact hclaimed
      rw [hclaim, if_neg (by simp)]
      have hnoted : Tidy K context es top [] (some (t, .watch i))
          (s.note (.ignoring e pending.descriptor)) := hs.turned s.control _
      refine (moves_finish hnoted idle quiet task (fun k hk => ?_) minds rfl fun n hn => by
        cases hn).before (.of_tasks rfl rfl rfl) (fun w => by rw [idle]; rfl) idle
      cases hk
      exact ⟨pending, heffect, hclaimed⟩
    | false =>
      have hfirst : (s.claim i).1 = true := by rw [State.claim_of_unclaimed heffect hclaimed]
      rw [if_pos hfirst]
      exact moves_fail hs idle quiet task minds heffect hclaimed expects

/-! ## Performing an effect -/

/-- What a task is left with after it has performed an effect, when less is to begin then. -/
theorem Served.spends {d : Descriptor} (h : Served K context es' top t goal m u) (more : es <+: es')
    (performs : s.control = .perform t goal d)
    (size : m.load Plan.size < s.load Plan.size + (Plan.ofDescriptor d).size)
    (minted : m.host.2.minted + m.load (Plan.mints K context) = s.host.2.minted +
      (s.load (Plan.mints K context) + (Plan.ofDescriptor d).mints K context))
    (groups : ∀ es'', es' <+: es'' → u.groups.length = m.groups.length →
      u.groups.length = s.groups.length ∨ Assembled K context es'' s u) :
    Moves K context es top s u ∧ u.debt Plan.size < s.debt Plan.size := by
  obtain ⟨es'', more', tidy, aims, quiet, frugal, hload⟩ := h.outlook
  have hs : ∀ w, s.debt w = s.load w + w (Plan.ofDescriptor d) := fun w => by
    rw [State.debt, performs]
    rfl
  have hu : ∀ w, u.debt w = m.load w := fun w => by
    rw [State.debt, hload, frugal.load, Nat.add_zero]
  rw [← hs] at size
  rw [← hs] at minted
  rw [← hu] at size minted
  refine ⟨.mk es'' (more.trans more') tidy aims quiet ⟨Nat.le_of_lt size, ?_⟩
    (groups es'' more' frugal.groups), size⟩
  rw [frugal.minted]
  exact minted

/-- What is expected of a group that is made. -/
theorem assembles_of_staffed {d : Descriptor} {n : Nat} (length : es.length = s.promises.length)
    (mode : d.mode = .parallel) (modest : (Plan.ofDescriptor d).Modest K context) :
    Assembles K context
      (es ++ (Plan.ofDescriptor d).expects K context n :: memberExpects K context n d)
      d.args n (Place.next s d.args.length) where
  modest := by rwa [Plan.ofDescriptor_of_parallel mode] at modest
  whole := by
    show (es ++ _)[s.promises.length]? = _
    rw [← length, List.getElem?_append_right (Nat.le_refl _), Nat.sub_self,
      Plan.ofDescriptor_of_parallel mode]
    rfl
  parts i item hi := by
    show (es ++ _)[s.promises.length + 1 + i]? = _
    rw [← length, Nat.add_assoc, List.getElem?_append_right (Nat.le_add_right ..),
      Nat.add_sub_cancel_left, Nat.add_comm 1 i, List.getElem?_cons_succ]
    simp [memberExpects, hi]

section

variable {d : Descriptor} {n : Nat} (hs : Tidy K context es top [] (some (t, goal)) s)
  (performs : s.control = .perform t goal d) (quiet : s.scene.requests = [])
  (task : s.tasks[t]? = some ⟨.running, p⟩) (made : p < es.length)
  (wants : Wants es top t p goal ((Plan.ofDescriptor d).expects K context n))
  (modest : (Plan.ofDescriptor d).Modest K context)

include hs performs quiet task made wants modest

variable (C M) in
/-- **A group is performed.**  The effect itself is no longer to begin, but each of its members
is. -/
theorem moves_perform_group (mode : d.mode = .parallel)
    (recent : 0 < (Plan.ofDescriptor d).mints K context → n = s.host.2.items) :
    let u := perform (C.host (K.world M)) context s.toIdle t goal d
    Moves K context es top s u ∧ u.debt Plan.size < s.debt Plan.size := by
  intro u
  have hidle : Tidy K context es top [] (some (t, goal)) s.toIdle := hs.turned .idle s.notes
  have hgroup := Plan.ofDescriptor_of_parallel mode
  have hsize : (Plan.ofDescriptor d).size =
      ((d.args.map Plan.ofValue).map Plan.size).sum + 1 := by
    rw [hgroup, Plan.size_group]
  have hmints : (Plan.ofDescriptor d).mints K context =
      ((d.args.map Plan.ofValue).map (Plan.mints K context)).sum := by
    rw [hgroup, Plan.mints_group]
  by_cases empty : d.args = []
  · refine (served_empty C M hidle task quiet mode wants empty).spends (List.prefix_refl _)
      performs ?_ ?_ fun _ _ h => .inl h
    · rw [hsize]
      exact Nat.lt_add_of_pos_right (Nat.succ_pos _)
    · rw [hmints, empty]
      rfl
  · have hload : ∀ w, State.load w (s.toIdle.staffed (d.args.map .perform)) =
        s.load w + ((d.args.map Plan.ofValue).map w).sum := load_staffed s.toIdle d.args
    refine (served_group C M hidle task made quiet mode wants empty modest recent).spends
      (List.prefix_append ..) performs ?_ ?_ fun es'' more h => .inr ?_
    · rw [hload, hsize]
      omega
    · rw [hload, hmints]
      rfl
    · refine ⟨t, goal, d, n, performs, mode, empty,
        (assembles_of_staffed hs.length mode modest).more more, ?_⟩
      rw [h]
      exact List.length_append

variable (C M) in
/-- **An effect that is none of a group is performed.**  It has begun, and it is the first to
make an exception if it makes one. -/
theorem moves_perform_single (mode : d.mode ≠ .parallel)
    (first : 0 < (Plan.ofDescriptor d).mints K context →
      n = s.host.2.items ∧ s.host.2.minted = 0) :
    let u := perform (C.host (K.world M)) context s.toIdle t goal d
    Moves K context es top s u ∧ u.debt Plan.size < s.debt Plan.size := by
  intro u
  have hidle : Tidy K context es top [] (some (t, goal)) s.toIdle := hs.turned .idle s.notes
  have hsingle := Plan.ofDescriptor_of_single mode
  have hregular := modest.regular
  rw [hsingle] at first wants hregular
  obtain ⟨m, hserved, hload, hgroups, hminted⟩ :=
    served_single C M hidle task made quiet mode hregular first wants
  have hload : ∀ w, m.load w = s.load w := hload
  have hmints : (Plan.single d).mints K context = K.mints context d := rfl
  have hminted : m.host.2.minted = s.host.2.minted + K.mints context d := hminted
  refine hserved.spends (List.prefix_refl _) performs ?_ ?_
    fun _ _ h => .inl (h.trans (congrArg List.length hgroups))
  · rw [hload, hsingle]
    exact Nat.lt_succ_self _
  · rw [hload, hsingle, hmints, hminted]
    omega

end

variable (C M) in
/-- **An effect is performed.** -/
theorem moves_perform {d : Descriptor} (hs : Tidy K context es top [] (some (t, goal)) s)
    (performs : s.control = .perform t goal d) (quiet : s.scene.requests = [])
    (sound : Sound s) (single : s.host.2.minted + s.debt (Plan.mints K context) ≤ 1)
    (aims : Aims K context es top s (.perform t goal d)) :
    let u := perform (C.host (K.world M)) context s.toIdle t goal d
    Moves K context es top s u ∧ u.debt Plan.size < s.debt Plan.size := by
  intro u
  cases aims with
  | perform _ _ _ p n task wants modest recent =>
  have hmade : p < es.length := by
    rw [hs.length]
    refine sound.owed p ?_
    simp only [State.owed, List.mem_append, List.mem_map]
    exact .inl (.inl (.inl (.inl ⟨_, List.mem_of_getElem? task, rfl⟩)))
  by_cases mode : d.mode = .parallel
  · exact moves_perform_group C M hs performs quiet task hmade wants modest mode recent
  · refine moves_perform_single C M hs performs quiet task hmade wants modest mode fun hpos =>
      ⟨recent hpos, ?_⟩
    rw [State.debt, performs] at single
    have hcontrol : (Control.perform t goal d).load (Plan.mints K context) =
        (Plan.ofDescriptor d).mints K context := rfl
    omega

/-! ## Jobs of the queue -/

/-- A change of what is in the queue and of what nothing depends on. -/
theorem Tidy.requeue {hand hand' : List Job} (hs : Tidy K context es top hand none s)
    (host : u.host = s.host) (run : u.run = s.run) (tasks : u.tasks = s.tasks)
    (promises : u.promises = s.promises) (effects : u.effects = s.effects)
    (groups : u.groups = s.groups) (futures : u.futures = s.futures)
    (queued : ∀ j, Queued hand' u j ↔ Queued hand s j) : Tidy K context es top hand' none u := by
  have h : Lasts es hand none s es hand' none u :=
    .of_kept (List.prefix_refl _) (fun j hj => (queued j).2 hj) run host
      (by rw [groups]; exact List.Subset.refl _) (fun i e he => by rwa [effects])
      (fun _ _ h => opened_same promises h) (fun q _ => by rw [State.outcome?, promises]; rfl)
      fun _ _ h => .inl (h.of_tasks fun _ _ h => by rwa [tasks])
  have hscene : u.scene = s.scene := by rw [State.scene, host]
  refine hs.next_of_promises h promises (fun j hj => .inl ((queued j).1 hj))
    (fun t phase p ht => .inl ⟨by rwa [← tasks], .inr rfl⟩) ?_ ?_ ?_
  · rw [hscene]
    exact fun r hr => .inl hr
  · rw [hscene]
    exact fun r hr => .inl hr
  · rw [hscene, futures]
    exact hs.futures

/-- A job is taken off the queue. -/
theorem Tidy.take (hs : Tidy K context es top [] none s) {j : Job} {rest : List Job}
    (ready : s.ready = j :: rest) (n : Nat) :
    Tidy K context es top [j] none { s with ready := rest, batch := n } := by
  refine hs.requeue rfl rfl rfl rfl rfl rfl rfl fun k => ?_
  simp only [Queued, ready, List.mem_cons, List.not_mem_nil, false_or, or_false]
  rw [or_assoc]

/-! ## What is known of a loop -/

/-- **What is known of a loop in which functions have one outcome each.** -/
structure Firm (C : Programs P) (M : Manner S) (K : Callables) (context : Value)
    (es : List Expected) (top : Expected) (s : Loop P S) : Prop where
  arises : Arises (C.host (K.world M)) context s
  tidy : Tidy K context es top [] s.control.busy? s
  aims : Aims K context es top s s.control
  quiet : s.scene.requests = []
  groups : ∀ i < s.groups.length, Convened (C.host (K.world M)) K context es s i

/-- **What is known of a loop while an item is performed**, of which it is known what is expected
and so whether the library makes an exception. -/
structure Sure (C : Programs P) (M : Manner S) (K : Callables) (context : Value)
    (es : List Expected) (top : Expected) (s : Loop P S) : Prop
    extends Firm C M K context es top s where
  account : s.host.2.minted + s.debt (Plan.mints K context) = top.minted.isSome.toNat

theorem Sure.single (hs : Sure C M K context es top s) :
    s.host.2.minted + s.debt (Plan.mints K context) ≤ 1 :=
  hs.account ▸ Bool.toNat_le _

/-- The driver has not been told of the outcome of the item. -/
def Control.isInside : Control → Bool
  | .outcome _ (.drive ..) _ => false
  | .deliver .. => false
  | _ => true

theorem Arises.sound {σ : Type} {H : Host σ} {s : State σ} (h : Arises H context s) : Sound s := by
  obtain ⟨host, number, earlier, errand, hreached⟩ := h
  exact sound_of_reaches hreached

/-- **One step of a loop while an item is performed.** -/
theorem Sure.moves (hs : Sure C M K context es top s) (inside : s.control.isInside = true)
    (hstep : step (C.host (K.world M)) context s = .next u) : Moves K context es top s u := by
  have hsingle := hs.single
  obtain ⟨⟨harises, htidy, haims, hquiet, hgroups⟩, -⟩ := hs
  cases hc : s.control with
  | idle =>
    rw [hc] at htidy
    have hload : ∀ w, s.control.load w = 0 := fun w => by rw [hc]; rfl
    rcases step_idle_cases hc hstep with ⟨n, j, rest, hb, hr, rfl⟩ | ⟨n, rfl⟩ |
      ⟨timer, later, hr, ht, rfl⟩
    · let taken : Loop P S := { s with ready := rest, batch := n }
      have htaken : Tidy K context es top [j] none taken := htidy.take hr n
      have hidle : taken.control = .idle := hc
      have hquiet' : taken.scene.requests = [] := hquiet
      refine Moves.before (m := taken) ?_ (.of_tasks rfl rfl rfl) hload hc
      cases j with
      | step t => exact moves_step C M hidle hquiet' htaken hsingle
      | notice i m => exact moves_notice hgroups hc hquiet hb hr htaken
      | settle i error value => exact moves_settle C M hidle hquiet' htaken
      | fulfil q o => exact moves_fulfil hidle hquiet' htaken
      | invoke f args => exact moves_invoke C M hidle hquiet' htaken
      | stop => exact moves_stop hidle hquiet' htaken
    · exact moves_idle (htidy.requeue rfl rfl rfl rfl rfl rfl rfl fun _ => .rfl) hc hc hquiet
        (.of_tasks rfl rfl rfl)
    · refine moves_idle (htidy.requeue rfl rfl rfl rfl rfl rfl rfl fun j => ?_) hc hc hquiet
        (.of_tasks rfl rfl rfl)
      simp [Queued, hr, ht, eq_comm]
  | perform t goal d =>
    rw [hc] at htidy haims
    simp only [step, hc] at hstep
    rw [← Transition.next.inj hstep]
    exact (moves_perform C M htidy hc hquiet harises.sound hsingle haims).1
  | outcome t goal o =>
    rw [hc] at htidy haims inside
    have hload : ∀ w, s.control.load w = 0 := fun w => by rw [hc]; rfl
    have hidle : Tidy K context es top [] (some (t, goal)) s.toIdle := htidy.turned .idle s.notes
    cases haims with
    | outcome _ _ _ due =>
    have hdue : Due es top s.toIdle t goal o :=
      due.lasts (lasts_turned .idle s.notes : Lasts es [] none s es [] none s.toIdle) rfl
    refine Moves.before (m := s.toIdle) ?_ (.of_tasks rfl rfl rfl) hload rfl
    simp only [step, hc] at hstep
    cases goal with
    | answer =>
      rw [← Transition.next.inj hstep]
      exact moves_answer hidle rfl hquiet hdue
    | watch i =>
      rw [← Transition.next.inj hstep]
      exact moves_watch hidle rfl hquiet hdue
    | drive j captured => cases inside
  | deliver t j captured signal =>
    rw [hc] at inside
    cases inside

/-- **A step keeps all that is known of the loop.** -/
theorem Sure.next (hs : Sure C M K context es top s) (inside : s.control.isInside = true)
    (hstep : step (C.host (K.world M)) context s = .next u) :
    ∃ es', es <+: es' ∧ Sure C M K context es' top u := by
  obtain ⟨es', more, tidy, aims, quiet, pays, groups⟩ := hs.moves inside hstep
  refine ⟨es', more, ⟨hs.arises.tail hstep, tidy, aims, quiet, fun i hi => ?_⟩,
    pays.minted.trans hs.account⟩
  rcases groups with hlength | ⟨t, goal, d, n, performs, mode, nonempty, assembles, hlength⟩
  · exact (hs.groups i (hlength ▸ hi)).next hstep more
  · by_cases hold : i < s.groups.length
    · exact (hs.groups i hold).next hstep more
    · obtain ⟨host, number, earlier, errand, hreached⟩ := hs.arises
      obtain ⟨v, hv, gathering, -⟩ := gathering_of_perform hreached performs mode nonempty
      rw [hstep] at hv
      obtain rfl := Transition.next.inj hv
      refine .mk s d.args n _ [] 0 ?_ ⟨host, number, earlier, errand, hreached⟩ gathering assembles
      show s.groups.length = i
      omega

end EventLoop
end DescribedEffects
