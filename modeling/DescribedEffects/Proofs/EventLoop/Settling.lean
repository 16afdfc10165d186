import DescribedEffects.Proofs.EventLoop.Members

/-!
# The stages of a completion

A callback-style effect has a flag, a promise, and perhaps a job that will complete the
promise; whoever waits for the effect looks at the promise alone, and whoever reports it looks
at the flag alone.  The three are changed at different moments: the flag when somebody reports
the effect or its function fails, the promise when the job has its turn, or at once when the
awaitable of the function fails.  `CompletionStage` is what the three come to together, and
there are four such ways; a report that comes late changes none of them (`claim_of_stands`).

`Stands` is the invariant: the effect is in a stage, and the promise is the effect's own, so
that nothing but its own completion touches it.  One step of the loop leaves an effect in its
stage or moves it on as `CompletionStage.Leads` says (`stands_of_step`); an effect that a step
makes begins unclaimed, queued or raised, the last only when the step is the one that lets the
exception out (`opened_of_step`, `Raises`).

An exception that marks the end of a computation is nothing a promise takes.  The job that is to
carry out such a completion does nothing, and leaves the effect as if its function had failed at
once (`refused_of_job`): it is claimed, so nobody else completes it, and nobody will.
-/

namespace DescribedEffects
namespace EventLoop

variable {σ : Type}

/-- How many jobs of the queue carry out a completion of an effect. -/
def State.settlements (s : State σ) (i : Nat) : Nat :=
  s.ready.countP fun j => j.settles? == some i

/-- The promise of an effect takes all that is about to be carried out of it. -/
def State.Accepts (s : State σ) (i : Nat) : Prop :=
  ∀ error value, .settle i error value ∈ s.ready → error.isMark = false

/-- How far the completion of an effect has come. -/
inductive CompletionStage where
  /-- Nobody has reported the effect. -/
  | unclaimed
  /-- The effect has been reported, and a job of the queue carries that out. -/
  | queued
  /-- The outcome is there. -/
  | settled
  /-- Nothing will come of the effect: the function failed before anybody reported it, or the
  promise did not take what was reported. -/
  | raised
deriving DecidableEq

namespace CompletionStage

def isClaimed : CompletionStage → Bool
  | unclaimed => false
  | _ => true

def isComplete : CompletionStage → Bool
  | settled => true
  | _ => false

/-- How many jobs carry out a completion. -/
def jobs : CompletionStage → Nat
  | queued => 1
  | _ => 0

/-- What a report makes of a stage. -/
inductive Reported : CompletionStage → CompletionStage → Prop
  | again (a : CompletionStage) : Reported a a
  | first : Reported unclaimed queued

/-- What a step makes of a stage, if it is known when the promise would refuse the outcome. -/
inductive Leads (refuses : Prop) : CompletionStage → CompletionStage → Prop
  | reported {a b : CompletionStage} (h : Reported a b) : Leads refuses a b
  | settled {a : CompletionStage} (h : a ≠ raised) : Leads refuses a settled
  | refused (h : refuses) : Leads refuses queued raised

theorem Reported.trans {a b c : CompletionStage} (h : Reported a b) (k : Reported b c) :
    Reported a c := by
  cases h with
  | again => exact k
  | first =>
    cases k
    exact .first

theorem Reported.ne_raised {a b : CompletionStage} (h : Reported a b) (ha : a ≠ raised) :
    b ≠ raised := by
  cases h with
  | again => exact ha
  | first => exact CompletionStage.noConfusion

/-- An effect is reported once. -/
theorem Reported.eq {a b : CompletionStage} (h : Reported a b) (ha : a ≠ unclaimed) : b = a := by
  cases h with
  | again => rfl
  | first => exact absurd rfl ha

/-- A stage is known by the three things that it says. -/
theorem eq_of_facts {a b : CompletionStage} (claimed : a.isClaimed = b.isClaimed)
    (complete : a.isComplete = b.isComplete) (jobs : a.jobs = b.jobs) : a = b := by
  cases a <;> cases b <;> simp_all [isClaimed, isComplete, CompletionStage.jobs]

/-- Nothing comes of an effect whose function failed at once. -/
theorem Leads.of_raised {refuses : Prop} {b : CompletionStage} (h : Leads refuses raised b) :
    b = raised := by
  cases h with
  | reported h =>
    cases h
    rfl
  | settled h => exact absurd rfl h

/-- Nothing else comes to that but a completion that is refused. -/
theorem Leads.to_raised {refuses : Prop} {a : CompletionStage} (h : Leads refuses a raised) :
    a = raised ∨ refuses := by
  cases h with
  | reported h =>
    cases h
    exact .inl rfl
  | refused h => exact .inr h

end CompletionStage

/-- An effect is in a stage: whether it has been claimed, whether its outcome is there and how
many jobs carry out a completion agree on it, and nobody else completes its promise. -/
structure Stands (i p : Nat) (d : Descriptor) (st : CompletionStage) (s : State σ) : Prop where
  exclusive : Exclusive (.effect i) p s
  effect : s.effects[i]? = some ⟨d, st.isClaimed, p⟩
  outcome : (s.outcome? p).isSome = st.isComplete
  settlements : s.settlements i = st.jobs

variable {H : Host σ} {context : Value} {t : Nat} {claims completes : Nat → Prop}
  {i p : Nat} {d : Descriptor} {st : CompletionStage} {s u : State σ}

theorem Stands.lt (h : Stands i p d st s) : i < s.effects.length :=
  (List.getElem?_eq_some_iff.1 h.effect).1

/-- Until the outcome is there the promise is open. -/
theorem Stands.opened (h : Stands i p d st s) (hst : st.isComplete = false) :
    s.outcome? p = none := by
  refine Option.not_isSome_iff_eq_none.1 ?_
  rw [h.outcome, hst]
  exact Bool.false_ne_true

theorem Stands.claimed {e : PendingEffect} (h : Stands i p d st s)
    (he : s.effects[i]? = some e) : e.claimed = st.isClaimed :=
  congrArg PendingEffect.claimed (Option.some.inj (he.symm.trans h.effect))

/-- What leaves the effect, the outcome of its promise and its jobs alone leaves it where it
stands. -/
theorem Stands.transfer (h : Stands i p d st s) (handed : Handed s u)
    (effect : u.effects[i]? = s.effects[i]?) (outcome : u.outcome? p = s.outcome? p)
    (settlements : u.settlements i = s.settlements i) : Stands i p d st u where
  exclusive := h.exclusive.handed (by simp) handed
  effect := effect.trans h.effect
  outcome := outcome ▸ h.outcome
  settlements := settlements.trans h.settlements

/-- Jobs of other sorts are queued. -/
theorem settlements_append {jobs : List Job} (h : ∀ j ∈ jobs, j.settles? ≠ some i)
    (hr : u.ready = s.ready ++ jobs) : u.settlements i = s.settlements i := by
  have hnone : jobs.countP (fun j => j.settles? == some i) = 0 :=
    List.countP_eq_zero.2 fun j hj => by simpa using h j hj
  simp [State.settlements, hr, List.countP_append, hnone]

theorem settlements_of_patient {jobs : List Job} (h : ∀ j ∈ jobs, j.isPatient = true)
    (hr : u.ready = s.ready ++ jobs) : u.settlements i = s.settlements i :=
  settlements_append (fun j hj => by simp [settles?_of_isPatient (h j hj)]) hr

/-- The turn of a task carries out nothing. -/
theorem settlements_of_turn {k : Nat} (hr : u.ready = s.ready ++ [.step k]) :
    u.settlements i = s.settlements i :=
  settlements_of_patient (by simp [Job.isPatient]) hr

/-- **A request moves an effect on if it is the first report of it.** -/
theorem stands_of_granting (h : Granting claims s u) (hs : Stands i p d st s) :
    ∃ st', st.Reported st' ∧ Stands i p d st' u := by
  have handed := handed_of_granting h
  cases h with
  | @reported k x may hk unclaimed error value =>
    by_cases hki : k = i
    · subst hki
      obtain rfl := Option.some.inj (hk.symm.trans hs.effect)
      cases st <;> try cases unclaimed
      refine ⟨.queued, .first, hs.exclusive.handed (by simp) handed,
        List.getElem?_set_self hs.lt, hs.outcome, ?_⟩
      have hnone : s.ready.countP (fun j => j.settles? == some k) = 0 := hs.settlements
      have hone : [Job.settle k error value].countP (fun j => j.settles? == some k) = 1 := by
        simp [Job.settles?]
      show (s.ready ++ [Job.settle k error value]).countP _ = 1
      rw [List.countP_append, hnone, hone]
    · exact ⟨st, .again st, hs.transfer handed (List.getElem?_set_ne hki) rfl
        (settlements_append (by simpa [Job.settles?] using hki) rfl)⟩
  | future id o =>
    exact ⟨st, .again st, hs.transfer handed rfl (outcome_concat_eq rfl hs.exclusive.made) rfl⟩
  | _ => exact ⟨st, .again st, hs.transfer handed rfl rfl rfl⟩

/-- **What is done about other effects and other promises** at most reports an effect. -/
theorem stands_of_change (h : Change H t claims completes s u) (sound : Sound s)
    (hi : ¬ claims i) (hp : ¬ completes p) (hs : Stands i p d st s) :
    ∃ st', st.Reported st' ∧ Stands i p d st' u := by
  have handed := handed_of_change h sound
  have same : ∀ {v : State σ}, Handed s v → v.effects[i]? = s.effects[i]? →
      v.outcome? p = s.outcome? p → v.settlements i = s.settlements i →
      ∃ st', st.Reported st' ∧ Stands i p d st' v :=
    fun hv he ho hj => ⟨st, .again st, hs.transfer hv he ho hj⟩
  cases h with
  | granted =>
    refine kept_of_granting (P := fun v => ∃ st', st.Reported st' ∧ Stands i p d st' v)
      (fun hg hv => ?_) (granting_grantAll H s) ⟨st, .again st, hs⟩
    obtain ⟨b, hb, hvb⟩ := hv
    obtain ⟨c, hc, hvc⟩ := stands_of_granting hg hvb
    exact ⟨c, hb.trans hc, hvc⟩
  | moved phase =>
    rw [State.setPhase_frame] at handed ⊢
    exact same handed rfl rfl rfl
  | queued =>
    exact same handed rfl rfl (settlements_of_turn rfl)
  | promised o => exact same handed rfl (outcome_concat_eq rfl hs.exclusive.made) rfl
  | @subscribed q j hj _ =>
    have houtcome := outcome_subscribe s q j p
    rw [State.subscribe_frame] at handed houtcome ⊢
    exact same handed rfl houtcome rfl
  | tasked errand =>
    exact same handed rfl (outcome_concat_eq rfl hs.exclusive.made) (settlements_of_turn rfl)
  | grouped n => exact same handed rfl (outcome_concat_eq rfl hs.exclusive.made) rfl
  | opened e =>
    exact same handed (List.getElem?_append_left hs.lt)
      (outcome_concat_eq rfl hs.exclusive.made) rfl
  | @claimed k hk =>
    have hki : k ≠ i := fun h => hi (h ▸ hk)
    rcases s.claim_cases k with ⟨_, -, -, hu⟩ | hu <;> rw [hu] at handed ⊢
    · exact same handed (List.getElem?_set_ne hki) rfl rfl
    · exact same handed rfl rfl rfl
  | @completed q hq o =>
    have hqp : q ≠ p := fun h => hp (h ▸ hq)
    have houtcome := outcome_complete_of_ne (s := s) hqp o
    rcases s.complete_cases q o with ⟨waiters, hw, hu⟩ | hu <;> rw [hu] at handed houtcome ⊢
    · exact same handed rfl houtcome
        (settlements_of_patient (sound.waiters _ (List.mem_of_getElem? hw)) rfl)
    · exact same handed rfl rfl rfl
  | _ => exact same handed rfl rfl rfl

theorem stands_of_changes (h : Changes H t claims completes s u) (sound : Sound s)
    (hi : ¬ claims i) (hp : ¬ completes p) (hs : Stands i p d st s) :
    ∃ st', st.Reported st' ∧ Stands i p d st' u := by
  have hboth : Sound u ∧ ∃ st', st.Reported st' ∧ Stands i p d st' u := by
    refine h.kept (P := fun v => Sound v ∧ ∃ st', st.Reported st' ∧ Stands i p d st' v)
      (fun hc hv => ?_) ⟨sound, st, .again st, hs⟩
    obtain ⟨hsound, b, hb, hvb⟩ := hv
    obtain ⟨c, hcb, hvc⟩ := stands_of_change hc hsound hi hp hvb
    exact ⟨sound_of_change hc hsound, c, hb.trans hcb, hvc⟩
  exact hboth.2

/-! ## Completions that are carried out -/

/-- Completing the open promise of an effect that has been claimed settles it. -/
theorem stands_of_complete (sound : Sound s) (hs : Exclusive (.effect i) p s)
    (effect : s.effects[i]? = some ⟨d, true, p⟩) (outcome : s.outcome? p = none)
    (settlements : s.settlements i = 0) (o : Outcome) : Stands i p d .settled (s.complete p o) where
  exclusive := hs.handed (by simp) (handed_of_complete sound p o)
  effect := by rwa [effects_complete]
  outcome := by rw [outcome_complete_self hs.made outcome]; rfl
  settlements := by
    rcases s.complete_cases p o with ⟨waiters, hw, hu⟩ | hu <;> rw [hu]
    · exact (settlements_of_patient (sound.waiters _ (List.mem_of_getElem? hw)) rfl).trans
        settlements
    · exact settlements

/-- A job of another sort is taken off the queue. -/
theorem settlements_of_pop {j : Job} {rest : List Job} (hr : s.ready = j :: rest)
    (hj : j.settles? ≠ some i) (n : Nat) :
    State.settlements { s with ready := rest, batch := n } i = s.settlements i := by
  simp [State.settlements, hr, hj]

theorem stands_of_pop {j : Job} {rest : List Job} (hs : Stands i p d st s)
    (hr : s.ready = j :: rest) (hj : j.settles? ≠ some i) (n : Nat) :
    Stands i p d st { s with ready := rest, batch := n } :=
  hs.transfer (handed_of_pop hr n) rfl rfl (settlements_of_pop hr hj n)

/-- The effect of a job that carries out a completion is claimed, and there is no other such
job. -/
theorem queued_of_job {rest : List Job} {error value : Value} (hs : Stands i p d st s)
    (hr : s.ready = .settle i error value :: rest) :
    st = .queued ∧ rest.countP (fun j => j.settles? == some i) = 0 := by
  have hcount : s.settlements i = rest.countP (fun j => j.settles? == some i) + 1 := by
    simp [State.settlements, hr, Job.settles?]
  have hjobs := hs.settlements
  rw [hcount] at hjobs
  cases st with
  | queued => exact ⟨rfl, Nat.succ.inj hjobs⟩
  | _ => cases hjobs

/-- **The job that carries out a completion finds the promise open**, and settles the effect. -/
theorem settled_of_job {rest : List Job} {n : Nat} {error value : Value} (sound : Sound s)
    (hs : Stands i p d st s) (taken : error.isMark = false)
    (hr : s.ready = .settle i error value :: rest) :
    Stands i p d .settled
      (runJob H { s with ready := rest, batch := n } (.settle i error value)) := by
  obtain ⟨rfl, hjobs⟩ := queued_of_job hs hr
  obtain ⟨o, host, -, -, heq⟩ :=
    settle_eq (H := H) (s := { s with ready := rest, batch := n }) hs.effect taken value
  simp only [runJob, heq]
  have hsound := sound_of_pop hr sound n
  have handed : Handed s { s with host, ready := rest, batch := n } :=
    (handed_of_pop hr n).trans { Handed.refl _ with hosted := fun _ h => .inl h }
  exact stands_of_complete (s := { s with host, ready := rest, batch := n })
    { hsound with owed := hsound.owed } (hs.exclusive.handed (by simp) handed) hs.effect
    (hs.opened rfl) hjobs o

/-- **The promise does not take an exception that marks the end of a computation**, and nothing
else will come of the effect. -/
theorem refused_of_job {rest : List Job} {n : Nat} {error value : Value}
    (hs : Stands i p d st s) (mark : error.isMark = true)
    (hr : s.ready = .settle i error value :: rest) :
    Stands i p d .raised
      (runJob H { s with ready := rest, batch := n } (.settle i error value)) := by
  obtain ⟨rfl, hjobs⟩ := queued_of_job hs hr
  have hsame : runJob H { s with ready := rest, batch := n } (.settle i error value) =
      { s with ready := rest, batch := n } := settle_of_isMark H _ i mark value
  rw [hsame]
  exact ⟨hs.exclusive.handed (by simp) (handed_of_pop hr n), hs.effect, hs.outcome, hjobs⟩

/-- The end of a task is nothing to an effect. -/
theorem stands_of_finish (H : Host σ) (sound : Sound s) (hs : Stands i p d st s) (k : Nat)
    (report : Option Report) (o : Outcome) :
    ∃ st', st.Reported st' ∧ Stands i p d st' (finish s k report o) := by
  have hfinish : Changes H k (fun _ => False) (· ≠ p) s (finish s k report o) :=
    changes_finish s (task_promise_ne_of_exclusive hs.exclusive (by simp)) report o
  exact stands_of_changes hfinish sound id (by simp) hs

/-- The end of an awaitable that did not fail, or whose effect there is not, is the end of the
task that watched over it and nothing else. -/
theorem finishWatch_eq_finish (k : Nat) {o : Outcome}
    (h : s.effects[i]? = none ∨ ∀ e, o = .error e → ¬ e.isOrdinary = true) :
    ∃ x, finishWatch s k i o = finish s k none x := by
  rcases o with e | v
  · by_cases he : e.isOrdinary = true
    · have hnone := h.resolve_right fun hno => hno e rfl he
      exact ⟨.ok .null, by simp only [finishWatch, if_pos he, hnone]⟩
    · exact ⟨.error e, by simp only [finishWatch, if_neg he]⟩
  · exact ⟨.ok .null, rfl⟩

/-- A claim that comes late changes nothing. -/
theorem claim_of_stands (hs : Stands i p d st s) (hst : st ≠ .unclaimed) :
    s.claim i = (false, s) := by
  have hclaimed : st.isClaimed = true := by cases st <;> first | rfl | exact absurd rfl hst
  exact State.claim_of_claimed fun e he => (hs.claimed he).trans hclaimed

/-- **The failure of an awaitable settles an effect that nobody has reported**, and is nothing
to any other effect. -/
theorem stands_of_watch (H : Host σ) (sound : Sound s) (hs : Stands i p d st s) (k : Nat) {e : Exn}
    (he : e.isOrdinary = true) :
    Stands i p d (if st = .unclaimed then .settled else st) (finishWatch s k i (.error e)) := by
  have heq : finishWatch s k i (.error e) =
      finish (if (s.claim i).1 then (s.claim i).2.complete p (.error e)
        else (s.claim i).2.note (.ignoring e d)) k none (.ok .null) := by
    simp only [finishWatch, he, if_true, hs.effect]
  rw [heq]
  split
  · next hst =>
    subst hst
    have hsound := sound_claim sound i
    have handed := handed_of_claim s i
    rw [State.claim_of_unclaimed hs.effect rfl] at hsound handed ⊢
    have hsettled := stands_of_complete hsound (hs.exclusive.handed (by simp) handed)
      (List.getElem?_set_self hs.lt) (hs.opened rfl) hs.settlements (.error e)
    obtain ⟨b, hb, hstands⟩ :=
      stands_of_finish H (sound_complete hsound p _) hsettled k none (.ok .null)
    obtain rfl := hb.eq (by simp)
    exact hstands
  · next hst =>
    rw [claim_of_stands hs hst]
    have hnoted : Stands i p d st (s.note (.ignoring e d)) :=
      hs.transfer { Handed.refl s with hosted := fun _ h => .inl h } rfl rfl rfl
    have hsound : Sound (s.note (.ignoring e d)) := { sound with owed := sound.owed }
    obtain ⟨b, hb, hstands⟩ := stands_of_finish H hsound hnoted k none (.ok .null)
    obtain rfl := hb.eq hst
    exact hstands

/-! ## Steps -/

/-- Nothing that an effect is made of is different. -/
theorem stands_of_same (hs : Stands i p d st s) (promises : u.promises = s.promises)
    (ready : u.ready = s.ready) (effects : u.effects = s.effects) (handed : Handed s u) :
    Stands i p d st u :=
  hs.transfer handed (by rw [effects]) (by simp only [State.outcome?, promises])
    (by simp only [State.settlements, ready])

/-- What one job makes of an effect. -/
theorem stands_of_runJob {j : Job} {rest : List Job} {n : Nat} (sound : Sound s)
    (hs : Stands i p d st s) (hr : s.ready = j :: rest) :
    ∃ st', st.Leads (¬ s.Accepts i) st' ∧
      Stands i p d st' (runJob H { s with ready := rest, batch := n } j) := by
  by_cases hsettle : j.settles? = some i
  · obtain ⟨error, value, rfl⟩ : ∃ error value, j = .settle i error value := by
      cases j <;> cases hsettle
      exact ⟨_, _, rfl⟩
    obtain ⟨rfl, -⟩ := queued_of_job hs hr
    cases mark : error.isMark with
    | false => exact ⟨.settled, .settled (by simp), settled_of_job sound hs mark hr⟩
    | true =>
      refine ⟨.raised, .refused fun accepts => ?_, refused_of_job hs mark hr⟩
      have htaken := accepts error value (hr ▸ List.mem_cons_self ..)
      exact Bool.noConfusion (htaken.symm.trans mark)
  · have hpop := stands_of_pop hs hr hsettle n
    by_cases hstop : j = .stop
    · subst hstop
      exact ⟨st, .reported (.again st), stands_of_same hpop rfl rfl rfl
        { Handed.refl _ with hosted := fun _ h => .inl h }⟩
    · have haim : ∀ q, State.aim? { s with ready := rest, batch := n } j = some q → q ≠ p :=
        aim_ne_of_exclusive hs.exclusive (hr ▸ List.mem_cons_self ..) fun hw => by
          cases j <;> cases hw
          exact hsettle rfl
      obtain ⟨t, -, hchanges⟩ : ∃ t, True ∧ Changes H t (fun _ => False) (· ≠ p)
          { s with ready := rest, batch := n }
          (runJob H { s with ready := rest, batch := n } j) :=
        exists_changes_runJob _ ⟨0, trivial⟩ (fun _ _ => trivial) hstop haim
      obtain ⟨b, hb, hstands⟩ :=
        stands_of_changes hchanges (sound_of_pop hr sound n) id (by simp) hpop
      exact ⟨b, .reported hb, hstands⟩

theorem Stands.toIdle (hs : Stands i p d st s) : Stands i p d st s.toIdle :=
  stands_of_same hs rfl rfl rfl (handed_toIdle s)

/-- What a step on behalf of a task makes of an effect, if it does not end the watch over the
awaitable of its function. -/
theorem stands_of_task (sound : Sound s) (hs : Stands i p d st s)
    (htask : s.control.task? = some t) (hwatch : ∀ k o, s.control ≠ .outcome k (.watch i) o)
    (h : step H context s = .next u) : ∃ st', st.Reported st' ∧ Stands i p d st' u := by
  have hne : s.effects.length ≠ i := Nat.ne_of_gt hs.lt
  obtain ⟨v, hv, hchanges⟩ : ∃ v, step H context s = .next v ∧
      Changes H t (· ≠ i) (· ≠ p) s.toIdle v := by
    refine step_of_task s htask (fun _ _ _ _ _ _ => hne)
      (task_promise_ne_of_exclusive hs.exclusive (by simp)) fun k o hc => ⟨?_, ?_⟩
    · rintro rfl
      exact hwatch t o hc
    · refine effect_promise_ne_of_exclusive hs.exclusive fun h => ?_
      obtain rfl := Owner.effect.inj h
      exact hwatch t o hc
  obtain rfl : v = u := Transition.next.inj (hv.symm.trans h)
  exact stands_of_changes hchanges sound.toIdle (by simp) (by simp) hs.toIdle

/-- What the end of that watch makes of it. -/
theorem stands_of_watched (sound : Sound s) (hs : Stands i p d st s) {k : Nat} {o : Outcome}
    (hc : s.control = .outcome k (.watch i) o) (h : step H context s = .next u)
    {refuses : Prop} : ∃ st', st.Leads refuses st' ∧ Stands i p d st' u := by
  obtain rfl : finishWatch s.toIdle k i o = u := by
    simp only [step, hc] at h
    exact Transition.next.inj h
  by_cases hfails : ∃ e, o = .error e ∧ e.isOrdinary = true
  · obtain ⟨e, rfl, he⟩ := hfails
    refine ⟨_, ?_, stands_of_watch H sound.toIdle hs.toIdle k he⟩
    split
    · next hst => exact .settled (by simp [hst])
    · exact .reported (.again st)
  · obtain ⟨x, hx⟩ := finishWatch_eq_finish (s := s.toIdle) k
      (.inr fun e he ho => hfails ⟨e, he, ho⟩ : s.effects[i]? = none ∨ _)
    obtain ⟨b, hb, hstands⟩ := stands_of_finish H sound.toIdle hs.toIdle k none x
    exact ⟨b, .reported hb, hx ▸ hstands⟩

/-- **What one step makes of an effect.** -/
theorem stands_of_step (sound : Sound s) (hs : Stands i p d st s)
    (h : step H context s = .next u) :
    ∃ st', st.Leads (¬ s.Accepts i) st' ∧ Stands i p d st' u := by
  cases htask : s.control.task? with
  | none =>
    have hidle : s.control = .idle := Control.eq_idle htask
    rcases step_idle_cases hidle h with
      ⟨n, j, rest, -, hr, rfl⟩ | ⟨n, rfl⟩ | ⟨tm, later, hr, ht, rfl⟩
    · exact stands_of_runJob sound hs hr
    · exact ⟨st, .reported (.again st), stands_of_same hs rfl rfl rfl
        { Handed.refl _ with hosted := fun _ h => .inl h }⟩
    · have hjob : tm.job.settles? = none := sound.timers tm (ht ▸ List.mem_cons_self ..)
      exact ⟨st, .reported (.again st), hs.transfer (handed_of_step sound h) rfl rfl
        (by simp [State.settlements, hr, hjob])⟩
  | some t =>
    by_cases hwatch : ∃ k o, s.control = .outcome k (.watch i) o
    · obtain ⟨k, o, hc⟩ := hwatch
      exact stands_of_watched sound hs hc h
    · obtain ⟨b, hb, hstands⟩ :=
        stands_of_task sound hs htask (fun k o hc => hwatch ⟨k, o, hc⟩) h
      exact ⟨b, .reported hb, hstands⟩

/-! ## Effects that come about -/

/-- The next promise belongs to nobody yet. -/
theorem not_owns_next (sound : Sound s) (w : Owner) : ¬ Owns s w s.promises.length := by
  intro hw
  have howed : ∀ q ∈ s.owed, q ≠ s.promises.length := fun q hq => Nat.ne_of_lt (sound.owed q hq)
  have hmem : ∀ {l : List Nat} {k : Nat}, l[k]? = some s.promises.length →
      s.promises.length ∈ l := List.mem_of_getElem?
  cases w with
  | task t =>
    refine howed _ ?_ rfl
    simp only [State.owed, List.mem_append]
    exact .inl (.inl (.inl (.inl (hmem hw))))
  | group g =>
    refine howed _ ?_ rfl
    simp only [State.owed, List.mem_append]
    exact .inl (.inl (.inl (.inr (hmem hw))))
  | effect i =>
    obtain ⟨e, he, hp⟩ := List.mem_map.1 (hmem hw)
    exact Nat.ne_of_lt (sound.effects e he) hp
  | host =>
    refine howed _ ?_ rfl
    simp only [Owns, State.hosted, List.mem_append] at hw
    simp only [State.owed, List.mem_append]
    grind

/-- An effect that has just come about has not been reported. -/
theorem stands_of_open (sound : Sound s) (d : Descriptor) :
    Stands s.effects.length s.promises.length d .unclaimed
      { s.newPromise.2 with effects := s.effects ++ [⟨d, false, s.promises.length⟩] } where
  exclusive := by
    refine ⟨by simp [State.newPromise], by simp [Owns], fun w hw => ?_⟩
    cases w with
    | effect j =>
      have hw : ((s.effects ++ [(⟨d, false, s.promises.length⟩ : PendingEffect)]).map
          PendingEffect.promise)[j]? = some s.promises.length := hw
      rw [List.map_append] at hw
      rcases getElem?_concat_cases hw with hw | ⟨hj, -⟩
      · exact absurd hw (not_owns_next sound (.effect j))
      · simpa using hj
    | task t => exact absurd hw (not_owns_next sound (.task t))
    | group g => exact absurd hw (not_owns_next sound (.group g))
    | host => exact absurd hw (not_owns_next sound .host)
  effect := List.getElem?_concat_length
  outcome := by simp [State.outcome?, State.newPromise, CompletionStage.isComplete]
  settlements := by
    refine List.countP_eq_zero.2 fun j hj => ?_
    have hlt := sound.settles j hj s.effects.length
    simpa using hlt

/-- Effects that have come about since some moment have not failed at once. -/
def Fresh (n : Nat) (s : State σ) : Prop :=
  ∀ i e, n ≤ i → s.effects[i]? = some e →
    ∃ st, st ≠ .raised ∧ Stands i e.promise e.descriptor st s

/-- The effects that were there keep their promises. -/
theorem Stands.eq {e : PendingEffect} (hs : Stands i p d st s) (he : s.effects[i]? = some e) :
    e.promise = p ∧ e.descriptor = d := by
  obtain rfl := Option.some.inj (he.symm.trans hs.effect)
  exact ⟨rfl, rfl⟩

@[simp] theorem length_effects_claim (s : State σ) (k : Nat) :
    (s.claim k).2.effects.length = s.effects.length := by
  rcases s.claim_cases k with ⟨_, -, -, hu⟩ | hu <;> rw [hu]
  exact List.length_set

/-- A change makes no effect, or one. -/
theorem effects_of_change (h : Change H t claims completes s u) :
    u.effects.length = s.effects.length ∨ ∃ d, u =
      { s.newPromise.2 with effects := s.effects ++ [⟨d, false, s.promises.length⟩] } := by
  cases h with
  | granted =>
    refine .inl (kept_of_granting (P := fun v => v.effects.length = s.effects.length)
      (fun h hv => ?_) (granting_grantAll H s) rfl)
    cases h with
    | reported may hk unclaimed error value => exact List.length_set.trans hv
    | _ => exact hv
  | moved phase => exact .inl (by rw [State.setPhase_frame])
  | subscribed q hj _ => exact .inl (by rw [State.subscribe_frame])
  | opened d => exact .inr ⟨d, rfl⟩
  | claimed hk => exact .inl (length_effects_claim s _)
  | completed hq o => exact .inl (congrArg List.length (effects_complete s _ o))
  | _ => exact .inl rfl

/-- An effect that comes about is fresh, and what is done about earlier effects and promises
leaves it so. -/
theorem fresh_of_change {n m : Nat} (h : Change H t (· < n) (· < m) s u) (sound : Sound s)
    (hm : ∀ i e, n ≤ i → s.effects[i]? = some e → m ≤ e.promise) (hs : Fresh n s) :
    Fresh n u := by
  intro i e hi he
  cases hold : s.effects[i]? with
  | some x =>
    obtain ⟨st, hst, hstands⟩ := hs i x hi hold
    obtain ⟨b, hb, hu⟩ := stands_of_change h sound (Nat.not_lt.2 hi)
      (Nat.not_lt.2 (hm i x hi hold)) hstands
    obtain ⟨hp, hd⟩ := hu.eq he
    exact ⟨b, hb.ne_raised hst, hp ▸ hd ▸ hu⟩
  | none =>
    have hle : s.effects.length ≤ i := List.getElem?_eq_none_iff.1 hold
    have hlt : i < u.effects.length := (List.getElem?_eq_some_iff.1 he).1
    rcases effects_of_change h with hlength | ⟨d, rfl⟩
    · exact absurd (hlength ▸ hlt) (Nat.not_lt.2 hle)
    · obtain rfl : i = s.effects.length := by
        simp only [List.length_append, List.length_singleton] at hlt
        omega
      have hopen := stands_of_open sound d
      obtain ⟨hp, hd⟩ := hopen.eq he
      rw [hp, hd]
      exact ⟨.unclaimed, by simp, hopen⟩

/-- Effects that come about while changes are made for something else have not failed at
once. -/
theorem fresh_of_changes (h : Changes H t (· < s.effects.length) (· < s.promises.length) s u)
    (sound : Sound s) : Fresh s.effects.length u := by
  have hall : Sound u ∧ Handed s u ∧ Fresh s.effects.length u := by
    refine h.kept (P := fun v => Sound v ∧ Handed s v ∧ Fresh s.effects.length v)
      (fun hc hv => ?_) ⟨sound, .refl s, fun i e hi he => ?_⟩
    · obtain ⟨hsound, handed, hfresh⟩ := hv
      refine ⟨sound_of_change hc hsound, handed.trans (handed_of_change hc hsound),
        fresh_of_change hc hsound (fun i e hi he => ?_) hfresh⟩
      -- An earlier promise would have been the effect's from the beginning.
      by_contra hlt
      have howns : Owns s (.effect i) e.promise :=
        handed.old (Nat.not_le.1 hlt) (by simp [Owns, he])
      have hlt : i < (s.effects.map PendingEffect.promise).length :=
        (List.getElem?_eq_some_iff.1 howns).1
      rw [List.length_map] at hlt
      exact absurd hlt (Nat.not_lt.2 hi)
    · exact absurd (List.getElem?_eq_some_iff.1 he).1 (Nat.not_lt.2 hi)
  exact hall.2.2

/-- The step calls the function of an effect, and the function fails before anybody has
reported the effect: the exception leaves the effect. -/
inductive Raises (H : Host σ) (context : Value) (i : Nat) (s u : State σ) : Prop
  | intro {t : Nat} {goal : Goal} {d : Descriptor} {f : Value} {e x : Exn}
      (performs : s.control = .perform t goal d) (calls : CallsBack context d f)
      (next : i = s.effects.length)
      (fails : (H.call f (d.args ++ [.done s.run i]) s.host).1 = .error e)
      (ordinary : e.isOrdinary = true) (leaves : u.control = .outcome t goal (.error x))
      (same : e.isExhausted = false → x = e)

/-- A claim that nobody carries out. -/
theorem stands_of_claim (hs : Stands i p d .unclaimed s) :
    (s.claim i).1 = true ∧ Stands i p d .raised (s.claim i).2 := by
  have handed := handed_of_claim s i
  rw [State.claim_of_unclaimed hs.effect rfl] at handed ⊢
  exact ⟨rfl, hs.exclusive.handed (by simp) handed, List.getElem?_set_self hs.lt, hs.outcome,
    hs.settlements⟩

/-- The function of an effect returned, or it failed and that came too late to count. -/
theorem changes_late_acceptCallback {goal : Goal} {o : Outcome} (hs : Stands i p d st s)
    (h : ∀ e, o = .error e → e.isOrdinary = true → st ≠ .unclaimed) :
    Changes H t claims completes s (acceptCallback H s t goal i p d o) := by
  have hwaits : Awaitable s p := .effect (List.mem_map_of_mem (List.mem_of_getElem? hs.effect))
  unfold acceptCallback
  split
  · next e =>
    split
    · next he =>
      rw [claim_of_stands hs (h e rfl he)]
      exact (Change.changes (.noted s _)).trans
        (changes_block _ goal (hwaits.transfer rfl rfl fun _ hx => hx))
    · exact changes_arrive s goal _
  · split
    · exact (Change.changes (.tasked s _)).trans
        (changes_block _ goal (hwaits.transfer rfl rfl fun _ hx => hx))
    · exact changes_block s goal hwaits

theorem control_arriveShielded (s : State σ) (t : Nat) (goal : Goal) (sentence : String)
    (e : Exn) : (arriveShielded H s t goal sentence e).control =
      .outcome t goal (.error (H.shield sentence e s.host).1) := rfl

/-- **The function of an effect fails before anybody has reported it.**  The effect is claimed
and left, and the others remain as they were. -/
theorem opened_of_raise {n : Nat} {goal : Goal} {sentence : String} {e : Exn} (sound : Sound s)
    (hs : Stands n p d .unclaimed s) (hfresh : Fresh n s) :
    ∀ i x, n ≤ i → (arriveShielded H (s.claim n).2 t goal sentence e).effects[i]? = some x →
      ∃ st, (st = .raised → i = n) ∧
        Stands i x.promise x.descriptor st (arriveShielded H (s.claim n).2 t goal sentence e) := by
  intro i x hi hx
  have hshield : Changes H t (fun _ => False) (fun _ => False) (s.claim n).2
      (arriveShielded H (s.claim n).2 t goal sentence e) :=
    changes_arriveShielded _ goal sentence e
  have hsound := sound_claim sound n
  by_cases hin : i = n
  · subst hin
    obtain ⟨b, hb, hstands⟩ :=
      stands_of_changes hshield hsound id id (stands_of_claim hs).2
    obtain ⟨hp, hd⟩ := hstands.eq hx
    exact ⟨b, fun _ => rfl, hp ▸ hd ▸ hstands⟩
  · have hlt : i < s.effects.length := by
      rw [← length_effects_claim s n]
      exact (List.getElem?_eq_some_iff.1 hx).1
    obtain ⟨st, hst, hstands⟩ := hfresh i _ hi (List.getElem?_eq_getElem hlt)
    have hclaim : Change H t (· = n) (fun _ => False) s (s.claim n).2 := .claimed s rfl
    obtain ⟨b, hb, hb'⟩ := stands_of_change hclaim sound hin id hstands
    obtain ⟨c, hc, hc'⟩ := stands_of_changes hshield hsound id id hb'
    obtain ⟨hp, hd⟩ := hc'.eq hx
    exact ⟨c, fun h => absurd h ((hb.trans hc).ne_raised hst), hp ▸ hd ▸ hc'⟩

/-- What the effects that a callback-style call brings about begin with. -/
theorem opened_of_performCallback {goal : Goal} {f : Value} {v : State σ} (sound : Sound v)
    (performs : s.control = .perform t goal d) (calls : CallsBack context d f)
    (host : v.host = s.host) (run : v.run = s.run) (effects : v.effects = s.effects)
    (h : performCallback H v t goal f d = u) :
    ∀ i e, s.effects.length ≤ i → u.effects[i]? = some e →
      ∃ st, Stands i e.promise e.descriptor st u ∧ (st = .raised → Raises H context i s u) := by
  let opened : State σ :=
    { v.newPromise.2 with effects := v.effects ++ [⟨d, false, v.promises.length⟩] }
  let answer := H.call f (d.args ++ [.done v.run v.effects.length]) v.host
  let called := grantAll H { opened with host := answer.2 }
  have hu : acceptCallback H called t goal v.effects.length v.promises.length d answer.1 = u := h
  have hopen : Change H t (· < v.effects.length) (· < v.promises.length) v opened := .opened v d
  have hcalled : Changes H t (· < v.effects.length) (· < v.promises.length) v called :=
    hopen.changes.trans (changes_call opened f _)
  have hsound := sound_of_changes hcalled sound
  have hquiet : Changes H t (fun _ => False) (fun _ => False) opened called :=
    changes_call opened f _
  obtain ⟨st, -, hstands⟩ := stands_of_changes hquiet (sound_of_change hopen sound) id id
    (stands_of_open sound d)
  rw [← effects]
  by_cases hraise : ∃ e, answer.1 = .error e ∧ e.isOrdinary = true ∧ st = .unclaimed
  · obtain ⟨e, he, hordinary, rfl⟩ := hraise
    have harrive : u = arriveShielded H (called.claim v.effects.length).2 t goal
        "coroutine raised StopIteration" e := by
      rw [← hu, he]
      simp only [acceptCallback, hordinary, if_true, (stands_of_claim hstands).1]
    subst harrive
    intro i x hi hx
    obtain ⟨b, hb, hb'⟩ := opened_of_raise hsound hstands (fresh_of_changes hcalled sound) i x hi hx
    refine ⟨b, hb', fun h => ?_⟩
    obtain rfl := hb h
    refine .intro performs calls (congrArg List.length effects) ?_ hordinary
      (control_arriveShielded ..) fun hexhausted => ?_
    · rw [← host, ← run]
      exact he
    · simp [Host.shield, hexhausted]
  · have hlate : Changes H t (· < v.effects.length) (· < v.promises.length) called u :=
      hu ▸ changes_late_acceptCallback hstands fun e he hordinary hst =>
        hraise ⟨e, he, hordinary, hst⟩
    intro i e hi he
    obtain ⟨b, hb, hb'⟩ := fresh_of_changes (hcalled.trans hlate) sound i e hi he
    exact ⟨b, hb', fun h => absurd h hb⟩

theorem task_promise_lt (sound : Sound s) {task : Task} (h : s.tasks[t]? = some task) :
    task.promise < s.promises.length := by
  refine sound.owed _ ?_
  simp only [State.owed, List.mem_append, List.mem_map]
  exact .inl (.inl (.inl (.inl ⟨task, List.mem_of_getElem? h, rfl⟩)))

/-- Whatever a job of the queue completes has been made. -/
theorem aim_lt (sound : Sound s) {j : Job} (hj : j ∈ s.ready) {q : Nat}
    (hq : s.aim? j = some q) : q < s.promises.length := by
  cases j with
  | step t =>
    obtain ⟨task, htask, rfl⟩ := Option.map_eq_some_iff.1 hq
    exact task_promise_lt sound htask
  | notice g m =>
    obtain ⟨group, hgroup, rfl⟩ := Option.map_eq_some_iff.1 hq
    refine sound.owed _ ?_
    simp only [State.owed, List.mem_append, List.mem_map]
    exact .inl (.inl (.inl (.inr ⟨group, List.mem_of_getElem? hgroup, rfl⟩)))
  | settle i error value =>
    obtain ⟨e, he, rfl⟩ := Option.map_eq_some_iff.1 hq
    exact sound.effects e (List.mem_of_getElem? he)
  | fulfil p o =>
    cases hq
    refine sound.owed _ ?_
    simp only [State.owed, List.mem_append, List.mem_filterMap]
    exact .inl (.inr ⟨_, hj, rfl⟩)
  | invoke f args => cases hq
  | stop => cases hq

/-- An effect that changes bring about has not failed at once. -/
theorem opened_of_changes {v : State σ} (sound : Sound v)
    (hlength : v.effects.length = s.effects.length)
    (h : Changes H t (· < v.effects.length) (· < v.promises.length) v u) :
    ∀ i e, s.effects.length ≤ i → u.effects[i]? = some e →
      ∃ st, Stands i e.promise e.descriptor st u ∧ (st = .raised → Raises H context i s u) := by
  intro i e hi he
  obtain ⟨st, hst, hstands⟩ := fresh_of_changes h sound i e (hlength ▸ hi) he
  exact ⟨st, hstands, fun h => absurd h hst⟩

/-- **What an effect that a step brings about begins with.** -/
theorem opened_of_step (sound : Sound s) (h : step H context s = .next u) :
    ∀ i e, s.effects.length ≤ i → u.effects[i]? = some e →
      ∃ st, Stands i e.promise e.descriptor st u ∧ (st = .raised → Raises H context i s u) := by
  cases htask : s.control.task? with
  | none =>
    have hidle : s.control = .idle := Control.eq_idle htask
    rcases step_idle_cases hidle h with
      ⟨n, j, rest, -, hr, rfl⟩ | ⟨n, rfl⟩ | ⟨tm, later, hr, ht, rfl⟩
    · have hpop := sound_of_pop hr sound n
      by_cases hstop : j = .stop
      · subst hstop
        exact opened_of_changes (t := 0)
          (v := { s with ready := rest, batch := n, stopping := true })
          { hpop with owed := hpop.owed } rfl .refl
      · have haim : ∀ q, State.aim? { s with ready := rest, batch := n } j = some q →
            q < s.promises.length := fun q hq => aim_lt sound (hr ▸ List.mem_cons_self ..) hq
        obtain ⟨t, -, hchanges⟩ := exists_changes_runJob (P := fun _ => True) _
          ⟨0, trivial⟩ (fun _ _ => trivial) hstop haim
        exact opened_of_changes hpop rfl hchanges
    · exact opened_of_changes (v := { s with batch := n }) (t := 0)
        { sound with owed := sound.owed } rfl .refl
    · exact opened_of_changes (t := 0) (sound_of_clock hr ht sound) rfl .refl
  | some t =>
    have hsound := sound.toIdle
    by_cases hcalls : ∃ k goal d f, s.control = .perform k goal d ∧ CallsBack context d f
    · obtain ⟨k, goal, d, f, hc, hcalls⟩ := hcalls
      have hstep := step_of_callback (H := H) hc hcalls.1 hcalls.2.1 hcalls.2.2
      have hnoted : Sound (s.toIdle.note (.resolving d .callback)) :=
        { sound with owed := sound.owed }
      exact opened_of_performCallback hnoted hc hcalls rfl rfl rfl
        (Transition.next.inj (hstep.symm.trans h))
    · by_cases hwatch : ∃ k i o, s.control = .outcome k (.watch i) o ∧ s.effects[i]? = none
      · obtain ⟨k, i, o, hc, hnone⟩ := hwatch
        obtain ⟨x, hx⟩ := finishWatch_eq_finish (s := s.toIdle) k (.inl hnone : _ ∨ ∀ e, o = _ → _)
        have hu : finishWatch s.toIdle k i o = u := by
          simp only [step, hc] at h
          exact Transition.next.inj h
        rw [← hu, hx]
        exact opened_of_changes hsound rfl
          (changes_finish s.toIdle (fun task hk => task_promise_lt hsound hk) none x)
      · obtain ⟨v, hv, hchanges⟩ : ∃ v, step H context s = .next v ∧
            Changes H t (· < s.toIdle.effects.length) (· < s.toIdle.promises.length) s.toIdle
              v := by
          refine step_of_task s htask
            (fun k goal d f hc hf => absurd ⟨k, goal, d, f, hc, hf⟩ hcalls)
            (fun task hk => task_promise_lt hsound hk)
            fun i o hc => ⟨?_, fun e he => sound.effects e (List.mem_of_getElem? he)⟩
          by_contra hi
          exact hwatch ⟨t, i, o, hc, List.getElem?_eq_none (Nat.le_of_not_lt hi)⟩
        obtain rfl : v = u := Transition.next.inj (hv.symm.trans h)
        exact opened_of_changes hsound rfl hchanges

end EventLoop
end DescribedEffects
