import DescribedEffects.Proofs.EventLoop.MainTask
import DescribedEffects.Proofs.EventLoop.Owners

/-!
# A group of tasks in the loop

A group is made in one go: a promise for the whole of it, and a task for each member, with a
promise for which the group waits.  `Place` says where all of this is to be found, and
`gather_eq` what making a group amounts to.

`Crew` is what stays true of a group for good.  Its promise is completed by the group alone
and the promise of a member by the task of that member.  While a member is at work exactly one
job waits for it, which lets the group notice it, and there are no other such jobs but those
that are in the queue already.  `Apart` says what the rest of the loop leaves alone, and
`crew_of_change` that it does.
-/

namespace DescribedEffects
namespace EventLoop

variable {σ : Type}

/-- Where a group stands: how many members it has, its number, the task of its first member,
and its promise.  Tasks and promises of the members are numbered in order. -/
structure Place where
  size : Nat
  group : Nat
  first : Nat
  promise : Nat

namespace Place

/-- The task of a member. -/
def task (g : Place) (i : Nat) : Nat := g.first + i

/-- The promise of a member. -/
def member (g : Place) (i : Nat) : Nat := g.promise + 1 + i

/-- The promises of all members. -/
def members (g : Place) : List Nat := (List.range g.size).map g.member

/-- The place of the group that is made next. -/
def next (s : State σ) (size : Nat) : Place :=
  ⟨size, s.groups.length, s.tasks.length, s.promises.length⟩

/-- The promise is neither that of the group nor that of a member. -/
structure Spares (g : Place) (p : Nat) : Prop where
  whole : p ≠ g.promise
  part : ∀ i < g.size, p ≠ g.member i

theorem member_inj {g : Place} {i j : Nat} (h : g.member i = g.member j) : i = j := by
  unfold member at h
  omega

theorem member_ne (g : Place) (i : Nat) : g.member i ≠ g.promise := by
  unfold member
  omega

end Place

/-- The member that a job lets a group notice. -/
def Job.ticket? (g : Nat) : Job → Option Nat
  | .notice k m => if k = g then some m else none
  | _ => none

theorem ticket?_eq_some {g m : Nat} {j : Job} : j.ticket? g = some m ↔ j = .notice g m := by
  cases j with
  | notice k n =>
    by_cases h : k = g
    · simp [Job.ticket?, h]
    · simp [Job.ticket?, h]
  | _ => simp [Job.ticket?]

/-- The members that are complete and that a group is going to notice, in order. -/
def State.tickets (s : State σ) (g : Nat) : List Nat := s.ready.filterMap (Job.ticket? g)

/-! ## Only groups that are there are told -/

/-- No job is about a group that has not been made. -/
structure Addressed (s : State σ) : Prop where
  ready : ∀ j ∈ s.ready, ∀ g, s.groups.length ≤ g → j.ticket? g = none
  timers : ∀ tm ∈ s.timers, ∀ g, tm.job.ticket? g = none
  waiters : ∀ p ∈ s.promises, ∀ j ∈ p.waiters, ∀ g, s.groups.length ≤ g → j.ticket? g = none

theorem addressed_start (host : σ) (run : Nat) (earlier : List (Nat × Outcome))
    (errand : Errand) : Addressed (State.start host run earlier errand) where
  ready j hj g _ := by
    rw [List.mem_singleton.1 hj]
    rfl
  timers _ h := by cases h
  waiters p hp j hj g _ := by
    obtain rfl := List.mem_singleton.1 hp
    rw [List.mem_singleton.1 hj]
    rfl

variable {s u : State σ}

/-- What is new in the queue, among the timers and among those that wait is about groups that
are there. -/
theorem Addressed.transfer (h : Addressed s) (groups : s.groups.length ≤ u.groups.length)
    (ready : ∀ j ∈ u.ready, j ∈ s.ready ∨ ∀ g, u.groups.length ≤ g → j.ticket? g = none)
    (timers : ∀ tm ∈ u.timers, tm ∈ s.timers ∨ ∀ g, tm.job.ticket? g = none)
    (waiters : ∀ p ∈ u.promises, ∀ j ∈ p.waiters, (∃ q ∈ s.promises, j ∈ q.waiters) ∨
      ∀ g, u.groups.length ≤ g → j.ticket? g = none) : Addressed u where
  ready j hj g hg := by
    rcases ready j hj with hj | hj
    · exact h.ready j hj g (Nat.le_trans groups hg)
    · exact hj g hg
  timers tm htm g := by
    rcases timers tm htm with htm | htm
    · exact h.timers tm htm g
    · exact htm g
  waiters p hp j hj g hg := by
    rcases waiters p hp j hj with ⟨q, hq, hj⟩ | hj
    · exact h.waiters q hq j hj g (Nat.le_trans groups hg)
    · exact hj g hg

/-- A timer for a job that tells no group anything. -/
theorem timers_setTimer {n : Nat} {j : Job} (hj : ∀ g, j.ticket? g = none) :
    ∀ tm ∈ (s.setTimer n j).timers, tm ∈ s.timers ∨ ∀ g, tm.job.ticket? g = none := by
  intro tm htm
  exact (mem_timers_setTimer htm).imp_right fun h g => by rw [h, hj g]

/-- One more promise, for which nothing waits. -/
theorem waiters_new {new : Promise} (hnew : new.waiters = []) (groups : Nat) :
    ∀ p ∈ s.promises ++ [new], ∀ j ∈ p.waiters, (∃ q ∈ s.promises, j ∈ q.waiters) ∨
      ∀ g, groups ≤ g → j.ticket? g = none := by
  intro p hp j hj
  rcases List.mem_append.1 hp with hp | hp
  · exact .inl ⟨p, hp, hj⟩
  · obtain rfl := List.mem_singleton.1 hp
    rw [hnew] at hj
    cases hj

/-- One more job, which tells no group anything. -/
theorem ready_new {j : Job} (hj : ∀ g, j.ticket? g = none) (groups : Nat) :
    ∀ k ∈ s.ready ++ [j], k ∈ s.ready ∨ ∀ g, groups ≤ g → k.ticket? g = none := by
  intro k hk
  rcases List.mem_append.1 hk with hk | hk
  · exact .inl hk
  · rw [List.mem_singleton.1 hk]
    exact .inr fun g _ => hj g

variable {H : Host σ} {context : Value} {t : Nat} {claims completes : Nat → Prop}

theorem addressed_of_granting (h : Granting claims s u) (hs : Addressed s) : Addressed u := by
  have hsame : ∀ p ∈ s.promises, ∀ j ∈ p.waiters, (∃ q ∈ s.promises, j ∈ q.waiters) ∨
      ∀ g, s.groups.length ≤ g → j.ticket? g = none := fun p hp j hj => .inl ⟨p, hp, hj⟩
  cases h with
  | drained host => exact ⟨hs.ready, hs.timers, hs.waiters⟩
  | reported may hi unclaimed error value =>
    exact hs.transfer (Nat.le_refl _) (ready_new (fun _ => rfl) _) (fun _ => .inl) hsame
  | deferred n f args =>
    exact hs.transfer (Nat.le_refl _) (fun _ => .inl) (timers_setTimer fun _ => rfl) hsame
  | future id o =>
    exact hs.transfer (Nat.le_refl _) (fun _ => .inl) (fun _ => .inl) (waiters_new rfl _)
  | ripening hf n o =>
    exact hs.transfer (Nat.le_refl _) (fun _ => .inl) (timers_setTimer fun _ => rfl) hsame

theorem addressed_of_change (h : Change H t claims completes s u) (hs : Addressed s) :
    Addressed u := by
  have hsame : ∀ p ∈ s.promises, ∀ j ∈ p.waiters, (∃ q ∈ s.promises, j ∈ q.waiters) ∨
      ∀ g, s.groups.length ≤ g → j.ticket? g = none := fun p hp j hj => .inl ⟨p, hp, hj⟩
  cases h with
  | granted => exact kept_of_granting addressed_of_granting (granting_grantAll H s) hs
  | moved phase =>
    rw [State.setPhase_frame]
    exact ⟨hs.ready, hs.timers, hs.waiters⟩
  | queued =>
    exact hs.transfer (Nat.le_refl _) (ready_new (fun _ => rfl) _) (fun _ => .inl) hsame
  | timed n =>
    exact hs.transfer (Nat.le_refl _) (fun _ => .inl) (timers_setTimer fun _ => rfl) hsame
  | promised o =>
    exact hs.transfer (Nat.le_refl _) (fun _ => .inl) (fun _ => .inl) (waiters_new rfl _)
  | @subscribed q j hj _ why =>
    have hticket : ∀ g, s.groups.length ≤ g → j.ticket? g = none := by
      intro g hg
      rcases why with ⟨rfl, -⟩ | ⟨k, n, r, rfl, hk, -⟩
      · rfl
      · have hlt := (List.getElem?_eq_some_iff.1 hk).1
        exact if_neg (Nat.ne_of_lt (Nat.lt_of_lt_of_le hlt hg))
    rcases s.subscribe_cases q j with ⟨_, hq, hu⟩ | hu <;> rw [hu]
    · refine hs.transfer (Nat.le_refl _) (fun _ => .inl) (fun _ => .inl) fun p hp k hk => ?_
      rcases List.mem_or_eq_of_mem_set hp with hp | rfl
      · exact .inl ⟨p, hp, hk⟩
      · rcases List.mem_append.1 hk with hk | hk
        · exact .inl ⟨_, List.mem_of_getElem? hq, hk⟩
        · rw [List.mem_singleton.1 hk]
          exact .inr hticket
    · exact hs
  | tasked errand =>
    exact hs.transfer (Nat.le_refl _) (ready_new (fun _ => rfl) _) (fun _ => .inl)
      (waiters_new rfl _)
  | grouped n =>
    exact hs.transfer (by simp) (fun _ => .inl) (fun _ => .inl) (waiters_new rfl _)
  | regrouped hg members remaining _ =>
    exact hs.transfer (by simp) (fun _ => .inl) (fun _ => .inl) fun p hp j hj => .inl ⟨p, hp, hj⟩
  | opened d =>
    exact hs.transfer (Nat.le_refl _) (fun _ => .inl) (fun _ => .inl) (waiters_new rfl _)
  | claimed hi =>
    rw [State.claim_frame]
    exact ⟨hs.ready, hs.timers, hs.waiters⟩
  | @completed q hq o =>
    rcases s.complete_cases q o with ⟨waiters, hw, hu⟩ | hu <;> rw [hu]
    · have hmem := List.mem_of_getElem? hw
      refine hs.transfer (Nat.le_refl _) (fun j hj => ?_) (fun _ => .inl) fun p hp j hj => ?_
      · rcases List.mem_append.1 hj with hj | hj
        · exact .inl hj
        · exact .inr (hs.waiters _ hmem j hj)
      · rcases List.mem_or_eq_of_mem_set hp with hp | rfl
        · exact .inl ⟨p, hp, hj⟩
        · cases hj
    · exact hs
  | _ => exact ⟨hs.ready, hs.timers, hs.waiters⟩

theorem addressed_of_step (hs : Addressed s) (h : step H context s = .next u) :
    Addressed u := by
  have hchanges : ∀ {t : Nat} {v : State σ}, FreeChanges H t v u → Addressed v → Addressed u :=
    fun h hv => h.kept addressed_of_change hv
  cases htask : s.control.task? with
  | some t =>
    obtain ⟨v, hv, hfree⟩ := freeChanges_step H context s htask
    obtain rfl : v = u := Transition.next.inj (hv.symm.trans h)
    exact hchanges hfree ⟨hs.ready, hs.timers, hs.waiters⟩
  | none =>
    have hidle : s.control = .idle := Control.eq_idle htask
    rcases step_idle_cases hidle h with
      ⟨n, j, rest, -, hr, rfl⟩ | ⟨n, rfl⟩ | ⟨tm, later, hr, ht, rfl⟩
    · have hpop : Addressed { s with ready := rest, batch := n } :=
        ⟨fun k hk => hs.ready k (hr ▸ List.mem_cons_of_mem j hk), hs.timers, hs.waiters⟩
      by_cases hstop : j = .stop
      · subst hstop
        exact ⟨hpop.ready, hpop.timers, hpop.waiters⟩
      · obtain ⟨t, hfree⟩ := freeChanges_runJob H { s with ready := rest, batch := n } hstop
        exact hchanges hfree hpop
    · exact ⟨hs.ready, hs.timers, hs.waiters⟩
    · refine ⟨fun j hj g _ => ?_, fun k hk => ?_, hs.waiters⟩
      · rw [List.mem_singleton.1 hj]
        exact hs.timers tm (ht ▸ List.mem_cons_self ..) g
      · exact hs.timers k (ht ▸ List.mem_cons_of_mem tm hk)

theorem addressed_of_reaches {host : σ} {run : Nat} {earlier : List (Nat × Outcome)}
    {errand : Errand}
    (h : Transition.Reaches (step H context) (State.start host run earlier errand) s) :
    Addressed s :=
  h.invariant (fun _ _ => addressed_of_step) (addressed_start host run earlier errand)

/-! ## What stays true of a group -/

/-- A group that has been made. -/
structure Crew (g : Place) (s : State σ) : Prop where
  nonempty : 0 < g.size
  group : ∃ remaining, s.groups[g.group]? = some ⟨g.members, remaining, g.promise⟩
  whole : Exclusive (.group g.group) g.promise s
  parts : ∀ i < g.size, Exclusive (.task (g.task i)) (g.member i) s
  /-- Only the group waits for a member. -/
  waits : ∀ i < g.size,
    s.promises[g.member i]? = some ⟨none, [.notice g.group (g.member i)]⟩ ∨
      ∃ o, s.promises[g.member i]? = some ⟨some o, []⟩
  /-- The group waits for nothing else. -/
  others : ∀ (q : Nat) (pr : Promise), s.promises[q]? = some pr → (∀ i < g.size, q ≠ g.member i) →
    ∀ j ∈ pr.waiters, j.ticket? g.group = none

/-- What is none of the business of a group leaves it alone. -/
structure Apart (g : Place) (s u : State σ) : Prop where
  group : u.groups[g.group]? = s.groups[g.group]?
  tickets : u.tickets g.group = s.tickets g.group
  parts : ∀ i < g.size, u.promises[g.member i]? = s.promises[g.member i]?
  whole : u.outcome? g.promise = s.outcome? g.promise

variable {g : Place}

theorem Apart.refl (g : Place) (s : State σ) : Apart g s s := ⟨rfl, rfl, fun _ _ => rfl, rfl⟩

theorem Apart.trans {v : State σ} (h : Apart g s u) (k : Apart g u v) : Apart g s v where
  group := k.group.trans h.group
  tickets := k.tickets.trans h.tickets
  parts i hi := (k.parts i hi).trans (h.parts i hi)
  whole := k.whole.trans h.whole

theorem Apart.part_outcome (h : Apart g s u) {i : Nat} (hi : i < g.size) :
    u.outcome? (g.member i) = s.outcome? (g.member i) := by
  simp only [State.outcome?, h.parts i hi]

theorem Crew.lt (h : Crew g s) : g.group < s.groups.length := by
  obtain ⟨remaining, hg⟩ := h.group
  exact (List.getElem?_eq_some_iff.1 hg).1

/-- A group that is left alone goes on as it was, if it is not told of anything else. -/
theorem Crew.apart (h : Crew g s) (handed : Handed s u) (apart : Apart g s u)
    (others : ∀ (q : Nat) (pr : Promise), u.promises[q]? = some pr → ∀ j ∈ pr.waiters,
      (∃ old : Promise, s.promises[q]? = some old ∧ j ∈ old.waiters) ∨ j.ticket? g.group = none) :
    Crew g u ∧ Apart g s u := by
  refine ⟨⟨h.nonempty, ?_, h.whole.handed (by simp) handed,
    fun i hi => (h.parts i hi).handed (by simp) handed, fun i hi => ?_,
    fun q pr hq hne j hj => ?_⟩, apart⟩
  · rw [apart.group]
    exact h.group
  · rw [apart.parts i hi]
    exact h.waits i hi
  · rcases others q pr hq j hj with ⟨old, hold, hj⟩ | hj
    · exact h.others q old hold hne j hj
    · exact hj

/-- No promise is touched. -/
theorem Crew.same (h : Crew g s) (handed : Handed s u) (promises : u.promises = s.promises)
    (group : u.groups[g.group]? = s.groups[g.group]?)
    (tickets : u.tickets g.group = s.tickets g.group) : Crew g u ∧ Apart g s u := by
  refine h.apart handed ⟨group, tickets, fun i _ => by rw [promises], ?_⟩ fun q pr hq j hj => ?_
  · simp only [State.outcome?, promises]
  · exact .inl ⟨pr, promises ▸ hq, hj⟩

/-- One more promise is made, for which nothing waits. -/
theorem Crew.made (h : Crew g s) (handed : Handed s u) {new : Promise}
    (hnew : new.waiters = []) (promises : u.promises = s.promises ++ [new])
    (group : u.groups[g.group]? = s.groups[g.group]?)
    (tickets : u.tickets g.group = s.tickets g.group) : Crew g u ∧ Apart g s u := by
  refine h.apart handed ⟨group, tickets, fun i hi => ?_, outcome_concat_eq promises h.whole.made⟩
    fun q pr hq j hj => ?_
  · rw [promises, List.getElem?_append_left (h.parts i hi).made]
  · rw [promises] at hq
    rcases getElem?_concat_cases hq with hq | ⟨-, rfl⟩
    · exact .inl ⟨pr, hq, hj⟩
    · rw [hnew] at hj
      cases hj

/-- A job that tells a group nothing. -/
theorem tickets_concat {j : Job} {k : Nat} (hr : u.ready = s.ready ++ [j])
    (hj : j.ticket? k = none) : u.tickets k = s.tickets k := by
  simp [State.tickets, hr, List.filterMap_append, hj]

theorem crew_of_granting (h : Granting claims s u) (hs : Crew g s) :
    Crew g u ∧ Apart g s u := by
  have hhanded := handed_of_granting h
  cases h with
  | reported may hi unclaimed error value =>
    exact hs.same hhanded rfl rfl (tickets_concat rfl rfl)
  | future id o => exact hs.made hhanded rfl rfl rfl rfl
  | _ => exact hs.same hhanded rfl rfl rfl

/-- Nobody but the group waits for the promise of a member. -/
theorem Crew.not_awaitable (hs : Crew g s) {i : Nat} (hi : i < g.size) :
    ¬ Awaitable s (g.member i) := by
  have honly := (hs.parts i hi).only
  intro h
  cases h with
  | group h =>
    obtain ⟨k, hk⟩ := List.mem_iff_getElem?.1 h
    cases honly (.group k) hk
  | effect h =>
    obtain ⟨k, hk⟩ := List.mem_iff_getElem?.1 h
    cases honly (.effect k) hk
  | future h =>
    have hhosted : Owns s .host (g.member i) := by
      simp only [Owns, State.hosted, List.mem_append]
      exact .inl (.inl h)
    cases honly .host hhosted

/-- Waiting for a promise of somebody else. -/
theorem Crew.subscribe (hs : Crew g s) {q : Nat} {j : Job} (handed : Handed s (s.subscribe q j))
    (hq : ∀ i < g.size, q ≠ g.member i) (hj : j.ticket? g.group = none) :
    Crew g (s.subscribe q j) ∧ Apart g s (s.subscribe q j) := by
  have houtcome := outcome_subscribe s q j g.promise
  rcases s.subscribe_cases q j with ⟨_, hw, hu⟩ | hu <;> rw [hu] at handed houtcome ⊢
  · refine hs.apart handed ⟨rfl, rfl, fun i hi => List.getElem?_set_ne (hq i hi), houtcome⟩
      fun r pr hr k hk => ?_
    rcases eq_or_ne q r with rfl | hne
    · rw [List.getElem?_set_self (List.getElem?_eq_some_iff.1 hw).1] at hr
      cases hr
      rcases List.mem_append.1 hk with hk | hk
      · exact .inl ⟨_, hw, hk⟩
      · rw [List.mem_singleton.1 hk]
        exact .inr hj
    · rw [List.getElem?_set_ne hne] at hr
      exact .inl ⟨pr, hr, hk⟩
  · exact ⟨hs, .refl g s⟩

/-- Completing a promise of somebody else. -/
theorem Crew.complete (hs : Crew g s) {q : Nat} (o : Outcome)
    (handed : Handed s (s.complete q o)) (hq : g.Spares q) :
    Crew g (s.complete q o) ∧ Apart g s (s.complete q o) := by
  have houtcome := outcome_complete_of_ne (s := s) hq.whole o
  rcases s.complete_cases q o with ⟨waiters, hw, hu⟩ | hu <;> rw [hu] at handed houtcome ⊢
  · have hnone : waiters.filterMap (Job.ticket? g.group) = [] :=
      List.filterMap_eq_nil_iff.2 (hs.others q _ hw hq.part)
    refine hs.apart handed ⟨rfl, ?_, fun i hi => List.getElem?_set_ne (hq.part i hi), houtcome⟩
      fun r pr hr k hk => ?_
    · simp [State.tickets, List.filterMap_append, hnone]
    · rcases eq_or_ne q r with rfl | hne
      · rw [List.getElem?_set_self (List.getElem?_eq_some_iff.1 hw).1] at hr
        cases hr
        cases hk
      · rw [List.getElem?_set_ne hne] at hr
        exact .inl ⟨pr, hr, hk⟩
  · exact ⟨hs, .refl g s⟩

/-- **What completes none of its promises leaves a group alone.** -/
theorem crew_of_change (h : Change H t claims g.Spares s u) (sound : Sound s)
    (hs : Crew g s) : Crew g u ∧ Apart g s u := by
  have hhanded := handed_of_change h sound
  cases h with
  | granted =>
    exact kept_of_granting (P := fun u => Crew g u ∧ Apart g s u)
      (fun h hv => (crew_of_granting h hv.1).imp_right hv.2.trans) (granting_grantAll H s)
      ⟨hs, .refl g s⟩
  | moved phase =>
    rw [State.setPhase_frame] at hhanded ⊢
    exact hs.same hhanded rfl rfl rfl
  | queued => exact hs.same hhanded rfl rfl (tickets_concat rfl rfl)
  | promised o => exact hs.made hhanded rfl rfl rfl rfl
  | @subscribed q j hj _ why =>
    rcases why with ⟨rfl, hq⟩ | ⟨k, n, r, rfl, hk, hq⟩
    · refine hs.subscribe hhanded (fun i hi h => ?_) rfl
      exact hs.not_awaitable hi (h ▸ hq)
    · have hne : k ≠ g.group := by
        rintro rfl
        obtain ⟨remaining, hgroup⟩ := hs.group
        rw [hgroup] at hk
        have hnil : g.members = [] := congrArg Group.members (Option.some.inj hk)
        have hsize := hs.nonempty
        simp [Place.members] at hnil
        omega
      refine hs.subscribe hhanded (fun i hi h => ?_) (if_neg hne)
      subst h
      rcases hs.waits i hi with hw | ⟨o, hw⟩ <;> rw [hq] at hw <;> cases hw
  | tasked errand => exact hs.made hhanded rfl rfl rfl (tickets_concat rfl rfl)
  | grouped n => exact hs.made hhanded rfl rfl (List.getElem?_append_left hs.lt) rfl
  | @regrouped k old hk members remaining why =>
    have hne : k ≠ g.group := by
      rintro rfl
      obtain ⟨left, hgroup⟩ := hs.group
      obtain rfl := Option.some.inj (hk.symm.trans hgroup)
      rcases why with ⟨why, -⟩ | ⟨why, -⟩
      · exact why.whole rfl
      · have hsize := hs.nonempty
        simp [Place.members] at why
        omega
    exact hs.same hhanded rfl (List.getElem?_set_ne hne) rfl
  | opened d => exact hs.made hhanded rfl rfl rfl rfl
  | claimed hi =>
    rw [State.claim_frame] at hhanded ⊢
    exact hs.same hhanded rfl rfl rfl
  | completed hq o => exact hs.complete o hhanded hq
  | _ => exact hs.same hhanded rfl rfl rfl

theorem crew_of_changes (h : Changes H t claims g.Spares s u) (sound : Sound s)
    (hs : Crew g s) : Crew g u ∧ Apart g s u := by
  have hall : Sound u ∧ Crew g u ∧ Apart g s u :=
    h.kept (P := fun u => Sound u ∧ Crew g u ∧ Apart g s u)
      (fun hc hv => ⟨sound_of_change hc hv.1,
        (crew_of_change hc hv.1 hv.2.1).imp_right hv.2.2.trans⟩) ⟨sound, hs, .refl g s⟩
  exact hall.2

/-! ## Making a group -/

/-- A group has been made, and nobody waits for it yet. -/
def State.staffed (s : State σ) (errands : List Errand) : State σ :=
  let g := Place.next s errands.length
  { s with
    tasks := s.tasks ++ errands.mapIdx fun i errand => ⟨.fresh errand, g.member i⟩
    promises := s.promises ++ ⟨none, []⟩ ::
      (List.range errands.length).map fun i => ⟨none, [.notice g.group (g.member i)]⟩
    groups := s.groups ++ [⟨g.members, errands.length, g.promise⟩]
    ready := s.ready ++ (List.range errands.length).map fun i => .step (g.task i) }

/-- The tasks of a group are made one after the other. -/
theorem launch_eq (s : State σ) (group : Nat) (errands : List Errand) :
    launch s group errands =
      ((List.range errands.length).map (s.promises.length + ·),
        { s with
          tasks := s.tasks ++
            errands.mapIdx fun i errand => ⟨.fresh errand, s.promises.length + i⟩
          promises := s.promises ++ (List.range errands.length).map fun i =>
            ⟨none, [.notice group (s.promises.length + i)]⟩
          ready := s.ready ++
            (List.range errands.length).map fun i => .step (s.tasks.length + i) }) := by
  induction errands generalizing s with
  | nil => simp [launch]
  | cons errand rest ih =>
    have hfirst : (s.newTask errand).2.subscribe s.promises.length
        (.notice group s.promises.length) =
      { s with
        tasks := s.tasks ++ [⟨.fresh errand, s.promises.length⟩]
        promises := s.promises ++ [⟨none, [.notice group s.promises.length]⟩]
        ready := s.ready ++ [.step s.tasks.length] } := by
      simp [State.subscribe, State.newTask, State.newPromise, State.enqueue]
    have hshift : ∀ a i : Nat, a + 1 + i = a + (i + 1) := fun a i => by omega
    rw [launch_cons]
    dsimp only
    rw [hfirst, ih]
    simp [List.range_succ_eq_map, List.mapIdx_cons, Function.comp_def, hshift]

/-- The members are entered in the group when all of them have tasks. -/
theorem staffed_eq (s : State σ) (errands : List Errand) :
    let launched := launch (s.opened errands.length) s.groups.length errands
    s.staffed errands = { launched.2 with
      groups := launched.2.groups.set s.groups.length
        ⟨launched.1, errands.length, s.promises.length⟩ } := by
  simp [State.opened, State.newPromise, launch_eq, State.staffed, Place.next, Place.members,
    Place.member, Place.task]

/-- Making a group is a sequence of small changes. -/
theorem changes_staffed (s : State σ) (errands : List Errand) :
    Changes H t claims completes s (s.staffed errands) := by
  rw [staffed_eq]
  exact changes_group s errands

/-- **To wait for new tasks is to make a group and to wait for its promise.** -/
theorem gather_eq (s : State σ) (t : Nat) (goal : Goal) {errands : List Errand}
    (h : errands ≠ []) :
    gather s t goal errands = block (s.staffed errands) t goal s.promises.length := by
  have hempty : errands.isEmpty = false := by simpa using h
  unfold gather
  rw [if_neg (by simp [hempty]), staffed_eq]
  rfl

/-- What has an owner has been made. -/
theorem owns_lt (sound : Sound s) {w : Owner} {p : Nat} (h : Owns s w p) :
    p < s.promises.length := by
  have howed : ∀ p ∈ s.tasks.map Task.promise ++ s.groups.map Group.promise ++ s.hosted,
      p < s.promises.length := by
    intro p hp
    refine sound.owed p ?_
    simp only [State.owed, State.hosted, List.mem_append] at hp ⊢
    grind
  cases w with
  | task t => exact howed p (by simp [List.mem_of_getElem? h])
  | group g => exact howed p (by simp [List.mem_of_getElem? h])
  | effect i =>
    obtain ⟨e, he, rfl⟩ := List.mem_map.1 (List.mem_of_getElem? h)
    exact sound.effects e he
  | host => exact howed p (List.mem_append_right _ h)

/-- The promises of a new group belong to it and to the tasks of its members. -/
theorem owns_staffed {errands : List Errand} {w : Owner} {p : Nat}
    (h : Owns (s.staffed errands) w p) :
    let g := Place.next s errands.length
    Owns s w p ∨ (w = .group g.group ∧ p = g.promise) ∨
      ∃ i < g.size, w = .task (g.task i) ∧ p = g.member i := by
  intro g
  cases w with
  | task t =>
    have h : ((s.tasks ++ errands.mapIdx fun i errand => (⟨.fresh errand, g.member i⟩ : Task)).map
        Task.promise)[t]? = some p := h
    rw [List.map_append, List.getElem?_append, List.length_map] at h
    split at h
    · exact .inl h
    · next hlt =>
      simp only [List.getElem?_map, List.getElem?_mapIdx, Option.map_map,
        Option.map_eq_some_iff] at h
      obtain ⟨errand, herrand, rfl⟩ := h
      have hsize := (List.getElem?_eq_some_iff.1 herrand).1
      refine .inr (.inr ⟨t - s.tasks.length, hsize, congrArg Owner.task ?_, rfl⟩)
      show t = s.tasks.length + (t - s.tasks.length)
      omega
  | group k =>
    have h : ((s.groups ++ [(⟨g.members, errands.length, g.promise⟩ : Group)]).map
        Group.promise)[k]? = some p := h
    rw [List.map_append] at h
    rcases getElem?_concat_cases h with h | ⟨hk, rfl⟩
    · exact .inl h
    · rw [List.length_map] at hk
      exact .inr (.inl ⟨congrArg Owner.group hk, rfl⟩)
  | effect i => exact .inl h
  | host =>
    refine .inl (hosted_of_queued _ (fun j hj => ?_) h rfl rfl rfl)
    obtain ⟨i, -, rfl⟩ := List.mem_map.1 hj
    rfl

/-- The promises of a new group. -/
theorem promises_staffed {errands : List Errand} {q : Nat} {pr : Promise}
    (h : (s.staffed errands).promises[q]? = some pr) :
    let g := Place.next s errands.length
    s.promises[q]? = some pr ∨ (q = g.promise ∧ pr = ⟨none, []⟩) ∨
      ∃ i < g.size, q = g.member i ∧ pr = ⟨none, [.notice g.group (g.member i)]⟩ := by
  intro g
  have h : (s.promises ++ (⟨none, []⟩ :: (List.range errands.length).map fun i =>
      (⟨none, [.notice g.group (g.member i)]⟩ : Promise)))[q]? = some pr := h
  rw [List.getElem?_append] at h
  split at h
  · exact .inl h
  · next hlt =>
    obtain ⟨k, rfl⟩ : ∃ k, q = s.promises.length + k := ⟨q - s.promises.length, by omega⟩
    rw [Nat.add_sub_cancel_left] at h
    cases k with
    | zero =>
      cases h
      exact .inr (.inl ⟨rfl, rfl⟩)
    | succ i =>
      rw [List.getElem?_cons_succ, List.getElem?_map] at h
      obtain ⟨k, hk, rfl⟩ := Option.map_eq_some_iff.1 h
      obtain ⟨hi, rfl⟩ := List.getElem?_eq_some_iff.1 hk
      rw [List.getElem_range]
      rw [List.length_range] at hi
      refine .inr (.inr ⟨i, hi, ?_, rfl⟩)
      show s.promises.length + (i + 1) = s.promises.length + 1 + i
      omega

theorem promise_staffed (s : State σ) (errands : List Errand) :
    (s.staffed errands).promises[s.promises.length]? = some ⟨none, []⟩ := by
  simp [State.staffed]

theorem member_staffed (s : State σ) {errands : List Errand} {i : Nat}
    (hi : i < errands.length) :
    let g := Place.next s errands.length
    (s.staffed errands).promises[g.member i]? =
      some ⟨none, [.notice g.group (g.member i)]⟩ := by
  intro g
  have hle : s.promises.length ≤ g.member i := by
    show s.promises.length ≤ s.promises.length + 1 + i
    omega
  have hsub : g.member i - s.promises.length = i + 1 := by
    show s.promises.length + 1 + i - s.promises.length = i + 1
    omega
  simp only [State.staffed]
  rw [List.getElem?_append_right hle, hsub, List.getElem?_cons_succ, List.getElem?_map,
    List.getElem?_range hi]
  rfl

/-- Nothing of a new group is complete. -/
theorem outcome_staffed (s : State σ) {errands : List Errand} {i : Nat}
    (hi : i < errands.length) :
    (s.staffed errands).outcome? ((Place.next s errands.length).member i) = none := by
  simp only [State.outcome?, member_staffed s hi]
  rfl

/-- A new group has been told nothing. -/
theorem tickets_staffed (addressed : Addressed s) (errands : List Errand) :
    (s.staffed errands).tickets s.groups.length = [] := by
  refine List.filterMap_eq_nil_iff.2 fun j hj => ?_
  rcases List.mem_append.1 hj with hj | hj
  · exact addressed.ready j hj s.groups.length (Nat.le_refl _)
  · obtain ⟨i, -, rfl⟩ := List.mem_map.1 hj
    rfl

theorem task_staffed (s : State σ) {errands : List Errand} {i : Nat} {errand : Errand}
    (hi : errands[i]? = some errand) :
    let g := Place.next s errands.length
    (s.staffed errands).tasks[g.task i]? = some ⟨.fresh errand, g.member i⟩ := by
  intro g
  have hle : s.tasks.length ≤ g.task i := Nat.le_add_right ..
  have hsub : g.task i - s.tasks.length = i := Nat.add_sub_cancel_left ..
  simp only [State.staffed]
  rw [List.getElem?_append_right hle, hsub, List.getElem?_mapIdx, hi]
  rfl

/-- **A group that has just been made is one.** -/
theorem crew_staffed (sound : Sound s) (addressed : Addressed s) {errands : List Errand}
    (h : errands ≠ []) : Crew (Place.next s errands.length) (s.staffed errands) := by
  have hmember : ∀ i, s.promises.length < (Place.next s errands.length).member i := fun i => by
    show s.promises.length < s.promises.length + 1 + i
    omega
  refine ⟨List.length_pos_iff.2 h, ⟨errands.length, List.getElem?_concat_length⟩,
    ⟨?_, ?_, fun w hw => ?_⟩, fun i hi => ⟨?_, ?_, fun w hw => ?_⟩,
    fun i hi => .inl (member_staffed s hi), fun q pr hq hne j hj => ?_⟩
  · exact (List.getElem?_eq_some_iff.1 (promise_staffed s errands)).1
  · simp [Owns, State.staffed, Place.next]
  · rcases owns_staffed hw with hold | ⟨rfl, -⟩ | ⟨i, -, -, hp⟩
    · exact absurd (owns_lt sound hold) (Nat.lt_irrefl _)
    · rfl
    · exact absurd hp (Place.member_ne _ i).symm
  · exact (List.getElem?_eq_some_iff.1 (member_staffed s hi)).1
  · show (State.tasks _ |>.map Task.promise)[_]? = _
    rw [List.getElem?_map, task_staffed s (List.getElem?_eq_getElem hi)]
    rfl
  · rcases owns_staffed hw with hold | ⟨-, hp⟩ | ⟨k, -, rfl, hp⟩
    · exact absurd (owns_lt sound hold) (Nat.lt_asymm (hmember i))
    · exact absurd hp (Place.member_ne _ i)
    · rw [Place.member_inj hp]
  · rcases promises_staffed hq with hq | ⟨-, rfl⟩ | ⟨i, hi, rfl, -⟩
    · exact addressed.waiters pr (List.mem_of_getElem? hq) j hj _ (Nat.le_refl _)
    · cases hj
    · exact absurd rfl (hne i hi)

end EventLoop
end DescribedEffects
