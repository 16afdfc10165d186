import DescribedEffects.EventLoop.Step
import Mathlib.Logic.Relation

/-!
# What a step of the loop changes

The functions that make up a step of the loop call each other, but what they do to the
state comes down to a few kinds of small changes.  `Change` lists them; `Changes` is any
number of them in a row.  That each function does nothing else is shown here once, function
by function, and an invariant of the loop then only has to survive the changes.

## Whose step it is

Nearly everything happens on behalf of a task: its phase moves, its job is queued, its
promise is completed, and the loop is in the middle of nothing or of something that concerns
it.  A change carries that task.  It also carries which effects it may claim and which
promises it may complete, so that an invariant about one effect can be told that the rest
of the step leaves that effect alone.

Two things are left out.  Taking a job off the ready queue, moving the clock and stopping
are not changes but the frame in which they happen, and the requests of the host are granted
all at once.
-/

namespace DescribedEffects

/-- What a question about a program makes of the host.  Taking out its requests is no such
question. -/
inductive Host.Asked {σ : Type} (H : Host σ) : σ → σ → Prop
  | resume (g : Nat) (signal : Signal) (s : σ) : Asked H s (H.resume g signal s).2
  | call (f : Value) (args : List Value) (s : σ) : Asked H s (H.call f args s).2
  | start (k : Nat) (s : σ) : Asked H s (H.start k s).2
  | wake (k : Nat) (s : σ) : Asked H s (H.wake k s).2
  | fresh (s : σ) : Asked H s (H.fresh s).2
  | blame (id : Nat) (cause : Exn) (s : σ) : Asked H s (H.blame id cause s)

namespace EventLoop

/-- The task that the loop is in the middle of something for. -/
def Control.task? : Control → Option Nat
  | .idle => none
  | .perform t _ _ => some t
  | .outcome t _ _ => some t
  | .deliver t _ _ _ => some t

/-- The loop that is busy with no task is in the middle of nothing. -/
theorem Control.eq_idle {c : Control} (h : c.task? = none) : c = .idle := by
  cases c with
  | idle => rfl
  | _ => cases h

/-- The job can wait for a promise: it does not complete one by itself. -/
def Job.isPatient : Job → Bool
  | .step _ | .notice .. | .stop => true
  | _ => false

variable {σ : Type}

/-- The promise is one that tasks may wait for: it belongs to a group, to a callback-style
effect or to a future, and not to a task. -/
inductive Awaitable (s : State σ) (p : Nat) : Prop
  | group (h : p ∈ s.groups.map Group.promise)
  | effect (h : p ∈ s.effects.map PendingEffect.promise)
  | future (h : p ∈ s.futures.map Prod.snd)

/-- A small change of the state, on behalf of a task.  It may claim the effects and complete
the promises that it is told. -/
inductive Change (H : Host σ) (t : Nat) (claims completes : Nat → Prop) :
    State σ → State σ → Prop
  | asked {s : State σ} {host : σ} (h : H.Asked s.host host) :
      Change H t claims completes s { s with host }
  | granted (s : State σ) : Change H t claims completes s (grantAll H s)
  | noted (s : State σ) (n : Note) : Change H t claims completes s (s.note n)
  | idled (s : State σ) : Change H t claims completes s s.toIdle
  | turned (s : State σ) {c : Control} (h : c.task? = some t) :
      Change H t claims completes s { s with control := c }
  | moved (s : State σ) (phase : Phase)
      (why : ∀ goal p, phase = .blocked goal p → Awaitable s p ∨ s.promises.length ≤ p) :
      Change H t claims completes s (s.setPhase t phase)
  | queued (s : State σ) : Change H t claims completes s (s.enqueue (.step t))
  | timed (s : State σ) (n : Nat) : Change H t claims completes s (s.setTimer n (.step t))
  | promised (s : State σ) (o : Option Outcome) :
      Change H t claims completes s { s with promises := s.promises ++ [⟨o, []⟩] }
  | subscribed (s : State σ) (p : Nat) {j : Job} (h : j.isPatient = true) (goesOn : j ≠ .stop)
      (why : j = .step t ∧ Awaitable s p ∨ ∃ g n q, j = .notice g p ∧
        s.groups[g]? = some ⟨[], n, q⟩ ∧ s.promises[p]? = some ⟨none, []⟩) :
      Change H t claims completes s (s.subscribe p j)
  | tasked (s : State σ) (errand : Errand) :
      Change H t claims completes s (s.newTask errand).2
  | grouped (s : State σ) (n : Nat) :
      Change H t claims completes s
        { s.newPromise.2 with groups := s.groups ++ [⟨[], n, s.promises.length⟩] }
  | regrouped (s : State σ) {g : Nat} {old : Group} (h : s.groups[g]? = some old)
      (members : List Nat) (remaining : Nat)
      (why : completes old.promise ∧ members = old.members ∨
        old.members = [] ∧ ∀ m ∈ members, old.promise < m) :
      Change H t claims completes s
        { s with groups := s.groups.set g ⟨members, remaining, old.promise⟩ }
  | opened (s : State σ) (d : Descriptor) :
      Change H t claims completes s
        { s.newPromise.2 with effects := s.effects ++ [⟨d, false, s.promises.length⟩] }
  | claimed (s : State σ) {i : Nat} (h : claims i) :
      Change H t claims completes s (s.claim i).2
  | completed (s : State σ) {p : Nat} (h : completes p) (o : Outcome) :
      Change H t claims completes s (s.complete p o)

/-- Any number of small changes. -/
abbrev Changes (H : Host σ) (t : Nat) (claims completes : Nat → Prop) :
    State σ → State σ → Prop :=
  Relation.ReflTransGen (Change H t claims completes)

variable {H : Host σ} {context : Value} {t : Nat} {claims completes : Nat → Prop}

theorem Change.changes {s u : State σ} (h : Change H t claims completes s u) :
    Changes H t claims completes s u := .single h

/-- A property that every change keeps is kept by any number of them. -/
theorem Changes.kept {P : State σ → Prop}
    (keep : ∀ {s u : State σ}, Change H t claims completes s u → P s → P u) {s u : State σ}
    (h : Changes H t claims completes s u) (hs : P s) : P u := by
  induction h with
  | refl => exact hs
  | tail _ last ih => exact keep last ih

/-! ## Granting requests -/

/-- One change that granting requests can make, apart from the host.  It may claim the
effects that it is told. -/
inductive Granting (claims : Nat → Prop) : State σ → State σ → Prop
  | drained (s : State σ) (host : σ) : Granting claims s { s with host }
  | reported (s : State σ) {i : Nat} {x : PendingEffect} (may : claims i)
      (h : s.effects[i]? = some x) (unclaimed : x.claimed = false) (error value : Value) :
      Granting claims s
        { s with
          effects := s.effects.set i { x with claimed := true }
          ready := s.ready ++ [.settle i error value] }
  | deferred (s : State σ) (n : Nat) (f : Value) (args : List Value) :
      Granting claims s (s.setTimer n (.invoke f args))
  | future (s : State σ) (id : Nat) (o : Option Outcome) :
      Granting claims s
        { s with
          promises := s.promises ++ [⟨o, []⟩]
          futures := s.futures ++ [(id, s.promises.length)] }
  | ripening (s : State σ) {id p : Nat} (h : (id, p) ∈ s.futures) (n : Nat) (o : Outcome) :
      Granting claims s (s.setTimer n (.fulfil p o))

/-- The first report of an effect claims it and queues its completion. -/
theorem grant_complete (s : State σ) (i : Nat) (error value : Value) :
    grant s (.complete s.run i error value) =
      match s.effects[i]? with
      | some ⟨d, false, p⟩ =>
        { s with
          effects := s.effects.set i ⟨d, true, p⟩
          ready := s.ready ++ [.settle i error value] }
      | _ => s := by
  rcases hi : s.effects[i]? with _ | ⟨d, _ | _, p⟩ <;>
    simp [grant, State.claim, State.enqueue, hi]

theorem granting_grant (s : State σ) (r : Request)
    (h : ∀ i error value, r = .complete s.run i error value → claims i) :
    Relation.ReflTransGen (Granting claims) s (grant s r) := by
  cases r with
  | complete run i error value =>
    by_cases hrun : run = s.run
    · subst hrun
      rw [grant_complete]
      rcases hi : s.effects[i]? with _ | ⟨d, _ | _, p⟩
      · exact .refl
      · exact .single (.reported s (h i error value rfl) hi rfl error value)
      · exact .refl
    · simp only [grant, if_neg hrun]
      exact .refl
  | callLater delay f args => exact .single (.deferred s delay f args)
  | future id o delay =>
    have hfuture : ∀ o, Relation.ReflTransGen (Granting claims) s
        { s with
          promises := s.promises ++ [⟨o, []⟩]
          futures := s.futures ++ [(id, s.promises.length)] } :=
      fun o => .single (.future s id o)
    rcases o with _ | o
    · exact hfuture none
    · rcases delay with _ | n
      · have hcomplete := hfuture (some o)
        simpa [grant, State.newPromise, State.complete] using hcomplete
      · have hmem : (id, s.promises.length) ∈ s.futures ++ [(id, s.promises.length)] := by simp
        exact (hfuture none).tail (.ripening _ hmem n o)

variable (H) in
/-- Granting all requests is a matter of such changes. -/
theorem granting_grantAll (s : State σ) :
    Relation.ReflTransGen (Granting fun _ => True) s (grantAll H s) := by
  unfold grantAll
  dsimp only
  generalize (H.drain s.host).1 = requests
  suffices h : ∀ u : State σ,
      Relation.ReflTransGen (Granting fun _ => True) u (requests.foldl grant u) from
    .head (.drained s _) (h _)
  induction requests with
  | nil => exact fun _ => .refl
  | cons r rest ih =>
    exact fun u => (granting_grant u r fun _ _ _ _ => trivial).trans (ih _)

/-- A property that every grant keeps is kept by any number of them. -/
theorem kept_of_granting {P : State σ → Prop}
    (keep : ∀ {s u : State σ}, Granting claims s u → P s → P u) {s u : State σ}
    (h : Relation.ReflTransGen (Granting claims) s u) (hs : P s) : P u := by
  induction h with
  | refl => exact hs
  | tail _ last ih => exact keep last ih

/-! ## What granting leaves alone -/

@[simp] theorem host_subscribe (s : State σ) (p : Nat) (j : Job) :
    (s.subscribe p j).host = s.host := by
  rw [State.subscribe_frame]

@[simp] theorem host_complete (s : State σ) (p : Nat) (o : Outcome) :
    (s.complete p o).host = s.host := by
  rw [State.complete_frame]

@[simp] theorem host_claim (s : State σ) (i : Nat) : (s.claim i).2.host = s.host := by
  rw [State.claim_frame]

@[simp] theorem host_grant (s : State σ) (r : Request) : (grant s r).host = s.host := by
  cases r with
  | complete run i error value =>
    unfold grant
    dsimp only
    split
    · split
      · exact host_claim s i
      · exact host_claim s i
    · rfl
  | callLater delay f args => rfl
  | future id o delay =>
    rcases o with _ | o
    · rfl
    · rcases delay with _ | n
      · exact host_complete ..
      · rfl

@[simp] theorem host_grantAll (s : State σ) : (grantAll H s).host = (H.drain s.host).2 := by
  unfold grantAll
  dsimp only
  generalize (H.drain s.host).1 = requests
  suffices h : ∀ u : State σ, (requests.foldl grant u).host = u.host from h _
  induction requests with
  | nil => exact fun _ => rfl
  | cons r rest ih => exact fun u => (ih (grant u r)).trans (host_grant u r)

@[simp] theorem notes_grantAll (s : State σ) : (grantAll H s).notes = s.notes :=
  kept_of_granting (P := fun u => u.notes = s.notes)
    (fun h hs => by cases h <;> exact hs) (granting_grantAll H s) rfl

@[simp] theorem groups_grantAll (s : State σ) : (grantAll H s).groups = s.groups :=
  kept_of_granting (P := fun u => u.groups = s.groups) (fun h hs => by cases h <;> exact hs)
    (granting_grantAll H s) rfl

/-- The host has nothing to ask for. -/
theorem grantAll_of_nothing {s : State σ} (h : H.drain s.host = ([], s.host)) :
    grantAll H s = s := by
  simp only [grantAll, h]
  rfl

/-! ## What tasks may wait for -/

/-- Replacing an entry by one with the same image keeps the images. -/
theorem map_set_of_eq {α β : Type} {f : α → β} {l : List α} {i : Nat} {a b : α}
    (h : l[i]? = some a) (hf : f b = f a) : (l.set i b).map f = l.map f := by
  obtain ⟨hi, rfl⟩ := List.getElem?_eq_some_iff.1 h
  refine List.ext_getElem (by simp) fun k _ _ => ?_
  rw [List.getElem_map, List.getElem_map, List.getElem_set]
  split
  · next hk =>
    subst hk
    exact hf
  · rfl

theorem Awaitable.transfer {s u : State σ} {p : Nat} (h : Awaitable s p)
    (groups : u.groups = s.groups)
    (effects : u.effects.map PendingEffect.promise = s.effects.map PendingEffect.promise)
    (futures : s.futures ⊆ u.futures) : Awaitable u p := by
  cases h with
  | group h => exact .group (by rwa [groups])
  | effect h => exact .effect (by rwa [effects])
  | future h =>
    obtain ⟨x, hx, rfl⟩ := List.mem_map.1 h
    exact .future (List.mem_map_of_mem (futures hx))

/-- Claiming an effect keeps what tasks may wait for. -/
theorem Awaitable.claim {s : State σ} {p : Nat} (h : Awaitable s p) (i : Nat) :
    Awaitable (s.claim i).2 p := by
  rcases s.claim_cases i with ⟨_, he, -, hu⟩ | hu <;> rw [hu]
  · exact h.transfer rfl (map_set_of_eq he rfl) fun _ hx => hx
  · exact h

theorem awaitable_of_granting {s u : State σ} {p : Nat} (h : Granting claims s u)
    (hs : Awaitable s p) : Awaitable u p := by
  cases h with
  | reported may hi unclaimed error value =>
    exact hs.transfer rfl (map_set_of_eq hi rfl) fun _ hx => hx
  | future id o => exact hs.transfer rfl rfl (List.subset_append_left ..)
  | _ => exact hs.transfer rfl rfl fun _ hx => hx

/-- Granting requests keeps what tasks may wait for. -/
theorem Awaitable.grantAll {s : State σ} {p : Nat} (h : Awaitable s p) :
    Awaitable (grantAll H s) p :=
  kept_of_granting (P := fun u => Awaitable u p) awaitable_of_granting (granting_grantAll H s) h

/-! ## Exceptions -/

theorem changes_raise (body : ExnBody Value) (s : State σ) :
    Changes H t claims completes s { s with host := (H.raise body s.host).2 } :=
  Change.changes (.asked (.fresh s.host))

theorem changes_shield (sentence : String) (e : Exn) (s : State σ) :
    Changes H t claims completes s { s with host := (H.shield sentence e s.host).2 } := by
  unfold Host.shield
  split
  · refine (changes_raise (ValueFault.saying .runtime sentence) s).tail ?_
    exact .asked (.blame ..)
  · exact .refl

theorem changes_complain (c : Complaint) (s : State σ) :
    Changes H t claims completes s { s with host := (H.complain c s.host).2 } := by
  cases c with
  | make body => exact changes_raise body s
  | pass e => exact .refl

theorem changes_arrive (s : State σ) (goal : Goal) (o : Outcome) :
    Changes H t claims completes s (s.arrive t goal o) :=
  Change.changes (.turned s rfl)

theorem changes_arriveWith (s : State σ) (goal : Goal) (body : ExnBody Value) :
    Changes H t claims completes s (arriveWith H s t goal body) :=
  (changes_raise body s).trans (changes_arrive _ goal _)

theorem changes_arriveShielded (s : State σ) (goal : Goal) (sentence : String) (e : Exn) :
    Changes H t claims completes s (arriveShielded H s t goal sentence e) :=
  (changes_shield sentence e s).trans (changes_arrive _ goal _)

/-! ## Waiting -/

theorem changes_block (s : State σ) (goal : Goal) {p : Nat} (h : Awaitable s p) :
    Changes H t claims completes s (block s t goal p) := by
  unfold block
  split
  · exact changes_arrive s goal _
  · have hwaits : Changes H t claims completes s (s.subscribe p (.step t)) :=
      Change.changes (.subscribed s p rfl (by simp) (.inl ⟨rfl, h⟩))
    have hstays : Awaitable (s.subscribe p (.step t)) p := by
      rw [State.subscribe_frame]
      exact h.transfer rfl rfl fun _ hx => hx
    refine hwaits.tail (.moved _ _ fun goal q hq => ?_) |>.tail (.idled _)
    cases hq
    exact .inl hstays

theorem changes_advance (s : State σ) (goal : Goal) (k : Nat) (progress : Progress) :
    Changes H t claims completes s (advance s t goal k progress) := by
  unfold advance
  split
  · exact changes_arrive s goal _
  · exact (Change.changes (.moved s _ (by simp))).tail (.queued _) |>.tail (.idled _)
  · exact (Change.changes (.moved s _ (by simp))).tail (.timed _ _) |>.tail (.idled _)

/-- A promise that is completed as soon as it is made. -/
theorem complete_newPromise (s : State σ) (o : Outcome) :
    s.newPromise.2.complete s.newPromise.1 o =
      { s with promises := s.promises ++ [⟨some o, []⟩] } := by
  simp [State.newPromise, State.complete]

theorem changes_refuseForeign (s : State σ) (goal : Goal) :
    Changes H t claims completes s (refuseForeign H s t goal) := by
  refine (changes_raise ValueFault.foreignFuture.body s).trans ?_
  unfold refuseForeign
  dsimp only
  rw [complete_newPromise]
  -- The task may be said to move before the promise is made.
  let refusal : Option Outcome := some (.error (H.raise ValueFault.foreignFuture.body s.host).1)
  let raised : State σ := { s with host := (H.raise ValueFault.foreignFuture.body s.host).2 }
  have hmoved : Changes H t claims completes raised
      (raised.setPhase t (.blocked goal s.promises.length)) := by
    refine Change.changes (.moved raised _ fun g q hq => ?_)
    cases hq
    exact .inr (Nat.le_refl _)
  have hboth : State.setPhase { raised with promises := raised.promises ++ [⟨refusal, []⟩] } t
      (.blocked goal s.promises.length) =
      { raised.setPhase t (.blocked goal s.promises.length) with
        promises := (raised.setPhase t (.blocked goal s.promises.length)).promises ++
          [⟨refusal, []⟩] } := by
    unfold State.setPhase
    dsimp only
    split <;> rfl
  have hpromised := hmoved.tail (.promised _ refusal)
  rw [← hboth] at hpromised
  exact hpromised.tail (.queued _) |>.tail (.idled _)

theorem changes_await (s : State σ) (goal : Goal) (v : Value) :
    Changes H t claims completes s (await H s t goal v) := by
  unfold await
  split
  · next k =>
    have hstart : Changes H t claims completes s { s with host := (H.start k s.host).2 } :=
      Change.changes (.asked (.start k s.host))
    exact (hstart.tail (.granted _)).trans (changes_advance _ goal k _)
  · split
    · next hp =>
      obtain ⟨before, after, hmem, -⟩ := List.lookup_eq_some_iff.1 hp
      exact changes_block s goal (.future (by simp [hmem]))
    · exact changes_arrive s goal _
    · exact changes_refuseForeign s goal
  · exact changes_arrive s goal _
  · exact changes_arriveShielded s goal _ _
  · exact changes_arrive s goal _

/-! ## Groups -/

@[simp] theorem groups_subscribe (s : State σ) (p : Nat) (j : Job) :
    (s.subscribe p j).groups = s.groups := by
  rw [State.subscribe_frame]

/-- The first task of a group gets the next promise, and the group waits for it. -/
theorem launch_cons (s : State σ) (group : Nat) (errand : Errand) (rest : List Errand) :
    launch s group (errand :: rest) =
      let u := (s.newTask errand).2.subscribe s.promises.length (.notice group s.promises.length)
      (s.promises.length :: (launch u group rest).1, (launch u group rest).2) := by
  have hpromise : ((s.newTask errand).2.tasks[(s.newTask errand).1]?.map (·.promise)).getD 0 =
      s.promises.length := by simp [State.newTask, State.newPromise, State.enqueue]
  rw [launch]
  dsimp only
  rw [hpromise]

@[simp] theorem groups_launch (group : Nat) (errands : List Errand) (s : State σ) :
    (launch s group errands).2.groups = s.groups := by
  induction errands generalizing s with
  | nil => rfl
  | cons errand rest ih =>
    rw [launch_cons]
    exact (ih _).trans (groups_subscribe ..)

/-- The promises of a group's tasks have just been made. -/
theorem le_of_mem_launch {group m : Nat} {errands : List Errand} {s : State σ}
    (h : m ∈ (launch s group errands).1) : s.promises.length ≤ m := by
  induction errands generalizing s with
  | nil => cases h
  | cons errand rest ih =>
    rw [launch_cons] at h
    rcases List.mem_cons.1 h with rfl | h
    · exact Nat.le_refl _
    · have hgrown : s.promises.length ≤
          ((s.newTask errand).2.subscribe s.promises.length
            (.notice group s.promises.length)).promises.length := by
        simp [State.newTask, State.newPromise, State.enqueue, State.subscribe]
      exact Nat.le_trans hgrown (ih h)

/-- A group is launched before its members are entered in it. -/
theorem changes_launch {group n q : Nat} (errands : List Errand) {s : State σ}
    (h : s.groups[group]? = some ⟨[], n, q⟩) :
    Changes H t claims completes s (launch s group errands).2 := by
  induction errands generalizing s with
  | nil => exact .refl
  | cons errand rest ih =>
    have htask : Changes H t claims completes s (s.newTask errand).2 :=
      Change.changes (.tasked s errand)
    have hfresh : (s.newTask errand).2.promises[s.promises.length]? = some ⟨none, []⟩ :=
      List.getElem?_concat_length
    rw [launch_cons]
    refine (htask.tail (.subscribed _ _ rfl (by simp) (.inr ⟨group, n, q, rfl, h, hfresh⟩))).trans
      (ih ?_)
    rw [groups_subscribe]
    exact h

/-- A group whose members have no tasks yet. -/
def State.opened (s : State σ) (n : Nat) : State σ :=
  { s.newPromise.2 with groups := s.groups ++ [⟨[], n, s.promises.length⟩] }

/-- A group is made before anybody waits for it. -/
theorem changes_group (s : State σ) (errands : List Errand) :
    let launched := launch (s.opened errands.length) s.groups.length errands
    Changes H t claims completes s
      { launched.2 with
        groups := launched.2.groups.set s.groups.length
          ⟨launched.1, errands.length, s.promises.length⟩ } := by
  intro launched
  have hopened : (s.opened errands.length).groups[s.groups.length]? =
      some ⟨[], errands.length, s.promises.length⟩ := List.getElem?_concat_length
  have hlaunch : Changes H t claims completes s launched.2 :=
    (Change.changes (.grouped s errands.length)).trans (changes_launch errands hopened)
  have hgroup : launched.2.groups[s.groups.length]? =
      some ⟨[], errands.length, s.promises.length⟩ := by
    rw [groups_launch]
    exact hopened
  refine hlaunch.tail (.regrouped _ hgroup _ errands.length (.inr ⟨rfl, fun m hm => ?_⟩))
  have hle := le_of_mem_launch hm
  simp only [State.opened, State.newPromise, List.length_append, List.length_singleton] at hle
  exact hle

theorem changes_gather (s : State σ) (goal : Goal) (errands : List Errand) :
    Changes H t claims completes s (gather s t goal errands) := by
  unfold gather
  split
  · exact changes_arrive s goal _
  · refine (changes_group s errands).trans (changes_block _ goal (.group ?_))
    refine List.mem_map.2 ⟨_, List.mem_set ?_ _, rfl⟩
    simp [State.opened]

/-! ## Performing an effect -/

theorem changes_acceptDirect (s : State σ) (goal : Goal) (o : Outcome) :
    Changes H t claims completes s (acceptDirect H s t goal o) := by
  unfold acceptDirect
  split
  · exact changes_arriveShielded s goal _ _
  · split
    · exact changes_await s goal _
    · exact changes_arrive s goal _

/-- Calls a function and grants what is asked for meanwhile. -/
theorem changes_call (s : State σ) (f : Value) (args : List Value) :
    Changes H t claims completes s
      (grantAll H { s with host := (H.call f args s.host).2 }) :=
  (Change.changes (.asked (.call f args s.host))).tail (.granted _)

theorem changes_performDirect (s : State σ) (goal : Goal) (f : Value) (d : Descriptor) :
    Changes H t claims completes s (performDirect H s t goal f d) :=
  (changes_call s f d.args).trans (changes_acceptDirect _ goal _)

theorem changes_acceptCallback {effect : Nat} (h : claims effect) (s : State σ) (goal : Goal)
    {p : Nat} (hp : Awaitable s p) (d : Descriptor) (o : Outcome) :
    Changes H t claims completes s (acceptCallback H s t goal effect p d o) := by
  unfold acceptCallback
  split
  · next e =>
    split
    · have hclaim : Changes H t claims completes s (s.claim effect).2 :=
        Change.changes (.claimed s h)
      dsimp only
      split
      · exact hclaim.trans (changes_arriveShielded _ goal _ e)
      · have hclaimed := hp.claim effect
        refine (hclaim.tail (.noted _ _)).trans (changes_block _ goal ?_)
        exact hclaimed.transfer rfl rfl fun _ hx => hx
    · exact changes_arrive s goal _
  · split
    · refine (Change.changes (.tasked s _)).trans (changes_block _ goal ?_)
      exact hp.transfer rfl rfl fun _ hx => hx
    · exact changes_block s goal hp

theorem changes_performCallback (s : State σ) (h : claims s.effects.length) (goal : Goal)
    (f : Value) (d : Descriptor) :
    Changes H t claims completes s (performCallback H s t goal f d) :=
  (Change.changes (.opened s d)).trans (changes_call _ f _) |>.trans
    (changes_acceptCallback h _ goal (Awaitable.grantAll (.effect (by simp))) d _)

/-- The effect is performed by calling a function with a completion callback. -/
def CallsBack (context : Value) (d : Descriptor) (f : Value) : Prop :=
  d.mode = .callback ∧ Context.lookup context d.path = .ok f ∧ f.isCallable = true

theorem classify_eq_callback {v : Value} {mode : Mode} :
    Context.classify v mode = .callback ↔ mode = .callback ∧ v.isCallable = true := by
  unfold Context.classify
  cases v.isCallable with
  | true => by_cases h : mode = .callback <;> simp [h]
  | false => simp

/-- A new effect comes about, and may be claimed, only where a function is called with a
completion callback. -/
theorem changes_perform (s : State σ) (goal : Goal) (d : Descriptor)
    (h : ∀ f, CallsBack context d f → claims s.effects.length) :
    Changes H t claims completes s (perform H context s t goal d) := by
  unfold perform
  split
  · exact (Change.changes (.noted s _)).trans (changes_gather _ goal _)
  · split
    · next fault _ =>
      exact (changes_complain (fault.complaint (.tuple d.path) d.path) s).trans
        (changes_arriveShielded _ goal _ _)
    · next f hf =>
      have hnote : ∀ how, Changes H t claims completes s (s.note (.resolving d how)) :=
        fun how => Change.changes (.noted s _)
      dsimp only
      split
      · exact (hnote _).trans (changes_arrive _ goal _)
      · exact (hnote _).trans (changes_performDirect _ goal _ d)
      · next hhow =>
        obtain ⟨hmode, hcallable⟩ := classify_eq_callback.1 hhow
        exact (hnote _).trans
          (changes_performCallback (s.note _) (h f ⟨hmode, hf, hcallable⟩) goal _ d)

/-! ## The ends of tasks -/

theorem changes_finish (s : State σ)
    (h : ∀ task, s.tasks[t]? = some task → completes task.promise) (report : Option Report)
    (o : Outcome) : Changes H t claims completes s (finish s t report o) := by
  unfold finish
  split
  · next task ht =>
    exact (Change.changes (.moved s _ (by simp))).tail (.completed _ (h task ht) o)
      |>.tail (.idled _)
  · exact Change.changes (.idled s)

theorem changes_finishDrive (s : State σ)
    (h : ∀ task, s.tasks[t]? = some task → completes task.promise) (j : Journey)
    (captured : Bool) (o : Outcome) :
    Changes H t claims completes s (finishDrive s t j captured o) :=
  changes_finish s h _ _

@[simp] theorem tasks_claim (s : State σ) (i : Nat) : (s.claim i).2.tasks = s.tasks := by
  rw [State.claim_frame]

@[simp] theorem tasks_complete (s : State σ) (p : Nat) (o : Outcome) :
    (s.complete p o).tasks = s.tasks := by
  rw [State.complete_frame]

theorem changes_finishWatch (s : State σ)
    (h : ∀ task, s.tasks[t]? = some task → completes task.promise) {effect : Nat}
    (hc : claims effect)
    (hp : ∀ pending, s.effects[effect]? = some pending → completes pending.promise)
    (o : Outcome) : Changes H t claims completes s (finishWatch s t effect o) := by
  unfold finishWatch
  split
  · exact changes_finish s h _ _
  · split
    · split
      · exact changes_finish s h _ _
      · next pending hpending =>
        have hclaim : Changes H t claims completes s (s.claim effect).2 :=
          Change.changes (.claimed s hc)
        dsimp only
        split
        · refine (hclaim.tail (.completed _ (hp pending hpending) _)).trans
            (changes_finish _ ?_ _ _)
          simpa using h
        · refine (hclaim.tail (.noted _ _)).trans (changes_finish _ ?_ _ _)
          simpa [State.note] using h
    · exact changes_finish s h _ _

/-! ## Driving -/

theorem changes_deliverRecorded (s : State σ) (j : Journey) (captured : Bool)
    (signal : Signal) :
    Changes H t claims completes s (deliverRecorded H s t j captured signal) := by
  unfold deliverRecorded
  split
  · exact (changes_raise ValueFault.notCount.body s).tail (.turned _ rfl)
  · exact Change.changes (.turned s rfl)

theorem changes_answerDrive (s : State σ)
    (h : ∀ task, s.tasks[t]? = some task → completes task.promise) (j : Journey)
    (captured : Bool) (o : Outcome) :
    Changes H t claims completes s (answerDrive H s t j captured o) := by
  unfold answerDrive
  split
  · exact changes_deliverRecorded s _ captured _
  · split
    · exact changes_deliverRecorded s _ captured _
    · exact changes_finishDrive s h j captured _

theorem changes_leave (s : State σ)
    (h : ∀ task, s.tasks[t]? = some task → completes task.promise) (j : Journey)
    (captured : Bool) (o : Outcome) :
    Changes H t claims completes s (leave s t j captured o) := by
  unfold leave
  split
  · exact changes_finishDrive s h j captured o
  · split
    · exact Change.changes (.turned s rfl)
    · split
      · exact Change.changes (.turned s rfl)
      · exact changes_finishDrive s h j captured _

theorem changes_receive (s : State σ) (j : Journey) (captured : Bool) (item : Value) :
    Changes H t claims completes s (receive H s t j captured item) := by
  unfold receive
  split
  · exact (Change.changes (.noted s _)).tail (.turned _ rfl)
  · split
    · next m _ => exact (changes_raise m.body s).tail (.turned _ rfl)
    · exact (Change.changes (.noted s _)).tail (.turned _ rfl)

theorem changes_noteSignal (s : State σ) (signal : Signal) :
    Changes H t claims completes s (noteSignal s signal) := by
  cases signal with
  | send v => exact .refl
  | throw e => exact Change.changes (.noted s _)

@[simp] theorem host_noteSignal (s : State σ) (signal : Signal) :
    (noteSignal s signal).host = s.host := by
  cases signal <;> rfl

@[simp] theorem tasks_noteSignal (s : State σ) (signal : Signal) :
    (noteSignal s signal).tasks = s.tasks := by
  cases signal <;> rfl

@[simp] theorem tasks_setTimer (s : State σ) (n : Nat) (j : Job) :
    (s.setTimer n j).tasks = s.tasks := rfl

@[simp] theorem tasks_grant (s : State σ) (r : Request) : (grant s r).tasks = s.tasks := by
  unfold grant
  split
  · split
    · dsimp only
      split
      · exact tasks_claim s _
      · exact tasks_claim s _
    · rfl
  · rfl
  · dsimp only
    split
    · rfl
    · exact tasks_complete ..
    · rfl

@[simp] theorem tasks_grantAll (s : State σ) : (grantAll H s).tasks = s.tasks := by
  unfold grantAll
  dsimp only
  generalize (H.drain s.host).1 = requests
  suffices h : ∀ u : State σ, (requests.foldl grant u).tasks = u.tasks from h _
  induction requests with
  | nil => exact fun _ => rfl
  | cons r rest ih => exact fun u => (ih (grant u r)).trans (tasks_grant u r)

/-- The loop once a computation has been resumed, and what was asked for meanwhile is granted. -/
def State.resuming (s : State σ) (H : Host σ) (g : Nat) (signal : Signal) : State σ :=
  grantAll H { noteSignal s signal with host := (H.resume g signal s.host).2 }

theorem changes_resuming (s : State σ) (g : Nat) (signal : Signal) :
    Changes H t claims completes s (s.resuming H g signal) := by
  have hasked : H.Asked (noteSignal s signal).host (H.resume g signal s.host).2 := by
    rw [host_noteSignal]
    exact .resume ..
  exact (changes_noteSignal s signal).tail (.asked hasked) |>.tail (.granted _)

@[simp] theorem tasks_resuming (s : State σ) (g : Nat) (signal : Signal) :
    (s.resuming H g signal).tasks = s.tasks :=
  (tasks_grantAll _).trans (tasks_noteSignal s signal)

/-- What becomes of resuming the innermost computation. -/
theorem deliver_of_active (s : State σ) {j : Journey} {g : Nat} {outer : List Nat}
    (active : j.active = g :: outer) (captured : Bool) (signal : Signal) :
    deliver H s t j captured signal =
      match Host.settle (H.resume g signal s.host).1 with
      | .yielded item => receive H (s.resuming H g signal) t j captured item
      | .returned v => leave (s.resuming H g signal) t j captured (.ok v)
      | .raised e => leave (s.resuming H g signal) t j captured (.error e) := by
  simp only [deliver, active, host_noteSignal]
  rfl

theorem changes_deliver (s : State σ)
    (h : ∀ task, s.tasks[t]? = some task → completes task.promise) (j : Journey)
    (captured : Bool) (signal : Signal) :
    Changes H t claims completes s (deliver H s t j captured signal) := by
  cases hactive : j.active with
  | nil =>
    simp only [deliver, hactive]
    exact changes_finishDrive s h j captured _
  | cons g outer =>
    have hresume : Changes H t claims completes s (s.resuming H g signal) := changes_resuming ..
    have hleave : ∀ o, Changes H t claims completes s _ := fun o =>
      hresume.trans (changes_leave _ (by simpa using h) j captured o)
    rw [deliver_of_active s hactive]
    split
    · exact hresume.trans (changes_receive _ j captured _)
    · exact hleave _
    · exact hleave _

theorem changes_beginDrive (s : State σ)
    (h : ∀ task, s.tasks[t]? = some task → completes task.promise) (program : Value)
    (trace : Option Trace) (captured : Bool) :
    Changes H t claims completes s (beginDrive H s t program trace captured) := by
  unfold beginDrive
  split
  · exact Change.changes (.turned s rfl)
  · have hraise : Changes H t claims completes s
        { s with host := (H.raise (Host.notComputation program) s.host).2 } :=
      changes_raise _ s
    refine hraise.trans ?_
    exact changes_finishDrive _ (by exact h) ⟨[], none, trace⟩ captured _

/-! ## Jobs -/

/-- A task that begins to perform an effect completes nothing. -/
theorem changes_beginPerform (s : State σ) (item : Value) :
    Changes H t claims completes s (begin H s t (.perform item)) := by
  unfold begin
  dsimp only
  split
  · exact changes_arriveWith s .answer _
  · exact Change.changes (.turned s rfl)

theorem changes_begin (s : State σ)
    (h : ∀ task, s.tasks[t]? = some task → completes task.promise) (errand : Errand) :
    Changes H t claims completes s (begin H s t errand) := by
  unfold begin
  split
  · exact changes_beginPerform s _
  · exact changes_await s _ _
  · exact changes_beginDrive s h _ _ _
  · exact (Change.changes (.granted s)).trans (changes_gather _ .answer _)

/-- A task that moves keeps its promise. -/
theorem promise_setPhase {s : State σ} {i : Nat} {phase : Phase}
    (h : ∀ task, s.tasks[t]? = some task → completes task.promise) :
    ∀ task, (s.setPhase i phase).tasks[t]? = some task → completes task.promise := by
  intro task ht
  rcases s.setPhase_cases i phase with ⟨old, hold, hu⟩ | hu <;> rw [hu] at ht
  · dsimp only at ht
    rw [List.getElem?_set] at ht
    split at ht
    · next hit =>
      split at ht
      · cases ht
        exact h old (hit ▸ hold)
      · cases ht
    · exact h task ht
  · exact h task ht

@[simp] theorem host_setPhase (s : State σ) (i : Nat) (phase : Phase) :
    (s.setPhase i phase).host = s.host := by
  rw [State.setPhase_frame]

@[simp] theorem host_finish (s : State σ) (k : Nat) (report : Option Report) (o : Outcome) :
    (finish s k report o).host = s.host := by
  unfold finish
  split
  · exact (host_complete ..).trans (host_setPhase ..)
  · rfl

/-- A task's turn completes only what its beginning does. -/
theorem changes_stepTask (s : State σ)
    (h : ∀ errand, s.tasks[t]?.map Task.phase = some (.fresh errand) →
      Changes H t claims completes (s.setPhase t .running)
        (begin H (s.setPhase t .running) t errand)) :
    Changes H t claims completes s (stepTask H s t) := by
  have hrun : Changes H t claims completes s (s.setPhase t .running) :=
    Change.changes (.moved s _ (by simp))
  unfold stepTask
  split
  · next hphase => exact hrun.trans (h _ hphase)
  · next goal k _ =>
    have hwake : H.Asked (s.setPhase t .running).host (H.wake k s.host).2 := by
      rw [host_setPhase]
      exact .wake k s.host
    exact ((hrun.tail (.asked hwake)).tail (.granted _)).trans (changes_advance _ goal k _)
  · split
    · exact hrun.trans (changes_arrive _ _ _)
    · exact .refl
  · exact .refl

theorem changes_notice (s : State σ) {group : Nat}
    (h : ∀ g, s.groups[group]? = some g → completes g.promise) (member : Nat) :
    Changes H t claims completes s (notice s group member) := by
  unfold notice
  split
  · next g e hg _ => exact Change.changes (.completed s (h g hg) _)
  · next g v hg _ =>
    have hnoticed : Changes H t claims completes s
        { s with groups := s.groups.set group ⟨g.members, g.remaining - 1, g.promise⟩ } :=
      Change.changes (.regrouped s hg _ _ (.inl ⟨h g hg, rfl⟩))
    dsimp only
    split
    · split
      · exact hnoticed.tail (.completed _ (h g hg) _)
      · exact hnoticed
    · exact hnoticed
  · exact .refl

/-- To carry out a completion is to complete the promise of the effect, or to do nothing. -/
theorem settle_cases (s : State σ) (effect : Nat) (error value : Value) :
    settle H s effect error value = s ∨
      ∃ pending host o, s.effects[effect]? = some pending ∧
        (host = s.host ∨ ∃ body, host = (H.raise body s.host).2) ∧
        settle H s effect error value = State.complete { s with host } pending.promise o := by
  unfold settle
  split
  · exact .inl rfl
  · next pending hp =>
    split
    · exact .inl rfl
    · refine .inr ?_
      split
      · exact ⟨pending, s.host, _, hp, .inl rfl, rfl⟩
      · dsimp only
        split
        · split
          · exact ⟨pending, s.host, _, hp, .inl rfl, rfl⟩
          · exact ⟨pending, _, _, hp, .inr ⟨_, rfl⟩, rfl⟩
        · exact ⟨pending, _, _, hp, .inr ⟨_, rfl⟩, rfl⟩

theorem changes_settle (s : State σ) {effect : Nat}
    (h : ∀ pending, s.effects[effect]? = some pending → completes pending.promise)
    (error value : Value) :
    Changes H t claims completes s (settle H s effect error value) := by
  rcases settle_cases (H := H) s effect error value with hsame | ⟨pending, host, o, hp, hhost, hu⟩
  · rw [hsame]
  · rw [hu]
    rcases hhost with rfl | ⟨body, rfl⟩
    · exact Change.changes (.completed s (h pending hp) o)
    · exact (changes_raise body s).tail (.completed _ (h pending hp) o)

/-- The promise that a job may complete. -/
def State.aim? (s : State σ) : Job → Option Nat
  | .step t => s.tasks[t]?.map (·.promise)
  | .notice g _ => s.groups[g]?.map (·.promise)
  | .settle i _ _ => s.effects[i]?.map (·.promise)
  | .fulfil p _ => some p
  | .invoke .. | .stop => none

/-- A job, other than the one that stops the loop, makes small changes only. -/
theorem changes_runJob (s : State σ) {j : Job} (hstep : ∀ i, j = .step i → i = t)
    (hstop : j ≠ .stop) (h : ∀ p, s.aim? j = some p → completes p) :
    Changes H t claims completes s (runJob H s j) := by
  cases j with
  | step i =>
    obtain rfl := hstep i rfl
    refine changes_stepTask s fun errand _ => changes_begin _ (promise_setPhase ?_) errand
    exact fun task ht => h task.promise (by simp [State.aim?, ht])
  | notice group member =>
    exact changes_notice s (fun g hg => h g.promise (by simp [State.aim?, hg])) member
  | settle effect error value =>
    exact changes_settle s (fun e he => h e.promise (by simp [State.aim?, he])) error value
  | fulfil p o => exact Change.changes (.completed s (h p rfl) o)
  | invoke f args => exact changes_call s f args
  | stop => exact absurd rfl hstop

/-- A job is the turn of one task, or of none; then it may count as done on behalf of any
task. -/
theorem exists_changes_runJob {P : Nat → Prop} (s : State σ) {j : Job} (somebody : ∃ k, P k)
    (turn : ∀ k, j = .step k → P k) (hstop : j ≠ .stop)
    (h : ∀ p, s.aim? j = some p → completes p) :
    ∃ k, P k ∧ Changes H k claims completes s (runJob H s j) := by
  cases j with
  | step k => exact ⟨k, turn k rfl, changes_runJob s (fun _ h => (Job.step.inj h).symm) hstop h⟩
  | _ =>
    obtain ⟨k, hk⟩ := somebody
    exact ⟨k, hk, changes_runJob s (fun _ h => by cases h) hstop h⟩

/-! ## Steps on behalf of a task -/

/-- **A step that is no job goes on, and makes small changes only.** -/
theorem step_of_task (s : State σ) (htask : s.control.task? = some t)
    (hopen : ∀ k goal d f, s.control = .perform k goal d → CallsBack context d f →
      claims s.effects.length)
    (h : ∀ task, s.tasks[t]? = some task → completes task.promise)
    (hwatch : ∀ i o, s.control = .outcome t (.watch i) o →
      claims i ∧ ∀ pending, s.effects[i]? = some pending → completes pending.promise) :
    ∃ u, step H context s = .next u ∧ Changes H t claims completes s.toIdle u := by
  unfold step
  cases hc : s.control with
  | idle => rw [hc] at htask; cases htask
  | perform i goal d =>
    rw [hc] at htask
    cases htask
    exact ⟨_, rfl, changes_perform s.toIdle goal d fun f => hopen t goal d f hc⟩
  | outcome i goal o =>
    rw [hc] at htask
    cases htask
    cases goal with
    | answer => exact ⟨_, rfl, changes_finish s.toIdle h none o⟩
    | watch effect =>
      obtain ⟨hclaim, hpending⟩ := hwatch effect o hc
      exact ⟨_, rfl, changes_finishWatch s.toIdle h hclaim hpending o⟩
    | drive j captured => exact ⟨_, rfl, changes_answerDrive s.toIdle h j captured o⟩
  | deliver i j captured signal =>
    rw [hc] at htask
    cases htask
    exact ⟨_, rfl, changes_deliver s.toIdle h j captured signal⟩

/-! ## Steps that may claim and complete anything -/

/-- Small changes that may claim and complete anything. -/
abbrev FreeChanges (H : Host σ) (t : Nat) : State σ → State σ → Prop :=
  Changes H t (fun _ => True) (fun _ => True)

variable (H) in
theorem freeChanges_runJob (s : State σ) {j : Job} (hstop : j ≠ .stop) :
    ∃ t, FreeChanges H t s (runJob H s j) := by
  obtain ⟨t, -, hchanges⟩ := exists_changes_runJob (P := fun _ => True) s ⟨0, trivial⟩
    (fun _ _ => trivial) hstop fun _ _ => trivial
  exact ⟨t, hchanges⟩

variable (H context) in
theorem freeChanges_step (s : State σ) (htask : s.control.task? = some t) :
    ∃ u, step H context s = .next u ∧ FreeChanges H t s.toIdle u :=
  step_of_task s htask (fun _ _ _ _ _ _ => trivial) (fun _ _ => trivial)
    fun _ _ _ => ⟨trivial, fun _ _ => trivial⟩

variable (H context) in
theorem step_of_idle {s : State σ} (hidle : s.control = .idle) :
    step H context s = stepIdle H s := by
  unfold step
  rw [hidle]

variable (H context) in
/-- A task is about to resume the innermost computation that it drives. -/
theorem step_of_deliver {s : State σ} {j : Journey} {captured : Bool} {signal : Signal}
    (control : s.control = .deliver t j captured signal) :
    step H context s = .next (deliver H s.toIdle t j captured signal) := by
  unfold step
  rw [control]
  rfl

variable (H context) in
/-- A task has the outcome of the effect that a computation has yielded. -/
theorem step_of_answer {s : State σ} {j : Journey} {captured : Bool} {o : Outcome}
    (control : s.control = .outcome t (.drive j captured) o) :
    step H context s = .next (answerDrive H s.toIdle t j captured o) := by
  unfold step
  rw [control]
  rfl

/-- **What the loop does when nothing is under way**: it runs a job of the current batch,
begins or ends a batch, or lets a timer go off. -/
theorem step_idle_cases {s u : State σ} (hidle : s.control = .idle)
    (h : step H context s = .next u) :
    (∃ n j rest, s.batch = n + 1 ∧ s.ready = j :: rest ∧
        u = runJob H { s with ready := rest, batch := n } j) ∨
      (∃ n, u = { s with batch := n }) ∨
      ∃ timer later, s.ready = [] ∧ s.timers = timer :: later ∧
        u = { s with clock := timer.due, ready := [timer.job], timers := later } := by
  rw [step_of_idle H context hidle] at h
  unfold stepIdle at h
  split at h
  · next n j rest hb hr =>
    cases h
    exact .inl ⟨n, j, rest, hb, hr, rfl⟩
  · cases h
    exact .inr (.inl ⟨0, rfl⟩)
  · next hb =>
    split at h
    · split at h <;> cases h
    · split at h
      · cases h
        exact .inr (.inl ⟨_, rfl⟩)
      · next timer later hr ht =>
        cases h
        exact .inr (.inr ⟨timer, later, hr, ht, rfl⟩)
      · cases h

/-- **What every change keeps is kept by every step**, if it is about nothing of the loop itself
but its number. -/
theorem kept_of_changes {P : State σ → Prop} {s u : State σ}
    (changes : ∀ {t x v}, FreeChanges H t x v → P x → P v)
    (loop : ∀ x v : State σ, v.host = x.host → v.run = x.run → P x → P v)
    (h : step H context s = .next u) (hs : P s) : P u := by
  cases htask : s.control.task? with
  | some t =>
    obtain ⟨v, hv, hchanges⟩ := freeChanges_step H context s htask
    obtain rfl : v = u := Transition.next.inj (hv.symm.trans h)
    exact changes hchanges (loop s _ rfl rfl hs)
  | none =>
    rcases step_idle_cases (Control.eq_idle htask) h with
      ⟨n, j, rest, -, -, rfl⟩ | ⟨n, rfl⟩ | ⟨timer, later, -, -, rfl⟩
    · by_cases hstop : j = .stop
      · subst hstop
        exact loop s _ rfl rfl hs
      · obtain ⟨t, hchanges⟩ := freeChanges_runJob H { s with ready := rest, batch := n } hstop
        exact changes hchanges (loop s _ rfl rfl hs)
    · exact loop s _ rfl rfl hs
    · exact loop s _ rfl rfl hs

end EventLoop
end DescribedEffects
