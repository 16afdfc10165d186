import DescribedEffects.Proofs.EventLoop.GroupOutcome
import DescribedEffects.Proofs.Driving.Dialogue
import DescribedEffects.Proofs.Manners.World

/-!
# What a loop has in prospect

Functions that have one outcome each may hand it over in many ways, and the loop is then in one
of very many states.  In all of them it is settled what every promise will be completed with,
and somebody is at work on every promise that a task waits for.

A list beside the state says what each promise is expected to be completed with.  `Poised` says
of a task, phase by phase, what it is about: the promise of a task that has not begun is
expected to have the outcome of its item, a task waits for a promise of which the same is
expected as of its own, and a coroutine comes to the outcome of the task that awaits it.
`Carried` says who is at work on a promise: a group, a future, or an effect whose completion is
in the queue or still to be announced.  `Tidy` is all of this for a whole state.

The queue is taken together with a few jobs in hand (`Queued`), since a job that has been taken
off the queue still has to do what it stands for.

`Lasts` says what one state hands on to a later one.  Where a task stands depends on nothing
else (`Poised.lasts`), so a change of the state concerns only the tasks that it is about.
-/

namespace DescribedEffects

/-- The exception of an outcome has been made, if the library is to make one. -/
def Expected.IsThere {W : Type} (x : Expected) (site : Site W) : Prop :=
  ∀ n ∈ x.minted, n < site.items ∨ n = site.items ∧ 0 < site.minted

namespace EventLoop

variable {P S : Type}

/-- A loop beside which functions hand over their outcomes. -/
abbrev Loop (P S : Type) := State (P × Site (Scene S))

/-- What goes on beside the loop. -/
abbrev State.scene (s : Loop P S) : Scene S := s.host.2.world

/-- The job is in the queue, or due later, or in hand. -/
def Queued {σ : Type} (hand : List Job) (s : State σ) (j : Job) : Prop :=
  j ∈ hand ∨ j ∈ s.ready ∨ ∃ tm ∈ s.timers, tm.job = j

/-- The completion of an effect has been reported. -/
def Claimed {σ : Type} (s : State σ) (i : Nat) : Prop :=
  ∃ e, s.effects[i]? = some e ∧ e.claimed = true

/-- The completion of an effect has been reported, or the world is asking for it. -/
def Heard (s : Loop P S) (i : Nat) : Prop :=
  Claimed s i ∨ ∃ error value, .complete s.run i error value ∈ s.scene.requests

/-- What is expected of the outcome that a task gets for its goal. -/
inductive Wants (es : List Expected) (top : Expected) (t p : Nat) : Goal → Expected → Prop
  | answer {x : Expected} (expects : es[p]? = some x) : Wants es top t p .answer x
  | drive (j : Journey) (captured : Bool) (main : t = 0) : Wants es top t p (.drive j captured) top

/-- A promise takes the outcome, however it is reported. -/
def Reportable (o : Outcome) : Prop :=
  ∀ e, o = .error e → e.isOrdinary = true ∧ e.isExhausted = false

/-- What the completion of an effect is to be. -/
def Intends (es : List Expected) (s : Loop P S) (i : Nat) (o : Outcome) : Prop :=
  Reportable o ∧ ∃ e, s.effects[i]? = some e ∧ es[e.promise]? = some ⟨o, none⟩

/-- What a coroutine does that a callback-style function returned. -/
inductive Announces (es : List Expected) (s : Loop P S) (i : Nat) (b : Body) : Prop
  | reports (o : Outcome) (intends : Intends es s i o)
      (report : b.report = some (.reporting s.run i o)) (ends : b.outcome = .ok .null)
  | reported (heard : Heard s i) (report : b.report = none) (ends : b.outcome = .ok .null)
  | fails (e : Exn) (intends : Intends es s i (.error e)) (report : b.report = none)
      (ends : b.outcome = .error e)

/-- What a coroutine does that a task awaits. -/
inductive Bears (es : List Expected) (top : Expected) (s : Loop P S) (t p : Nat) (b : Body) :
    Goal → Prop
  | direct (goal : Goal) (wants : Wants es top t p goal ⟨b.outcome, none⟩)
      (report : b.report = none) : Bears es top s t p b goal
  | watch (i : Nat) (announces : Announces es s i b) (minds : es[p]? = some ⟨.ok .null, none⟩) :
      Bears es top s t p b (.watch i)

/-- A task watches over what a callback-style function returned. -/
inductive Watching (busy : Option (Nat × Goal)) (s : Loop P S) (w i : Nat) : Prop
  | fresh (v : Value) (p : Nat) (task : s.tasks[w]? = some ⟨.fresh (.watch i v), p⟩)
  | asleep (k p : Nat) (task : s.tasks[w]? = some ⟨.asleep (.watch i) k, p⟩)
  | busy (goal : busy = some (w, .watch i))

/-- Somebody is going to report the completion of an effect. -/
inductive Announced (hand : List Job) (busy : Option (Nat × Goal)) (s : Loop P S) (i : Nat) : Prop
  | later (args : List Value) (queued : Queued hand s (.invoke (.done s.run i) args))
  | watched (w : Nat) (watching : Watching busy s w i)
  | asked (error value : Value) (request : .complete s.run i error value ∈ s.scene.requests)

/-- Somebody is at work on a promise. -/
inductive Carried (hand : List Job) (busy : Option (Nat × Goal)) (s : Loop P S) (q : Nat) : Prop
  | group (member : q ∈ s.groups.map Group.promise)
  | effect (i : Nat) (e : PendingEffect) (effect : s.effects[i]? = some e) (promise : e.promise = q)
      (claimed : e.claimed = true → ∃ error value, Queued hand s (.settle i error value))
      (unclaimed : e.claimed = false → Announced hand busy s i)
  | future (o : Outcome) (queued : Queued hand s (.fulfil q o))

/-- A task that waits for a promise will go on. -/
inductive Held (hand : List Job) (busy : Option (Nat × Goal)) (s : Loop P S) (t q : Nat) : Prop
  | opened (ws : List Job) (promise : s.promises[q]? = some ⟨none, ws⟩) (waits : .step t ∈ ws)
      (carried : Carried hand busy s q)
  | there (outcome : s.outcome? q ≠ none) (queued : Queued hand s (.step t))

/-- Where a task with a promise stands in each phase. -/
inductive Poised (K : Callables) (context : Value) (es : List Expected) (top : Expected)
    (hand : List Job) (busy : Option (Nat × Goal)) (s : Loop P S) (t p : Nat) : Phase → Prop
  | fresh (item : Value) (n : Nat) (minor : t ≠ 0)
      (expects : es[p]? = some ((Plan.ofValue item).expects K context n))
      (modest : (Plan.ofValue item).Modest K context)
      (recent : 0 < (Plan.ofValue item).mints K context → n = s.host.2.items)
      (queued : Queued hand s (.step t)) :
      Poised K context es top hand busy s t p (.fresh (.perform item))
  | watcher (i k : Nat) (b : Body) (minor : t ≠ 0) (body : s.scene.bodies[k]? = some b)
      (announces : Announces es s i b) (minds : es[p]? = some ⟨.ok .null, none⟩)
      (queued : Queued hand s (.step t)) :
      Poised K context es top hand busy s t p (.fresh (.watch i (.coroutine k)))
  | running (goal : Goal) (at_work : busy = some (t, goal)) :
      Poised K context es top hand busy s t p .running
  | asleep (goal : Goal) (k : Nat) (b : Body) (body : s.scene.bodies[k]? = some b)
      (bears : Bears es top s t p b goal) (queued : Queued hand s (.step t)) :
      Poised K context es top hand busy s t p (.asleep goal k)
  | blocked (goal : Goal) (q : Nat) (x : Expected) (wants : Wants es top t p goal x)
      (expects : es[q]? = some x) (later : p < q) (held : Held hand busy s t q) :
      Poised K context es top hand busy s t p (.blocked goal q)
  | finished (report : Option Report) (outcome : s.outcome? p ≠ none) :
      Poised K context es top hand busy s t p (.finished report)

/-- What a job is going to do is what is expected. -/
def Fitting (es : List Expected) (s : Loop P S) : Job → Prop
  | .settle i error value => ∃ o, Intends es s i o ∧ error = errorOf o ∧ value = valueOf o
  | .fulfil p o => es[p]? = some ⟨o, none⟩
  | .invoke f args =>
    ∃ i o, f = .done s.run i ∧ Intends es s i o ∧ args = [errorOf o, valueOf o]
  | _ => True

/-- A request reports the completion that is expected. -/
def Reports (es : List Expected) (s : Loop P S) (r : Request) : Prop :=
  ∃ i o, Intends es s i o ∧ r = .reporting s.run i o

/-- **It is settled what the promises will be completed with**, and somebody is at work on what
is waited for.  A few jobs are in hand, and a task may be busy with a goal. -/
structure Tidy (K : Callables) (context : Value) (es : List Expected) (top : Expected)
    (hand : List Job) (busy : Option (Nat × Goal)) (s : Loop P S) : Prop where
  length : es.length = s.promises.length
  settled : ∀ p o, p ≠ 0 → s.outcome? p = some o →
    ∃ x, es[p]? = some x ∧ x.outcome = o ∧ x.IsThere s.host.2
  jobs : ∀ j, Queued hand s j → Fitting es s j
  patient : ∀ pr ∈ s.promises, ∀ j ∈ pr.waiters, j.isPatient = true
  tasks : ∀ t phase p, s.tasks[t]? = some ⟨phase, p⟩ →
    Poised K context es top hand busy s t p phase
  threads : ∀ r ∈ s.scene.threads, Reports es s r
  requests : ∀ r ∈ s.scene.requests, Reports es s r
  futures : ∀ x ∈ s.futures, x.1 < s.scene.futures

/-! ## What lasts -/

/-- What the state hands on to a later one, perhaps when another item has been yielded. -/
structure Passes (es : List Expected) (hand : List Job) (busy : Option (Nat × Goal)) (s : Loop P S)
    (es' : List Expected) (hand' : List Job) (busy' : Option (Nat × Goal)) (u : Loop P S) :
    Prop where
  expects : es <+: es'
  queued : ∀ j, Queued hand s j → Queued hand' u j
  run : u.run = s.run
  groups : s.groups.map Group.promise ⊆ u.groups.map Group.promise
  /-- An effect is claimed by somebody who queues its completion or carries it out at once,
  or when nobody waits for it. -/
  effects : ∀ (i : Nat) (e : PendingEffect), s.effects[i]? = some e →
    ∃ c, u.effects[i]? = some ⟨e.descriptor, c, e.promise⟩ ∧ (e.claimed = true → c = true) ∧
      (e.claimed = false → c = true →
        (∃ error value, Queued hand' u (.settle i error value)) ∨ u.outcome? e.promise ≠ none ∨
          ∀ ws, s.promises[e.promise]? = some ⟨none, ws⟩ → ws = [])
  opened : ∀ (q : Nat) (ws : List Job), s.promises[q]? = some ⟨none, ws⟩ →
    (∃ ws', u.promises[q]? = some ⟨none, ws'⟩ ∧ ws ⊆ ws') ∨
      u.outcome? q ≠ none ∧ ∀ j ∈ ws, Queued hand' u j
  outcome : ∀ q, s.outcome? q ≠ none → u.outcome? q = s.outcome? q
  bodies : ∀ (k : Nat) (b : Body), s.scene.bodies[k]? = some b →
    ∃ b', u.scene.bodies[k]? = some b' ∧ b'.outcome = b.outcome ∧
      (b'.report = b.report ∨ b'.report = none ∧
        ∀ i error value, b.report = some (.complete s.run i error value) → Heard u i)
  watching : ∀ w i, Watching busy s w i → Watching busy' u w i ∨ Claimed u i
  requests : ∀ i error value, .complete s.run i error value ∈ s.scene.requests →
    .complete s.run i error value ∈ u.scene.requests ∨ Claimed u i

/-- What the state hands on to a later one, before another item is yielded. -/
structure Lasts (es : List Expected) (hand : List Job) (busy : Option (Nat × Goal)) (s : Loop P S)
    (es' : List Expected) (hand' : List Job) (busy' : Option (Nat × Goal)) (u : Loop P S) : Prop
    extends Passes es hand busy s es' hand' busy' u where
  items : u.host.2.items = s.host.2.items
  minted : s.host.2.minted ≤ u.host.2.minted

variable {es es' es'' : List Expected} {hand hand' hand'' : List Job}
  {busy busy' busy'' : Option (Nat × Goal)} {s m u : Loop P S}

theorem Lasts.refl (es : List Expected) (hand : List Job) (busy : Option (Nat × Goal))
    (s : Loop P S) : Lasts es hand busy s es hand busy s where
  expects := List.prefix_refl es
  queued _ := id
  run := rfl
  items := rfl
  minted := Nat.le_refl _
  groups := List.Subset.refl _
  effects _ e h := ⟨e.claimed, h, id, fun h h' => by rw [h] at h'; cases h'⟩
  opened _ ws h := .inl ⟨ws, h, List.Subset.refl ws⟩
  outcome _ _ := rfl
  bodies _ b h := ⟨b, h, rfl, .inl rfl⟩
  watching _ _ := .inl
  requests _ _ _ := .inl

section

variable (h : Passes es hand busy s es' hand' busy' u)

include h

theorem Passes.expected {p : Nat} {x : Expected} (hp : es[p]? = some x) : es'[p]? = some x := by
  obtain ⟨more, rfl⟩ := h.expects
  rw [List.getElem?_append_left (List.getElem?_eq_some_iff.1 hp).1, hp]

theorem Passes.claimed {i : Nat} (hi : Claimed s i) : Claimed u i := by
  obtain ⟨e, he, hc⟩ := hi
  obtain ⟨c, hu, hkept, -⟩ := h.effects i e he
  exact ⟨_, hu, hkept hc⟩

theorem Passes.heard {i : Nat} (hi : Heard s i) : Heard u i := by
  rcases hi with hi | ⟨error, value, hr⟩
  · exact .inl (h.claimed hi)
  · rcases h.requests i error value hr with hr | hi
    · exact .inr ⟨error, value, by rwa [h.run]⟩
    · exact .inl hi

theorem Passes.wants {top x : Expected} {t p : Nat} {goal : Goal} (hw : Wants es top t p goal x) :
    Wants es' top t p goal x := by
  cases hw with
  | answer expects => exact .answer (h.expected expects)
  | drive j captured main => exact .drive j captured main

theorem Passes.intends {i : Nat} {o : Outcome} (hi : Intends es s i o) : Intends es' u i o := by
  obtain ⟨ho, e, he, hx⟩ := hi
  obtain ⟨c, hu, -⟩ := h.effects i e he
  exact ⟨ho, _, hu, h.expected hx⟩

theorem Passes.there {q : Nat} (hq : s.outcome? q ≠ none) : u.outcome? q ≠ none := by
  rwa [h.outcome q hq]

theorem Passes.announces {i k : Nat} {b : Body} (hb : s.scene.bodies[k]? = some b)
    (ha : Announces es s i b) :
    ∃ b', u.scene.bodies[k]? = some b' ∧ Announces es' u i b' := by
  obtain ⟨b', hb', hends, hreport⟩ := h.bodies k b hb
  refine ⟨b', hb', ?_⟩
  cases ha with
  | reports o intends report ends =>
    rcases hreport with heq | ⟨hnone, hheard⟩
    · exact .reports o (h.intends intends) (by rw [heq, report, h.run]) (hends.trans ends)
    · exact .reported (hheard i _ _ report) hnone (hends.trans ends)
  | reported heard report ends =>
    have hnone : b'.report = none := by
      rcases hreport with heq | ⟨hnone, -⟩
      · rw [heq, report]
      · exact hnone
    exact .reported (h.heard heard) hnone (hends.trans ends)
  | fails e intends report ends =>
    have hnone : b'.report = none := by
      rcases hreport with heq | ⟨hnone, -⟩
      · rw [heq, report]
      · exact hnone
    exact .fails e (h.intends intends) hnone (hends.trans ends)

theorem Passes.bears {top : Expected} {t p k : Nat} {b : Body} {goal : Goal}
    (hb : s.scene.bodies[k]? = some b) (hbears : Bears es top s t p b goal) :
    ∃ b', u.scene.bodies[k]? = some b' ∧ Bears es' top u t p b' goal := by
  cases hbears with
  | direct goal wants report =>
    obtain ⟨b', hb', hends, hreport⟩ := h.bodies k b hb
    refine ⟨b', hb', .direct goal ?_ ?_⟩
    · rw [hends]
      exact h.wants wants
    · rcases hreport with heq | ⟨hnone, -⟩
      · rw [heq, report]
      · exact hnone
  | watch i announces minds =>
    obtain ⟨b', hb', hannounces⟩ := h.announces hb announces
    exact ⟨b', hb', .watch i hannounces (h.expected minds)⟩

theorem Passes.announced {i : Nat} (ha : Announced hand busy s i) :
    Announced hand' busy' u i ∨ Claimed u i := by
  cases ha with
  | later args queued => exact .inl (.later args (by rw [h.run]; exact h.queued _ queued))
  | watched w watching => exact (h.watching w i watching).imp_left (.watched w)
  | asked error value request =>
    refine (h.requests i error value request).imp_left fun hr => .asked error value ?_
    rwa [h.run]

/-- Somebody is at work on a promise until it is completed, unless its effect is claimed for
nothing. -/
theorem Passes.carried {q : Nat}
    (hclaims : ∀ (i : Nat) (e : PendingEffect), s.effects[i]? = some e → e.promise = q →
      Claimed u i → Claimed s i ∨ (∃ error value, Queued hand' u (.settle i error value)) ∨
        u.outcome? q ≠ none)
    (hc : Carried hand busy s q) : Carried hand' busy' u q ∨ u.outcome? q ≠ none := by
  cases hc with
  | group member => exact .inl (.group (h.groups member))
  | future o queued => exact .inl (.future o (h.queued _ queued))
  | effect i e effect promise claimed unclaimed =>
    obtain ⟨c, hu, hkept, -⟩ := h.effects i e effect
    cases hc : e.claimed with
    | true =>
      obtain rfl := hkept hc
      refine .inl (.effect i _ hu promise (fun _ => ?_) fun hf => by cases hf)
      obtain ⟨error, value, hq⟩ := claimed hc
      exact ⟨error, value, h.queued _ hq⟩
    | false =>
      cases c with
      | true =>
        rcases hclaims i e effect promise ⟨_, hu, rfl⟩ with ⟨e', he', htrue⟩ | hqueued | hthere
        · rw [effect] at he'
          cases he'
          rw [hc] at htrue
          cases htrue
        · exact .inl (.effect i _ hu promise (fun _ => hqueued) fun hf => by cases hf)
        · exact .inr hthere
      | false =>
        rcases h.announced (unclaimed hc) with ha | ⟨e', he', htrue⟩
        · exact .inl (.effect i _ hu promise (fun hf => by cases hf) fun _ => ha)
        · rw [hu] at he'
          cases he'
          cases htrue

theorem Passes.held {t q : Nat} (hheld : Held hand busy s t q) : Held hand' busy' u t q := by
  cases hheld with
  | there outcome queued => exact .there (h.there outcome) (h.queued _ queued)
  | opened ws promise waits carried =>
    rcases h.opened q ws promise with ⟨ws', hws', hsub⟩ | ⟨hthere, hws⟩
    · refine (h.carried (fun i e he hq hclaimed => ?_) carried).elim
        (fun hc => .opened ws' hws' (hsub waits) hc) fun hthere => ?_
      · obtain ⟨c, hu, -, hwhy⟩ := h.effects i e he
        obtain ⟨e', he', htrue⟩ := hclaimed
        rw [hu] at he'
        cases he'
        cases hc : e.claimed with
        | true => exact .inl ⟨e, he, hc⟩
        | false =>
          rcases hwhy hc htrue with hqueued | hthere | hnobody
          · exact .inr (.inl hqueued)
          · exact .inr (.inr (hq ▸ hthere))
          · rw [hnobody ws (hq ▸ promise)] at waits
            cases waits
      · simp [State.outcome?, hws'] at hthere
    · exact .there hthere (hws _ waits)

theorem Passes.fitting {j : Job} (hj : Fitting es s j) : Fitting es' u j := by
  cases j with
  | settle i error value =>
    obtain ⟨o, hi, he, hv⟩ := hj
    exact ⟨o, h.intends hi, he, hv⟩
  | fulfil p o => exact h.expected hj
  | invoke f args =>
    obtain ⟨i, o, hf, hi, hargs⟩ := hj
    exact ⟨i, o, by rw [hf, h.run], h.intends hi, hargs⟩
  | _ => trivial

theorem Passes.reports {r : Request} (hr : Reports es s r) : Reports es' u r := by
  obtain ⟨i, o, hi, hr⟩ := hr
  exact ⟨i, o, h.intends hi, by rw [hr, h.run]⟩

end

theorem Lasts.isThere {x : Expected} (h : Lasts es hand busy s es' hand' busy' u)
    (hx : x.IsThere s.host.2) : x.IsThere u.host.2 := by
  intro n hn
  have hminted := h.minted
  rw [h.items]
  rcases hx n hn with hlt | ⟨heq, hpos⟩
  · exact .inl hlt
  · exact .inr ⟨heq, by omega⟩

/-- **A task that is not at work stands where it stood.** -/
theorem Poised.lasts {top : Expected} {t p : Nat} {phase : Phase}
    (h : Lasts es hand busy s es' hand' busy' u)
    (hs : Poised K context es top hand busy s t p phase) (hphase : phase ≠ .running) :
    Poised K context es' top hand' busy' u t p phase := by
  cases hs with
  | fresh item n minor expects modest recent queued =>
    exact .fresh item n minor (h.expected expects) modest (by rwa [h.items]) (h.queued _ queued)
  | watcher i k b minor body announces minds queued =>
    obtain ⟨b', hb', hannounces⟩ := h.announces body announces
    exact .watcher i k b' minor hb' hannounces (h.expected minds) (h.queued _ queued)
  | running goal at_work => exact absurd rfl hphase
  | asleep goal k b body bears queued =>
    obtain ⟨b', hb', hbears⟩ := h.bears body bears
    exact .asleep goal k b' hb' hbears (h.queued _ queued)
  | blocked goal q x wants expects later held =>
    exact .blocked goal q x (h.wants wants) (h.expected expects) later (h.held held)
  | finished report outcome => exact .finished report (h.there outcome)

theorem Passes.trans (h : Passes es hand busy s es' hand' busy' m)
    (k : Passes es' hand' busy' m es'' hand'' busy'' u) :
    Passes es hand busy s es'' hand'' busy'' u where
  expects := h.expects.trans k.expects
  queued j hj := k.queued j (h.queued j hj)
  run := k.run.trans h.run
  groups := List.Subset.trans h.groups k.groups
  effects i e he := by
    obtain ⟨c, hm, hkept, hclaims⟩ := h.effects i e he
    obtain ⟨c', hu, hkept', hclaims'⟩ := k.effects i _ hm
    refine ⟨c', hu, fun hc => hkept' (hkept hc), fun hc hc' => ?_⟩
    cases c with
    | false =>
      rcases hclaims' rfl hc' with hqueued | hthere | hnobody
      · exact .inl hqueued
      · exact .inr (.inl hthere)
      · by_cases hthere : u.outcome? e.promise = none
        · refine .inr (.inr fun ws hws => ?_)
          rcases h.opened e.promise ws hws with ⟨ws', hws', hsub⟩ | ⟨hm', -⟩
          · rw [hnobody ws' hws'] at hsub
            exact List.subset_nil.1 hsub
          · exact absurd hthere (k.there hm')
        · exact .inr (.inl hthere)
    | true =>
      rcases hclaims hc rfl with ⟨error, value, hq⟩ | hthere | hnobody
      · exact .inl ⟨error, value, k.queued _ hq⟩
      · exact .inr (.inl (k.there hthere))
      · exact .inr (.inr hnobody)
  opened q ws hq := by
    rcases h.opened q ws hq with ⟨ws', hm, hsub⟩ | ⟨hthere, hws⟩
    · rcases k.opened q ws' hm with ⟨ws'', hu, hsub'⟩ | ⟨hthere, hws⟩
      · exact .inl ⟨ws'', hu, List.Subset.trans hsub hsub'⟩
      · exact .inr ⟨hthere, fun j hj => hws j (hsub hj)⟩
    · exact .inr ⟨k.there hthere, fun j hj => k.queued j (hws j hj)⟩
  outcome q hq := (k.outcome q (h.there hq)).trans (h.outcome q hq)
  bodies i b hb := by
    obtain ⟨b', hb', hends, hreport⟩ := h.bodies i b hb
    obtain ⟨b'', hb'', hends', hreport'⟩ := k.bodies i b' hb'
    refine ⟨b'', hb'', hends'.trans hends, ?_⟩
    rcases hreport with heq | ⟨hnone, hheard⟩
    · rw [heq, h.run] at hreport'
      exact hreport'
    · refine .inr ⟨?_, fun i error value hr => k.heard (hheard i error value hr)⟩
      rcases hreport' with heq' | ⟨hnone', -⟩
      · rw [heq', hnone]
      · exact hnone'
  watching w i hw := by
    rcases h.watching w i hw with hw | hc
    · exact k.watching w i hw
    · exact .inr (k.claimed hc)
  requests i error value hr := by
    rcases h.requests i error value hr with hr | hc
    · rw [← h.run] at hr ⊢
      exact k.requests i error value hr
    · exact .inr (k.claimed hc)

theorem Lasts.trans (h : Lasts es hand busy s es' hand' busy' m)
    (k : Lasts es' hand' busy' m es'' hand'' busy'' u) :
    Lasts es hand busy s es'' hand'' busy'' u where
  toPasses := h.toPasses.trans k.toPasses
  items := k.items.trans h.items
  minted := h.minted.trans k.minted

end EventLoop
end DescribedEffects
