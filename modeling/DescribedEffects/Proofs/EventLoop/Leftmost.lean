import DescribedEffects.Proofs.EventLoop.Dispatching

/-!
# The leftmost failure

All members of a group begin before any of them can be noticed, so a member that fails at once
does not keep those to its right from being dispatched; and of those that fail at once the
leftmost decides, because the failure that counts is the first one and the members begin in
order.

`Told` compares what `beginnings` shows with the completions of the members: those of the
members that do not suspend come first, in order, and every other comes after them.  `Telling`
is the invariant that this holds along the run, and `leftmost_of_trail` draws the conclusion
from what is known of the outcome of a group.  `members_are_dispatched` puts it next to the
calls of the members, for every group of every run of the loop.

`beginnings` is what the loop itself shows.  That the members one expects to fail are among
those it shows with a failure is `failure_of_trail`: an item that is refused, a path that leads
nowhere and a direct call of a function that raises whatever the host does (`FailsAtOnce`).
-/

namespace DescribedEffects
namespace EventLoop

variable {σ : Type} {H : Host σ} {context : Value} {t k : Nat} {goal : Goal} {d : Descriptor}
  {items : List Value} {g : Place} {ds : List (Nat × Outcome)}
  {host : σ} {number : Nat} {earlier : List (Nat × Outcome)} {errand : Errand}

/-! ## Members that do not suspend -/

section

variable {a s u z : State σ} {shown : List (Nat × Option Outcome)} {item : Value}

/-- The turn in which a task begins to perform an item. -/
theorem step_of_fresh {n : Nat} {rest : List Job} (idle : s.control = .idle)
    (batch : s.batch = n + 1) (ready : s.ready = .step k :: rest)
    (fresh : s.tasks[k]?.map Task.phase = some (.fresh (.perform item))) :
    step H context s = .next
      (begin H (({ s with ready := rest, batch := n } : State σ).setPhase k .running) k
        (.perform item)) := by
  let popped : State σ := { s with ready := rest, batch := n }
  have hphase : popped.tasks[k]?.map Task.phase = some (.fresh (.perform item)) := fresh
  rw [step_of_batch H context idle batch ready]
  simp only [runJob, stepTask, popped] at hphase ⊢
  simp only [hphase]

/-- An item that is refused fails at once. -/
theorem atOnce?_of_refused {n : Nat} {rest : List Job} {m : Malformed} (idle : s.control = .idle)
    (batch : s.batch = n + 1) (ready : s.ready = .step k :: rest)
    (fresh : s.tasks[k]?.map Task.phase = some (.fresh (.perform item)))
    (refused : Descriptor.parse item = .error m) :
    ∃ e, atOnce? H context k s = some (.error e) := by
  simp only [atOnce?, step_of_fresh idle batch ready fresh, begin, refused, arriveWith,
    State.arrive, Transition.next?, Option.bind_some]
  exact ⟨_, if_pos rfl⟩

/-- What a member has at once is what performing its effect comes to. -/
theorem atOnce?_of_fresh {n : Nat} {rest : List Job} (idle : s.control = .idle)
    (batch : s.batch = n + 1) (ready : s.ready = .step k :: rest)
    (fresh : s.tasks[k]?.map Task.phase = some (.fresh (.perform item)))
    (parsed : Descriptor.parse item = .ok d) :
    atOnce? H context k s =
      (perform H context (({ s with ready := rest, batch := n } : State σ).setPhase k .running)
        k .answer d).arrived? k := by
  let popped : State σ := { s with ready := rest, batch := n }
  have hidle : (popped.setPhase k .running).toIdle = popped.setPhase k .running := by
    rw [State.setPhase_frame]
    simp only [State.toIdle, popped, idle]
  have hsecond :
      step H context { popped.setPhase k .running with control := .perform k .answer d } =
        .next (perform H context (popped.setPhase k .running) k .answer d) := by
    conv_rhs => rw [← hidle]
    rfl
  simp only [atOnce?, step_of_fresh idle batch ready fresh, begin, parsed, Transition.next?,
    Option.bind_some, popped] at hsecond ⊢
  rw [hsecond]
  rfl

/-- A path that leads nowhere fails at once. -/
theorem arrived?_of_missing {fault : LookupFault} (single : d.mode ≠ .parallel)
    (missing : Context.lookup context d.path = .error fault) :
    ∃ e, (perform H context s k .answer d).arrived? k = some (.error e) := by
  unfold perform
  split
  · next hmode => exact absurd hmode single
  · simp only [missing, arriveShielded]
    exact ⟨_, if_pos rfl⟩

/-- A direct function that raises fails at once. -/
theorem arrived?_of_raises {f : Value} {e : Exn} (direct : d.mode = .direct)
    (found : Context.lookup context d.path = .ok f) (callable : f.isCallable = true)
    (raises : (H.call f d.args s.host).1 = .error e) :
    ∃ e, (perform H context s k .answer d).arrived? k = some (.error e) := by
  have hhow : Context.classify f d.mode = .direct := by simp [Context.classify, callable, direct]
  unfold perform
  split
  · next hmode => rw [direct] at hmode; cases hmode
  · simp only [found, hhow, performDirect, State.note]
    rw [raises]
    exact ⟨_, if_pos rfl⟩

/-- An item whose effect cannot but fail, without suspending. -/
inductive FailsAtOnce (H : Host σ) (context item : Value) : Prop
  | refused (m : Malformed) (parse : Descriptor.parse item = .error m)
  | missing (d : Descriptor) (fault : LookupFault) (parse : Descriptor.parse item = .ok d)
      (single : d.mode ≠ .parallel) (missing : Context.lookup context d.path = .error fault)
  | raises (d : Descriptor) (f : Value) (parse : Descriptor.parse item = .ok d)
      (direct : d.mode = .direct) (found : Context.lookup context d.path = .ok f)
      (callable : f.isCallable = true) (raises : ∀ x, ∃ e, (H.call f d.args x).1 = .error e)

/-- Between turns only a task that has not begun is fresh, and it is to perform its item. -/
theorem Station.phase_of_fresh (hs : Station H context a k item s) (idle : s.control = .idle)
    (hfresh : s.isFresh k = true) :
    s.tasks[k]?.map Task.phase = some (.fresh (.perform item)) := by
  have hpast : ¬ Past k s := fun h => by
    rw [h.not_fresh idle] at hfresh
    cases hfresh
  cases hs with
  | fresh phase => exact phase
  | refused _ _ _ _ control => exact absurd (idle.symm.trans control) Control.noConfusion
  | performing d b _ _ performs _ stands =>
    rcases stands with rfl | hengaged
    · exact absurd (idle.symm.trans performs) Control.noConfusion
    · exact absurd (.engaged hengaged) hpast
  | retired h => exact absurd (.retired h) hpast

/-- What is shown of a member whose effect cannot but fail is a failure. -/
theorem failure_of_mem_beginnings (manned : Manned H context a items g s) {i : Nat}
    {x : Option Outcome} (present : (i, x) ∈ beginnings H context g s)
    (hitem : items[i]? = some item) (fails : FailsAtOnce H context item) :
    ∃ e, x = some (.error e) := by
  unfold beginnings at present
  split at present
  · next k hturn =>
    split at present
    · next hin =>
      obtain ⟨hfirst, -, hfresh⟩ := hin
      obtain ⟨rfl, rfl⟩ := Prod.mk.inj (List.mem_singleton.1 present)
      obtain ⟨idle, n, rest, batch, ready⟩ := turn?_eq_some hturn
      have htask : g.task (k - g.first) = k := Nat.add_sub_cancel' hfirst
      have hstation := manned.stations _ item hitem
      rw [htask] at hstation
      have hphase := hstation.phase_of_fresh idle hfresh
      cases fails with
      | refused m parse => exact atOnce?_of_refused idle batch ready hphase parse
      | missing d fault parse single missing =>
        rw [atOnce?_of_fresh idle batch ready hphase parse]
        exact arrived?_of_missing single missing
      | raises d f parse direct found callable raises =>
        rw [atOnce?_of_fresh idle batch ready hphase parse]
        obtain ⟨e, he⟩ := raises _
        exact arrived?_of_raises direct found callable he
    · cases present
  · cases present

/-- The completion of a member that does not suspend. -/
def atOnceOf (x : Nat × Option Outcome) : Option (Nat × Outcome) := x.2.map (x.1, ·)

theorem atOnceOf_singleton (i : Nat) (x : Option Outcome) :
    [(i, x)].filterMap atOnceOf = (x.map (i, ·)).toList := by
  cases x <;> rfl

/-- The completions so far, the one that comes next included: first those of the members that
do not suspend, in order, and then others. -/
inductive Told (H : Host σ) (context : Value) (g : Place) (shown : List (Nat × Option Outcome))
    (ds others : List (Nat × Outcome)) (s : State σ) : Prop
  | told (same : ds ++ completions g s = shown.filterMap atOnceOf ++ others)
      (quiet : ∀ i < g.size, ∀ d, s.control ≠ .perform (g.task i) .answer d)
  /-- The member that has begun last is about to perform its effect. -/
  | performing (before : List (Nat × Option Outcome)) (i : Nat) (member : i < g.size)
      (d : Descriptor) (split : shown = before ++
        [(i, (step H context s).next?.bind (·.arrived? (g.task i)))])
      (control : s.control = .perform (g.task i) .answer d) (same : ds = before.filterMap atOnceOf)
      (nothing : others = [])

/-- The beginnings and the completions so far. -/
inductive Telling (H : Host σ) (context : Value) (g : Place) (items : List Value)
    (shown : List (Nat × Option Outcome)) (ds : List (Nat × Outcome)) (s : State σ) : Prop
  | launching (k : Nat) (more : k < g.size) (launching : Launching g items k s)
      (order : shown.map Prod.fst = List.range k) (told : Told H context g shown ds [] s)
  | launched (begun : Begun g g.size s) (order : shown.map Prod.fst = List.range g.size)
      (others : List (Nat × Outcome)) (told : Told H context g shown ds others s)

/-- Performing the effect of a member shows a completion if the outcome is there at once. -/
theorem completions_of_performs {i : Nat} (member : i < g.size)
    (performs : s.control = .perform (g.task i) .answer d) (h : step H context s = .next u) :
    completions g u = ((u.arrived? (g.task i)).map (i, ·)).toList := by
  obtain ⟨v, hv, hchanges⟩ := freeChanges_step H context s (t := g.task i) (by rw [performs]; rfl)
  obtain rfl : v = u := Transition.next.inj (hv.symm.trans h)
  have hsame := control_of_changes hchanges fun _ h => by cases h
  unfold State.arrived?
  split
  · next k o hc =>
    obtain rfl : k = g.task i := hsame k (by rw [hc]; rfl)
    rw [completions_of_member member hc, if_pos rfl]
    rfl
  · next hnone => exact completions_of_quiet fun j _ o hc => absurd hc (hnone _ o)

/-- Nobody begins: what has been told of the members that have begun stays true. -/
theorem told_of_step {others : List (Nat × Outcome)} (hs : Told H context g shown ds others s)
    (past : ∀ i < g.size, ∀ d, u.control ≠ .perform (g.task i) .answer d)
    (h : step H context s = .next u) :
    ∃ more, Told H context g shown (ds ++ completions g s) (others ++ more) u ∧
      (more = [] ∨ more = completions g u ∧
        ∀ i < g.size, ∀ d, s.control ≠ .perform (g.task i) .answer d) := by
  cases hs with
  | told same quiet =>
    refine ⟨completions g u, .told ?_ past, .inr ⟨rfl, quiet⟩⟩
    rw [same, List.append_assoc]
  | performing before i member d split control same nothing =>
    refine ⟨[], .told ?_ past, .inl rfl⟩
    have hnext : (step H context s).next? = some u := by rw [h]; rfl
    have hquiet : completions g s = [] :=
      completions_of_control control fun k o ho => by cases ho
    rw [hquiet, List.append_nil, completions_of_performs member control h, split, hnext, nothing,
      same, List.filterMap_append, atOnceOf_singleton, List.append_nil, List.append_nil]
    rfl

/-- The member that begins is told of. -/
theorem told_of_begins (hk : k < g.size) (hs : Told H context g shown ds [] s)
    (hidle : s.control = .idle) (h : step H context s = .next u)
    (how : (∃ m e, Descriptor.parse item = .error m ∧
        u.control = .outcome (g.task k) .answer (.error e)) ∨
      ∃ d, Descriptor.parse item = .ok d ∧ u.control = .perform (g.task k) .answer d) :
    Told H context g (shown ++ [(k, atOnce? H context (g.task k) s)])
      (ds ++ completions g s) [] u := by
  have hnext : (step H context s).next? = some u := by rw [h]; rfl
  have hsofar : ds ++ completions g s = shown.filterMap atOnceOf := by
    cases hs with
    | told same _ => exact same.trans (List.append_nil _)
    | performing _ _ _ _ _ control _ _ =>
      exact absurd (hidle.symm.trans control) Control.noConfusion
  rcases how with ⟨m, e, -, hc⟩ | ⟨d, -, hc⟩
  · refine .told ?_ fun i _ d hd => Control.noConfusion (hc.symm.trans hd)
    have hatOnce : atOnce? H context (g.task k) s = some (.error e) := by
      simp only [atOnce?, hnext, Option.bind_some, hc, State.arrived?, if_pos]
    rw [hatOnce, hsofar, completions_of_member hk hc, List.filterMap_append, List.append_nil]
    rfl
  · refine .performing shown k hk d ?_ hc hsofar rfl
    simp only [atOnce?, hnext, Option.bind_some, hc]

/-- **What a step makes of the beginnings and the completions.** -/
theorem telling_of_step
    (reached : Transition.Reaches (step H context) (State.start host number earlier errand) a)
    {l : Nat} (gathering : Gathering H context a items g ds l s)
    (hs : Telling H context g items shown ds s) (h : step H context s = .next u) :
    Telling H context g items (shown ++ beginnings H context g s) (ds ++ completions g s) u := by
  have hpast := reached.trans gathering.after
  have manned := gathering.manned
  cases hs with
  | launching k more launching order told =>
    cases proceeds_of_step (sound_of_reaches hpast) (addressed_of_reaches hpast) manned launching
      more h with
    | stays staying past quiet arrives =>
      rw [quiet, List.append_nil]
      refine .launching k more staying order ?_
      have hquiet : ∀ i < g.size, ∀ d, u.control ≠ .perform (g.task i) .answer d := fun i _ d hd =>
        (past i (by have hik := staying.performs hd; omega)).not_performs _ d hd
      obtain ⟨es, htold, hes⟩ := told_of_step told hquiet h
      obtain rfl : es = [] := by
        rcases hes with hes | ⟨hes, hnobody⟩
        · exact hes
        · rcases arrives with hnone | ⟨i, d, hik, hperforms⟩
          · exact hes.trans hnone
          · exact absurd hperforms (hnobody i (by omega) d)
      exact htold
    | begins item present begun idle turn how =>
      have horder : (shown ++ beginnings H context g s).map Prod.fst = List.range (k + 1) := by
        rw [turn, List.map_append, order, List.range_succ]
        rfl
      have htold := told_of_begins more told idle h how
      rw [← turn] at htold
      rcases Nat.lt_or_ge (k + 1) g.size with hlt | hge
      · exact .launching (k + 1) hlt begun horder htold
      · have hall : k + 1 = g.size := Nat.le_antisymm more hge
        exact .launched (hall ▸ begun.begun) (hall ▸ horder) [] htold
  | launched begun order others told =>
    have past := begun.past (fun i hi => manned.task_lt hi) h
    rw [beginnings_of_begun begun, List.append_nil]
    obtain ⟨more, htold, -⟩ := told_of_step told (fun i hi d => (past i hi).not_performs _ d) h
    exact .launched (fun i hi => .inl (past i hi)) order _ htold

/-- The first failure among the members that do not suspend is that of the leftmost one. -/
theorem leftmost_failure {n : Nat} (order : shown.map Prod.fst = List.range n) {i : Nat} {e : Exn}
    (fails : (i, some (.error e)) ∈ shown)
    (leftmost : ∀ j < i, ∀ x, (j, some (.error x)) ∉ shown) :
    ∃ before after, shown.filterMap atOnceOf = before ++ (i, .error e) :: after ∧
      ∀ d ∈ before, Outcome.failure? d.2 = none := by
  obtain ⟨left, right, rfl⟩ := List.append_of_mem fails
  refine ⟨left.filterMap atOnceOf, right.filterMap atOnceOf, ?_, fun d hd => ?_⟩
  · rw [List.filterMap_append]
    rfl
  · obtain ⟨⟨j, x⟩, hx, hd⟩ := List.mem_filterMap.1 hd
    obtain ⟨o, rfl, rfl⟩ := Option.map_eq_some_iff.1 hd
    have hlt : j < i := by
      have hsorted := List.pairwise_lt_range (n := n)
      rw [← order, List.map_append, List.pairwise_append] at hsorted
      exact hsorted.2.2 j (List.mem_map_of_mem hx) i (by simp)
    cases o with
    | ok v => rfl
    | error x => exact absurd (List.mem_append_left _ hx) (leftmost j hlt x)

/-- What the completions call for when a member fails without suspending. -/
theorem Told.decided {others : List (Nat × Outcome)} (hs : Told H context g shown ds others s)
    {n : Nat} (order : shown.map Prod.fst = List.range n) {i : Nat} {e : Exn}
    (fails : (i, some (.error e)) ∈ shown)
    (leftmost : ∀ j < i, ∀ x, (j, some (.error x)) ∉ shown)
    (quiet : ∀ i < g.size, ∀ d, s.control ≠ .perform (g.task i) .answer d) :
    groupOutcome? g.size (ds ++ completions g s) = some (.error e) := by
  cases hs with
  | told same _ =>
    obtain ⟨before, after, hsplit, hbefore⟩ := leftmost_failure order fails leftmost
    rw [same, hsplit, List.append_assoc, List.cons_append]
    exact groupOutcome?_of_failure g.size hbefore
  | performing _ j member d _ control _ _ => exact absurd control (quiet j member d)

theorem Telling.exists_told (hs : Telling H context g items shown ds s) :
    ∃ n others, shown.map Prod.fst = List.range n ∧ Told H context g shown ds others s := by
  cases hs with
  | launching k _ _ order told => exact ⟨k, [], order, told⟩
  | launched _ order others told => exact ⟨_, others, order, told⟩

/-- A member that is told of later is not left of one that has been told of. -/
theorem leftmost_append {n : Nat} {more : List (Nat × Option Outcome)}
    (order : (shown ++ more).map Prod.fst = List.range n) {i : Nat} {x : Option Outcome}
    (present : (i, x) ∈ shown) {j : Nat} (hj : j < i) {y : Option Outcome}
    (absent : (j, y) ∉ shown) : (j, y) ∉ shown ++ more := by
  intro hmem
  rcases List.mem_append.1 hmem with hmem | hmem
  · exact absent hmem
  · have hsorted := List.pairwise_lt_range (n := n)
    rw [← order, List.map_append, List.pairwise_append] at hsorted
    have hlt := hsorted.2.2 i (List.mem_map_of_mem present) j (List.mem_map_of_mem hmem)
    exact absurd hlt (Nat.not_lt.2 hj.le)

/-- The outcome that has reached a task that is no member is no completion of a member. -/
theorem completions_of_stranger (stranger : t < g.first) {o : Outcome}
    (control : s.control = .outcome t goal o) : completions g s = [] := by
  refine completions_of_quiet fun i _ x hx => ?_
  rw [control] at hx
  obtain rfl := (Control.outcome.inj hx).1
  exact absurd stranger (Nat.not_lt.2 (Nat.le_add_right ..))

/-- The completion that comes next counts as well. -/
theorem Gathering.gives_next
    (reached : Transition.Reaches (step H context) (State.start host number earlier errand) a)
    (hs : Gathering H context a items g ds k s) (stranger : t < g.first)
    (hend : Waits t goal g.promise s ∨
      ∃ o, s.outcome? g.promise = some o ∧ s.control = .outcome t goal o) {o : Outcome}
    (decided : groupOutcome? g.size (ds ++ completions g s) = some o) :
    Gives H context t goal o s := by
  rcases hend with hw | ⟨x, hx, hc⟩
  · by_cases hnone : completions g s = []
    · rw [hnone, List.append_nil] at decided
      exact hs.gives reached hw decided
    · have hbusy : s.control ≠ .idle := fun hidle =>
        hnone (completions_of_control hidle fun k o => Control.noConfusion)
      obtain ⟨v, hv, -⟩ := step_onward H context hbusy
      obtain ⟨hresolve, hnext⟩ := hs.next hw hv
      obtain ⟨l, -, hgathering⟩ := gathering_of_step reached hs hv
      rcases hnext with hwaits | ⟨hnothing, -⟩
      · exact (hgathering.gives reached hwaits decided).of_reaches (.head hresolve (.refl v))
      · exact absurd hnothing hnone
  · rw [completions_of_stranger stranger hc, List.append_nil, hs.assembled hx] at decided
    obtain rfl := Option.some.inj decided
    exact .answered s (.refl s) hc

/-- After an effect has been performed nobody is about to perform one. -/
theorem quiet_of_performs {k : Nat} (hk : k < s.tasks.length)
    (performs : s.control = .perform k .answer d) (h : step H context s = .next u) (j : Nat)
    (d' : Descriptor) : u.control ≠ .perform j .answer d' := by
  intro hc
  obtain ⟨v, hv, hchanges⟩ := freeChanges_step H context s (t := k) (by rw [performs]; rfl)
  obtain rfl : v = u := Transition.next.inj (hv.symm.trans h)
  obtain rfl := control_of_changes hchanges (fun _ h => by cases h) j (by rw [hc]; rfl)
  exact (Past.engaged (engaged_of_perform hk performs h)).not_performs _ d' hc

/-- **A group with a member that fails without suspending** gives the failure of the leftmost
such member. -/
theorem Telling.gives
    (reached : Transition.Reaches (step H context) (State.start host number earlier errand) a)
    (gathering : Gathering H context a items g ds k s) (hs : Telling H context g items shown ds s)
    (stranger : t < g.first)
    (hend : Waits t goal g.promise s ∨
      ∃ o, s.outcome? g.promise = some o ∧ s.control = .outcome t goal o)
    {i : Nat} {e : Exn} (fails : (i, some (.error e)) ∈ shown)
    (leftmost : ∀ j < i, ∀ x, (j, some (.error x)) ∉ shown) :
    Gives H context t goal (.error e) s := by
  by_cases hperforms : ∃ j < g.size, ∃ d, s.control = .perform (g.task j) .answer d
  · obtain ⟨j, hj, d, hc⟩ := hperforms
    have hbusy : s.control ≠ .idle := fun hidle => Control.noConfusion (hidle.symm.trans hc)
    have hlt : g.task j < s.tasks.length := gathering.manned.task_lt hj
    obtain ⟨v, hv, -⟩ := step_onward H context hbusy
    have hw : Waits t goal g.promise s :=
      hend.resolve_right fun ⟨_, _, ho⟩ => Control.noConfusion (ho.symm.trans hc)
    obtain ⟨hresolve, -⟩ := gathering.next hw hv
    obtain ⟨l, -, hgathering⟩ := gathering_of_step reached gathering hv
    have htelling := telling_of_step reached gathering hs hv
    rw [beginnings_of_busy hbusy, List.append_nil] at htelling
    obtain ⟨n, others, order, told⟩ := htelling.exists_told
    refine Gives.of_reaches (.head hresolve (.refl v)) (hgathering.gives_next reached stranger ?_
      (told.decided order fails leftmost fun i _ d' => quiet_of_performs hlt hc hv _ d'))
    exact (waits_of_step hw hv).imp_right fun ⟨o, ho, _, hc⟩ => ⟨o, outcome_of_step ho hv, hc⟩
  · obtain ⟨n, others, order, told⟩ := hs.exists_told
    exact gathering.gives_next reached stranger hend (told.decided order fails leftmost
      fun j hj d hc => hperforms ⟨j, hj, d, hc⟩)

/-- No outcome but that failure reaches the task. -/
theorem Telling.eq_of_answered (gathering : Gathering H context a items g ds k s)
    (hs : Telling H context g items shown ds s) (stranger : t < g.first) {o : Outcome}
    (outcome : s.outcome? g.promise = some o) (control : s.control = .outcome t goal o)
    {i : Nat} {e : Exn} (fails : (i, some (.error e)) ∈ shown)
    (leftmost : ∀ j < i, ∀ x, (j, some (.error x)) ∉ shown) : o = .error e := by
  obtain ⟨n, others, order, told⟩ := hs.exists_told
  have hdecided := told.decided order fails leftmost
    fun _ _ _ hd => Control.noConfusion (control.symm.trans hd)
  rw [completions_of_stranger stranger control, List.append_nil, gathering.assembled outcome]
    at hdecided
  exact Option.some.inj hdecided

/-- Nothing has been told when a group has just been made. -/
theorem telling_of_launching (hs : Launching g items 0 s) (nonempty : 0 < g.size) :
    Telling H context g items [] [] s := by
  have helsewhere : ∀ i, s.control.task? ≠ some (g.task i) := by
    intro i hi
    rcases hs.busy _ hi with ⟨hlt, -⟩ | heq
    · exact absurd hlt (Nat.not_lt.2 (Nat.le_add_right ..))
    · unfold Place.task at heq
      omega
  refine .launching 0 nonempty hs rfl (.told ?_ fun i _ d hd => helsewhere i (by rw [hd]; rfl))
  exact completions_of_quiet fun i _ o ho => helsewhere i (by rw [ho]; rfl)

/-- What is shown of the members whose effects cannot but fail are failures. -/
def ShowsFailures (H : Host σ) (context : Value) (items : List Value)
    (shown : List (Nat × Option Outcome)) : Prop :=
  ∀ i x item, (i, x) ∈ shown → items[i]? = some item → FailsAtOnce H context item →
    ∃ e, x = some (.error e)

theorem ShowsFailures.append (hs : ShowsFailures H context items shown)
    (manned : Manned H context a items g s) :
    ShowsFailures H context items (shown ++ beginnings H context g s) := by
  intro i x item hmem hitem fails
  rcases List.mem_append.1 hmem with hmem | hmem
  · exact hs i x item hmem hitem fails
  · exact failure_of_mem_beginnings manned hmem hitem fails

/-- **Every stretch of the run in which a member begins.** -/
theorem telling_of_trail
    (reached : Transition.Reaches (step H context) (State.start host number earlier errand) a)
    (performs : a.control = .perform t goal d) (mode : d.mode = .parallel)
    (h : Transition.Trail (resolve H context t)
      (beginnings H context (Place.next a d.args.length)) a shown z) (begun : shown ≠ []) :
    let g := Place.next a d.args.length
    ∃ ds l, Gathering H context a d.args g ds l z ∧
      (Telling H context g d.args shown ds z ∧ ShowsFailures H context d.args shown) ∧
      (Waits t goal g.promise z ∨
        ∃ o, z.outcome? g.promise = some o ∧ z.control = .outcome t goal o) := by
  intro g
  have hquiet : beginnings H context g a = [] :=
    beginnings_of_busy fun hidle => Control.noConfusion (hidle.symm.trans performs)
  cases h with
  | refl => exact absurd rfl begun
  | @head _ v _ ms first hrest =>
  obtain rfl := Transition.next.inj (first.symm.trans (resolve_of_parallel H context performs mode))
  rw [hquiet, List.nil_append] at begun ⊢
  by_cases nonempty : d.args = []
  · rw [nonempty] at hrest
    cases hrest with
    | refl => exact absurd rfl begun
    | head first' _ => rw [resolve_of_outcome (by rfl)] at first'; cases first'
  · obtain ⟨u, hstep, hgathering, hwaits⟩ := gathering_of_perform reached performs mode nonempty
    have hlaunching := launching_of_perform reached performs mode nonempty hstep
    obtain rfl := Transition.next.inj (hstep.symm.trans (step_of_parallel H context performs mode))
    refine Gathering.carry (fun shown ds s =>
        Telling H context g d.args shown ds s ∧ ShowsFailures H context d.args shown) reached
      (fun gathering inv h => ⟨telling_of_step reached gathering inv.1 h,
        inv.2.append gathering.manned⟩) hgathering hwaits
      ⟨telling_of_launching hlaunching (List.length_pos_iff.2 nonempty), ?_⟩ hrest
    intro i x item hmem
    cases hmem

/-- **A member whose effect cannot but fail is shown with a failure.** -/
theorem failure_of_trail
    (reached : Transition.Reaches (step H context) (State.start host number earlier errand) a)
    (performs : a.control = .perform t goal d) (mode : d.mode = .parallel)
    (h : Transition.Trail (resolve H context t)
      (beginnings H context (Place.next a d.args.length)) a shown z) {i : Nat}
    {x : Option Outcome} (present : (i, x) ∈ shown) (hitem : d.args[i]? = some item)
    (fails : FailsAtOnce H context item) : ∃ e, x = some (.error e) := by
  obtain ⟨ds, l, -, ⟨-, hshows⟩, -⟩ :=
    telling_of_trail reached performs mode h (List.ne_nil_of_mem present)
  exact hshows i x item present hitem fails

/-- **The leftmost member that fails without suspending decides.** -/
theorem leftmost_of_trail
    (reached : Transition.Reaches (step H context) (State.start host number earlier errand) a)
    (performs : a.control = .perform t goal d) (mode : d.mode = .parallel)
    (h : Transition.Trail (resolve H context t)
      (beginnings H context (Place.next a d.args.length)) a shown z) {i : Nat} {e : Exn}
    (fails : (i, some (.error e)) ∈ shown)
    (leftmost : ∀ j < i, ∀ x, (j, some (.error x)) ∉ shown) :
    Gives H context t goal (.error e) z ∧ ∀ o v, Transition.Reaches (resolve H context t) z v →
      v.control = .outcome t goal o → o = .error e := by
  have stranger : t < (Place.next a d.args.length).first :=
    placed_of_reaches reached (fun k hk => by cases hk) t (by rw [performs]; rfl)
  refine ⟨?_, fun o v hv control => ?_⟩
  · obtain ⟨ds, l, hgathering, ⟨htelling, -⟩, hend⟩ :=
      telling_of_trail reached performs mode h (List.ne_nil_of_mem fails)
    exact htelling.gives reached hgathering stranger hend fails leftmost
  · obtain ⟨more, hmore⟩ := hv.exists_trail (beginnings H context (Place.next a d.args.length))
    have hmem := List.mem_append_left more fails
    obtain ⟨ds, l, hgathering, ⟨htelling, -⟩, hend⟩ :=
      telling_of_trail reached performs mode (h.trans hmore) (List.ne_nil_of_mem hmem)
    obtain ⟨n, _, order, -⟩ := htelling.exists_told
    obtain ⟨x, hx, hc⟩ := hend.resolve_left fun hw => hw.elsewhere (by rw [control]; rfl)
    obtain ⟨-, -, rfl⟩ := Control.outcome.inj (control.symm.trans hc)
    exact htelling.eq_of_answered hgathering stranger hx control hmem
      fun j hj y => leftmost_append order fails hj (leftmost j hj y)

end

/-! ## All runs -/

/-- The tasks of the members of the groups that are nested in a group of `n` members, which
was made from the given state. -/
inductive Nested (H : Host σ) (context : Value) (a : State σ) (n : Nat) : Nat → Prop
  | inside {b : State σ} {k i : Nat} {goal : Goal} {d : Descriptor}
      (member : a.tasks.length ≤ k ∧ k < a.tasks.length + n)
      (way : Transition.Reaches (step H context) a b) (performs : b.control = .perform k goal d)
      (mode : d.mode = .parallel) (hi : i < d.args.length) :
      Nested H context a n (b.tasks.length + i)
  | deeper {b : State σ} {k i : Nat} {goal : Goal} {d : Descriptor}
      (nested : Nested H context a n k) (way : Transition.Reaches (step H context) a b)
      (performs : b.control = .perform k goal d)
      (mode : d.mode = .parallel) (hi : i < d.args.length) :
      Nested H context a n (b.tasks.length + i)

/-- Groups that are made later have members that are made later. -/
theorem le_of_nested {a : State σ}
    (reached : Transition.Reaches (step H context) (State.start host number earlier errand) a)
    (performs : a.control = .perform t goal d) (mode : d.mode = .parallel)
    (h : Nested H context a d.args.length k) : a.tasks.length + d.args.length ≤ k := by
  have ht : t < a.tasks.length :=
    placed_of_reaches reached (fun k hk => by cases hk) t (by rw [performs]; rfl)
  have hlater : ∀ {b : State σ} {k i : Nat} {goal' : Goal} {d' : Descriptor}, a.tasks.length ≤ k →
      Transition.Reaches (step H context) a b → b.control = .perform k goal' d' →
      a.tasks.length + d.args.length ≤ b.tasks.length + i := by
    intro b k i goal' d' hk way performs'
    rcases way.cases_of_next (step_of_parallel H context performs mode) with rfl | hway
    · obtain ⟨rfl, -, -⟩ := Control.perform.inj (performs.symm.trans performs')
      exact absurd ht (Nat.not_lt.2 hk)
    · by_cases nonempty : d.args = []
      · have hle := tasks_le_of_reaches way
        rw [nonempty, List.length_nil]
        omega
      · obtain ⟨u, hstep, hgathering, -⟩ := gathering_of_perform reached performs mode nonempty
        obtain rfl := Transition.next.inj
          (hstep.symm.trans (step_of_parallel H context performs mode))
        have hpos := List.length_pos_iff.2 nonempty
        have hlast := hgathering.manned.task_lt (i := d.args.length - 1)
          (show d.args.length - 1 < d.args.length by omega)
        have hlast : a.tasks.length + (d.args.length - 1) < _ := hlast
        have hle := tasks_le_of_reaches hway
        omega
  induction h with
  | inside member way performs' _ _ => exact hlater member.1 way performs'
  | deeper nested way performs' _ _ ih =>
    exact hlater ((Nat.le_add_right ..).trans ih) way performs'

/-- **Every member of a group is dispatched**, whatever its siblings do.  A task of any loop
performs a group, with any other work in the queue.

* When the outcome of the group reaches the task every member that calls a function has called
  it, once, and these calls are the first ones that the members, or anybody who was made after
  them, have made; they were made in the order of the members.
* The members of groups that are nested in the group are made after its own.
* If a member fails without suspending, and none to its left does, the group fails with that
  exception: it comes to nothing else, and it comes to that unless the loop is ended by another
  task or kept from its queue for good. -/
theorem members_are_dispatched {initial : σ × List Act} {a : State (σ × List Act)}
    (reached : Transition.Reaches (step H.recorded context)
      (State.start initial number earlier errand) a)
    (performs : a.control = .perform t goal d) (mode : d.mode = .parallel) :
    let g := Place.next a d.args.length
    (∀ shown z o, Transition.Trail (resolve H.recorded context t) (calls H context) a shown z →
      z.control = .outcome t goal o →
      ∃ own later, g.own shown = own ++ later ∧
        List.Forall₂ (IsCallOf g.first a.run) (Context.callers context d.args) own ∧
        ∀ c ∈ later, g.first + g.size ≤ c.task) ∧
    (∀ k, Nested H.recorded context a g.size k → g.first + g.size ≤ k) ∧
    ∀ shown z i e, Transition.Trail (resolve H.recorded context t)
        (beginnings H.recorded context g) a shown z →
      (i, some (.error e)) ∈ shown → (∀ j < i, ∀ x, (j, some (.error x)) ∉ shown) →
      Gives H.recorded context t goal (.error e) z ∧
        ∀ o v, Transition.Reaches (resolve H.recorded context t) z v →
          v.control = .outcome t goal o → o = .error e :=
  ⟨fun _ _ _ h control => dispatched_of_trail reached performs mode h control,
    fun _ h => le_of_nested reached performs mode h,
    fun _ _ _ _ h fails leftmost => leftmost_of_trail reached performs mode h fails leftmost⟩

/-- A task of a run that is answered: the run along which everything is shown. -/
theorem trail_of_watchFor {L : Type} {shows : State σ → List L} {a : State σ} {n : Nat}
    {shown : List L} {fate : Fate σ} {goal : Goal}
    (h : Transition.watchFor (resolve H context t) shows n a = some (shown, fate))
    (answered : fate.answer?.map Prod.fst = some goal)
    (quiet : ∀ z o, z.control = .outcome t goal o → shows z = []) :
    ∃ o z, fate = .answered goal o z ∧ z.control = .outcome t goal o ∧
      Transition.Trail (resolve H context t) shows a shown z := by
  obtain ⟨v, ms, htrail, hdone, rfl⟩ := (Transition.exists_watchFor_iff.1 ⟨n, h⟩).exists_trail
  cases fate with
  | answered goal' o z =>
    obtain rfl : goal' = goal := Option.some.inj answered
    obtain ⟨rfl, hc⟩ := eq_of_answered hdone
    rw [quiet v o hc, List.append_nil]
    exact ⟨o, v, rfl, hc, htrail⟩
  | _ => cases answered

/-- A group of a nested group, a function, a path that leads nowhere and a callback-style
function. -/
theorem missing_member_fails_its_group :
    let context : Value := .record [(.text "f", .function "f")]
    let call : Value := .list [.text "f"]
    let d : Descriptor := ⟨.parallel, [], [.list [.mode .parallel, call], call,
      .list [.text "nowhere"], .list [.mode .callback, .text "f"]], none⟩
    let start : State (Site (List Request) × List Act) :=
      State.start (⟨[], 0, 0⟩, []) 0 [] (.perform (.descriptor d))
    let K := hasty.still.recorded
    ∃ a z shown told e own later, Transition.Reaches (step K context) start a ∧
      a.control = .perform 0 .answer d ∧
      Transition.Trail (resolve K context 0) (calls hasty.still context) a shown z ∧
      z.control = .outcome 0 .answer (.error e) ∧ shown.map Call.task = [2, 4, 5] ∧
      (Place.next a 4).own shown = own ++ later ∧
      List.Forall₂ (IsCallOf 1 0) (Context.callers context d.args) own ∧
      (∀ c ∈ later, 5 ≤ c.task) ∧
      Transition.Trail (resolve K context 0) (beginnings K context (Place.next a 4)) a told z ∧
      (2, some (.error e)) ∈ told ∧ Gives K context 0 .answer (.error e) z := by
  intro context call d start K
  let a := { start with ready := [], tasks := [⟨.running, 0⟩], control := .perform 0 .answer d }
  have hreached : Transition.Reaches (step K context) start a :=
    .head (t := { start with batch := 1 }) rfl (.head rfl (.refl _))
  have hcalls : (Transition.watchFor (resolve K context 0) (calls hasty.still context) 60 a).map
      (Prod.map (fun shown => shown.map Call.task) fun fate => fate.answer?.map Prod.fst) =
      some ([2, 4, 5], some .answer) := by cbv
  have hbegins : (Transition.watchFor (resolve K context 0)
      (beginnings K context (Place.next a 4)) 60 a).map
      (Prod.map (fun told => told.map fun x => (x.1, x.2.map fun o => (Outcome.failure? o).isSome))
        fun fate => fate.answer?.map Prod.fst) =
      some ([(0, none), (1, some false), (2, some true), (3, none)], some .answer) := by cbv
  obtain ⟨⟨shown, fate⟩, hrun, hdigest⟩ := Option.map_eq_some_iff.1 hcalls
  obtain ⟨htasks, hanswer⟩ := Prod.mk.inj hdigest
  obtain ⟨⟨told, fate'⟩, hrun', hdigest'⟩ := Option.map_eq_some_iff.1 hbegins
  obtain ⟨htold, hanswer'⟩ := Prod.mk.inj hdigest'
  replace htold : told.map (fun x => (x.1, x.2.map fun o => (Outcome.failure? o).isSome)) =
      [(0, none), (1, some false), (2, some true), (3, none)] := htold
  obtain ⟨o, z, rfl, hcontrol, htrail⟩ := trail_of_watchFor hrun hanswer
    fun v x hc => calls_of_quiet fun _ _ _ hd => Control.noConfusion (hc.symm.trans hd)
  obtain ⟨o', z', rfl, -, htrail'⟩ := trail_of_watchFor hrun' hanswer'
    fun v x hc => beginnings_of_busy fun hidle => Control.noConfusion (hidle.symm.trans hc)
  -- Both are the same run.
  obtain ⟨n, hn⟩ :=
    (Transition.exists_ends_iff _).2 ⟨_, Transition.exists_watchFor_iff.1 ⟨60, hrun⟩⟩
  obtain ⟨m, hm⟩ :=
    (Transition.exists_ends_iff _).2 ⟨_, Transition.exists_watchFor_iff.1 ⟨60, hrun'⟩⟩
  obtain ⟨-, rfl, rfl⟩ := Fate.answered.inj (Transition.runFor_unique hn hm)
  have hmem : ∀ i x, (i, x) ∈ told → (i, x.map fun o => (Outcome.failure? o).isSome) ∈
      [(0, none), (1, some false), (2, some true), (3, none)] := by
    intro i x hx
    rw [← htold]
    exact List.mem_map.2 ⟨(i, x), hx, rfl⟩
  obtain ⟨x, hx⟩ : ∃ x, (2, x) ∈ told := by
    have hthere : 2 ∈ (told.map fun x =>
        (x.1, x.2.map fun o => (Outcome.failure? o).isSome)).map Prod.fst := by
      rw [htold]
      simp
    rw [List.map_map] at hthere
    obtain ⟨⟨i, x⟩, hx, rfl⟩ := List.mem_map.1 hthere
    exact ⟨x, hx⟩
  obtain ⟨e, rfl⟩ := failure_of_trail hreached rfl rfl htrail' hx rfl
    (.missing ⟨.direct, [.text "nowhere"], [], none⟩ _ rfl (by decide) rfl)
  have leftmost : ∀ j < 2, ∀ x, (j, some (.error x)) ∉ told := by
    intro j hj x hx
    have hdigest := hmem j _ hx
    simp [Outcome.failure?] at hdigest
    omega
  obtain ⟨hdispatched, -, hleftmost⟩ := members_are_dispatched hreached rfl rfl
  obtain ⟨own, later, hsplit, hown, hlater⟩ := hdispatched shown z o htrail hcontrol
  obtain ⟨hgives, honly⟩ := hleftmost told z 2 e htrail' hx leftmost
  obtain rfl := honly o z (.refl z) hcontrol
  exact ⟨a, z, shown, told, e, own, later, hreached, rfl, htrail, hcontrol, htasks, hsplit, hown,
    hlater, htrail', hx, hgives⟩

end EventLoop
end DescribedEffects
