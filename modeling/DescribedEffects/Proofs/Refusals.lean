import DescribedEffects.Interpreter
import DescribedEffects.Proofs.Descriptor.Flaws
import DescribedEffects.Proofs.EventLoop.Delivery
import DescribedEffects.Proofs.EventLoop.GroupOutcome
import DescribedEffects.Proofs.Harness.Consumption

/-!
# Flawed items are refused whole

An item is read in three places: by whoever performs a single item, by the driver when a
computation yields it, and by the test harness likewise.  When the item is a group, every
member is read once more by the task that performs it.

A flawed item is refused by the first of these readings, and the refusal is all that happens
(`flawed_items_are_refused`).  Performing it makes an exception and ends; the driver and the
harness throw one into the computation that yielded it.  Nothing is looked up or called, no
task is made, nothing is recorded and no expectation is met.

An item that has been read once is not refused later: what it is read as is well formed, and so
is every member that a task of the group is told to perform (`wellFormed_of_onBehalf`).  This
is about one effect and those performed on its behalf (`OnBehalf`), whatever else goes on in the
same loop.
-/

namespace DescribedEffects
namespace EventLoop

variable {σ : Type} {H : Host σ} {context : Value} {host : σ} {number : Nat}
  {earlier : List (Nat × Outcome)} {errand : Errand} {a b c s u : State σ} {t k : Nat}
  {d e : Descriptor} {item : Value}

/-! ## Performing a flawed item -/

/-- Nothing has been done for the task that there is. -/
structure Untouched (s : State (σ × List Act)) : Prop where
  alone : s.tasks.length = 1
  asked : s.host.2 = []
  silent : s.notes = []
  performs : ∀ t goal d, s.control ≠ .perform t goal d

/-- **Performing an item that is not read** makes an exception.  No state on the way looks
anything up, makes a task or asks a program anything. -/
theorem perform_of_malformed (H : Host σ) (context : Value) (host : σ) (number : Nat)
    (earlier : List (Nat × Outcome)) {m : Malformed} (h : Descriptor.parse item = .error m) :
    let start : State (σ × List Act) := State.start (host, []) number earlier (.perform item)
    (∀ s, Transition.Reaches (step H.recorded context) start s → Untouched s) ∧
      ∃ e z, e.body = m.body ∧ Transition.Reaches (step H.recorded context) start z ∧
        ∀ fuel ≥ 6, Transition.runFor (step H.recorded context) fuel start =
          some (.finished (.error e) z) := by
  intro start
  let x := (H.raise m.body host).1
  let told : State (σ × List Act) :=
    { start with
      host := ((H.raise m.body host).2, [])
      ready := []
      tasks := [⟨.running, 0⟩]
      control := .outcome 0 .answer (.error x) }
  let ended : State (σ × List Act) :=
    { told with
      ready := [.stop]
      tasks := [⟨.finished none, 0⟩]
      promises := [⟨some (.error x), []⟩]
      control := .idle }
  let last : State (σ × List Act) := { ended with ready := [], stopping := true }
  have h1 : step H.recorded context start = .next { start with batch := 1 } := rfl
  have h2 : step H.recorded context { start with batch := 1 } = .next told := by
    show Transition.next (begin H.recorded
      { start with ready := [], batch := 0, tasks := [⟨.running, 0⟩] } 0 (.perform item)) = _
    simp only [begin, h]
    rfl
  have h3 : step H.recorded context told = .next ended := rfl
  have h4 : step H.recorded context ended = .next { ended with batch := 1 } := rfl
  have h5 : step H.recorded context { ended with batch := 1 } = .next last := rfl
  have h6 : step H.recorded context last = .done (.finished (.error x) last) := rfl
  refine ⟨fun s hs => ?_, x, last, rfl, ?_, fun fuel hfuel => Transition.runFor_mono hfuel ?_⟩
  · rcases hs.cases_of_next h1 with rfl | hs
    · exact ⟨rfl, rfl, rfl, by simp [start, State.start]⟩
    rcases hs.cases_of_next h2 with rfl | hs
    · exact ⟨rfl, rfl, rfl, by simp [start, State.start]⟩
    rcases hs.cases_of_next h3 with rfl | hs
    · exact ⟨rfl, rfl, rfl, by simp [told]⟩
    rcases hs.cases_of_next h4 with rfl | hs
    · exact ⟨rfl, rfl, rfl, by simp [ended]⟩
    rcases hs.cases_of_next h5 with rfl | hs
    · exact ⟨rfl, rfl, rfl, by simp [ended]⟩
    obtain rfl := hs.eq_of_done h6
    exact ⟨rfl, rfl, rfl, by simp [last, ended]⟩
  · exact .head h1 (.head h2 (.head h3 (.head h4 (.head h5 (.refl last)))))
  · rw [Transition.runFor_succ_of_next h1, Transition.runFor_succ_of_next h2,
      Transition.runFor_succ_of_next h3, Transition.runFor_succ_of_next h4,
      Transition.runFor_succ_of_next h5, Transition.runFor_succ_of_done h6]

/-- A flawed item that is performed on a loop of its own.  The verdict is a malformed-descriptor
exception, and there is nothing else to show for it. -/
def RefusedAlone (H : Host σ) (context item : Value) : Prop :=
  ∀ (fuel number : Nat) (earlier : List (Nat × Outcome)) (host : σ), 6 ≤ fuel →
    let r := Arena.perform ⟨fuel, number, earlier, context⟩ H.recorded item (host, [])
    (∃ e, r.verdict = .error (.raised e) ∧ e.kind = .malformed) ∧ r.host.2 = [] ∧ r.notes = [] ∧
      ∀ s, Transition.Reaches (step H.recorded context)
        (State.start (host, []) number earlier (.perform item)) s → Untouched s

theorem refusedAlone_of_malformed (H : Host σ) (context : Value) {m : Malformed}
    (h : Descriptor.parse item = .error m) : RefusedAlone H context item := by
  intro fuel number earlier host hfuel
  obtain ⟨hall, e, z, he, hz, hrun⟩ := perform_of_malformed H context host number earlier h
  have hperform : Arena.perform ⟨fuel, number, earlier, context⟩ H.recorded item (host, []) =
      z.close (.error (.raised e)) := by
    simp only [Arena.perform, Arena.run, EventLoop.run, hrun fuel hfuel, conclude]
  have hkind : e.kind = .malformed := by
    rw [ExnOf.kind, he, Malformed.kind_body]
  rw [hperform]
  exact ⟨⟨e, rfl, hkind⟩, (hall z hz).asked, (hall z hz).silent, hall⟩

/-! ## Yielding a flawed item to the driver -/

/-- A flawed item that a computation yields to the driver.  The exception is thrown into that
computation, at that point; what it was resumed for is all that was asked of programs, and
nothing was recorded. -/
def RefusedDriven (H : Host σ) (context item : Value) : Prop :=
  ∀ (s : State (σ × List Act)) (t : Nat) (j : Journey) (captured : Bool) (signal : Signal)
    (g : Nat) (outer : List Nat) (host : σ),
    s.control = .deliver t j captured signal → j.active = g :: outer →
    H.resume g signal s.host.1 = (.yielded item, host) →
    ∃ e u, step H.recorded context s = .next u ∧ e.kind = .malformed ∧
      u.control = .deliver t j captured (.throw e) ∧ u.tasks = s.tasks ∧ u.groups = s.groups ∧
      u.notes = s.notes ++ signalNotes signal ∧
      u.host.2 = s.host.2 ++ [.resumed g signal (.yielded item), .drained (H.drain host).1]

theorem refusedDriven_of_malformed (H : Host σ) (context : Value) {m : Malformed}
    (plain : item.isComputation = false) (h : Descriptor.parse item = .error m) :
    RefusedDriven H context item := by
  intro s t j captured signal g outer host control active yields
  let heard : State (σ × List Act) :=
    { noteSignal s.toIdle signal with
      host := (host, s.host.2 ++ [.resumed g signal (.yielded item)]) }
  let granted := grantAll H.recorded heard
  let e := (H.recorded.raise m.body granted.host).1
  have hstep : step H.recorded context s = .next { granted with
      host := (H.recorded.raise m.body granted.host).2
      control := .deliver t j captured (.throw e) } := by
    have hhost : (noteSignal s.toIdle signal).host = s.host := host_noteSignal ..
    have hresume : H.recorded.resume g signal s.host =
        (.yielded item, host, s.host.2 ++ [.resumed g signal (.yielded item)]) := by
      simp only [Host.recorded, yields]
    have hreceive : receive H.recorded granted t j captured item = { granted with
        host := (H.recorded.raise m.body granted.host).2
        control := .deliver t j captured (.throw e) } := by
      rw [receive_of_plain granted t j captured plain, h]
    refine Eq.trans ?_ (congrArg Transition.next hreceive)
    simp only [step, control]
    show Transition.next (deliver H.recorded s.toIdle t j captured signal) = _
    simp only [deliver, active, hhost, hresume, Host.settle]
    rfl
  have hheard : heard.tasks = s.tasks ∧ heard.groups = s.groups ∧
      heard.notes = s.notes ++ signalNotes signal := by
    cases signal with
    | send v => exact ⟨rfl, rfl, (List.append_nil _).symm⟩
    | throw x => exact ⟨rfl, rfl, rfl⟩
  have hacts : granted.host.2 =
      s.host.2 ++ [.resumed g signal (.yielded item), .drained (H.drain host).1] := by
    show (grantAll H.recorded heard).host.2 = _
    rw [host_grantAll]
    exact List.append_assoc ..
  refine ⟨e, _, hstep, ?_, rfl, ?_, ?_, ?_, hacts⟩
  · rfl
  · exact (tasks_grantAll heard).trans hheard.1
  · exact (groups_grantAll heard).trans hheard.2.1
  · exact (notes_grantAll heard).trans hheard.2.2

/-! ## Members of an item that has been read -/

/-- The loop is about to begin a task that was told to perform an item which is not read. -/
structure Refuses (s : State σ) (k : Nat) (item : Value) (m : Malformed) : Prop where
  idle : s.control = .idle
  turn : ∃ n rest, s.batch = n + 1 ∧ s.ready = .step k :: rest
  fresh : s.tasks[k]?.map Task.phase = some (.fresh (.perform item))
  unread : Descriptor.parse item = .error m

/-- A task performs an effect on behalf of another one: it is the same, or a member of a group
that is performed on its behalf. -/
inductive OnBehalf (H : Host σ) (context : Value) (a : State σ) (t : Nat) (d : Descriptor) :
    State σ → Nat → Descriptor → Prop
  | itself {goal : Goal} (performs : a.control = .perform t goal d) : OnBehalf H context a t d a t d
  | member {b c : State σ} {k i : Nat} {e f : Descriptor} {goal : Goal}
      (whole : OnBehalf H context a t d b k e) (mode : e.mode = .parallel) (hi : i < e.args.length)
      (later : Transition.Reaches (step H context) b c)
      (performs : c.control = .perform (b.tasks.length + i) goal f) :
      OnBehalf H context a t d c (b.tasks.length + i) f

theorem OnBehalf.performs (h : OnBehalf H context a t d b k e) :
    ∃ goal, b.control = .perform k goal e := by
  cases h with
  | itself performs => exact ⟨_, performs⟩
  | member _ _ _ _ performs => exact ⟨_, performs⟩

theorem OnBehalf.after (h : OnBehalf H context a t d b k e) :
    Transition.Reaches (step H context) a b := by
  induction h with
  | itself _ => exact .refl a
  | member _ _ _ later _ ih => exact ih.trans later

/-- What a member performs is what its item is read as. -/
theorem Station.reads {f : Descriptor} {goal : Goal} (h : Station H context a k item s)
    (performs : s.control = .perform k goal f) : Descriptor.parse item = .ok f := by
  have hbusy : s.control.task? = some k := by rw [performs]; rfl
  cases h with
  | fresh _ elsewhere => exact absurd hbusy elsewhere
  | refused m x _ _ control => rw [performs] at control; cases control
  | performing d b parse _ performs' _ stands =>
    rcases stands with rfl | hengaged
    · rw [performs] at performs'
      cases performs'
      exact parse
    · cases hengaged with
      | waiting _ _ _ elsewhere => exact absurd hbusy elsewhere
      | answered o control => rw [performs] at control; cases control
  | retired h => exact absurd hbusy h.elsewhere

/-- A member whose item is read is not refused. -/
theorem Station.not_refused (h : Station H context a k item s) (reads : Descriptor.parse item = .ok d)
    {other : Value} {m : Malformed} : ¬Refuses s k other m := by
  rintro ⟨idle, -, fresh, unread⟩
  cases h with
  | fresh phase _ =>
    rw [fresh] at phase
    cases phase
    rw [reads] at unread
    cases unread
  | refused m' x _ _ control => rw [idle] at control; cases control
  | performing d b _ _ performs _ stands =>
    rcases stands with rfl | hengaged
    · rw [idle] at performs
      cases performs
    · cases hengaged with
      | waiting phase phase_eq goal _ =>
        rw [fresh] at phase_eq
        cases phase_eq
        cases goal
      | answered o control => rw [idle] at control; cases control
  | retired h =>
    obtain ⟨report, hphase⟩ := h.finished
    rw [fresh] at hphase
    cases hphase

/-- Where a member of a group is, at any later state. -/
theorem OnBehalf.station
    (reached : Transition.Reaches (step H context) (State.start host number earlier errand) a)
    (h : OnBehalf H context a t d b k e) (mode : e.mode = .parallel) {i : Nat}
    (hi : i < e.args.length) (later : Transition.Reaches (step H context) b c) :
    c = b ∨ Station H context b (b.tasks.length + i) e.args[i] c := by
  obtain ⟨goal, performs⟩ := h.performs
  obtain ⟨ds, htrail⟩ := later.exists_trail (completions (Place.next b e.args.length))
  have nonempty : e.args ≠ [] := List.ne_nil_of_length_pos (Nat.zero_lt_of_lt hi)
  rcases gathering_of_trail (reached.trans h.after) performs mode nonempty htrail with
    hc | ⟨l, hgathering⟩
  · exact .inl hc
  · exact .inr (hgathering.manned.stations i _ (List.getElem?_eq_getElem hi))

/-- **Everything that is performed on behalf of a well-formed effect is well formed.** -/
theorem wellFormed_of_onBehalf
    (reached : Transition.Reaches (step H context) (State.start host number earlier errand) a)
    (well : WellFormed d) (h : OnBehalf H context a t d b k e) : WellFormed e := by
  induction h with
  | itself _ => exact well
  | @member b c k i e f goal whole mode hi later performs ih =>
    obtain ⟨x, hx, hwell⟩ := ih.parse_member mode (List.getElem_mem hi)
    rcases whole.station reached mode hi later with hc | hstation
    · -- The task of a member is made when the group is performed, and not before.
      rw [hc] at performs
      have hplaced : b.tasks.length + i < b.tasks.length := by
        refine placed_of_reaches (reached.trans whole.after) (fun k hk => by cases hk) _ ?_
        rw [performs]
        rfl
      omega
    · rw [hstation.reads performs] at hx
      rwa [Except.ok.inj hx]

/-- No task that a group is given on behalf of an effect is refused, whenever it begins. -/
def NeverRefused (H : Host σ) (context : Value) (a : State σ) (t : Nat) (d : Descriptor) : Prop :=
  ∀ b k e, OnBehalf H context a t d b k e → WellFormed e ∧ (e.mode = .parallel →
    ∀ i < e.args.length, ∀ c, Transition.Reaches (step H context) b c →
      ∀ other m, ¬Refuses c (b.tasks.length + i) other m)

/-- **A well-formed effect is never refused in part.** -/
theorem neverRefused_of_wellFormed
    (reached : Transition.Reaches (step H context) (State.start host number earlier errand) a)
    (well : WellFormed d) : NeverRefused H context a t d := by
  intro b k e h
  have hwell := wellFormed_of_onBehalf reached well h
  refine ⟨hwell, fun mode i hi c later other m hrefuses => ?_⟩
  obtain ⟨x, hx, -⟩ := hwell.parse_member mode (List.getElem_mem hi)
  rcases h.station reached mode hi later with rfl | hstation
  · obtain ⟨goal, performs⟩ := h.performs
    rw [hrefuses.idle] at performs
    cases performs
  · exact hstation.not_refused hx hrefuses

end EventLoop

namespace Harness

variable {σ : Type}

/-! ## Yielding a flawed item to the harness -/

/-- A flawed item that a computation yields to the test harness.  The exception is thrown into
that computation, at that point, and nothing else is different. -/
def Refused (H : Host σ) (item : Value) : Prop :=
  ∀ (matchArgs : Bool) (s : State (σ × List Act)) (signal : Signal) (g : Nat) (outer : List Nat)
    (host : σ), s.control = .deliver signal → s.active = g :: outer →
    H.resume g signal s.host.1 = (.yielded item, host) →
    ∃ e host', e.kind = .malformed ∧ step H.recorded matchArgs s = .next { s with
      host := (host', s.host.2 ++ [.resumed g signal (.yielded item)])
      control := .deliver (.throw e) }

theorem refused_of_malformed (H : Host σ) {item : Value} {m : Malformed}
    (plain : item.isComputation = false) (h : Descriptor.parse item = .error m) :
    Refused H item := by
  intro matchArgs s signal g outer host control active yields
  let heard : State (σ × List Act) :=
    { s with host := (host, s.host.2 ++ [.resumed g signal (.yielded item)]) }
  have hoffered : offered H.recorded s = some (item, heard.host) := by
    simp only [offered, control, active, Host.recorded, yields, heard]
  have hreceive : receive H.recorded matchArgs item heard = failWith H.recorded m.body heard := by
    rw [receive_of_plain plain, h]
  have hfail : failWith H.recorded m.body heard = { s with
      host := ((H.raise m.body host).2, s.host.2 ++ [.resumed g signal (.yielded item)])
      control := .deliver (.throw (H.raise m.body host).1) } :=
    fail_of_ordinary (e := (H.raise m.body host).1) (by rfl) (by rfl) _
  refine ⟨(H.raise m.body host).1, (H.raise m.body host).2, rfl, ?_⟩
  rw [step_of_offered hoffered]
  exact congrArg Transition.next (hreceive.trans hfail)

end Harness

variable {σ : Type}

/-- **A flawed item is refused whole**, by everybody who reads it, and one that has been read is
never refused in part.

Let the descriptors in an item be well formed.  If some element of it is malformed, at whatever
depth, then performing it, or yielding it to the driver or to the test harness, makes a
malformed-descriptor exception and does nothing else.  (A computation that is yielded is no item
of an effect: it is driven and never read.)  If on the other hand it has been read,
the descriptor is well formed; and whenever a task of some loop performs it, no task that works
on its behalf is refused. -/
theorem flawed_items_are_refused (H : Host σ) (context : Value) {item : Value}
    (proper : Proper item) :
    (Flawed item → EventLoop.RefusedAlone H context item ∧
      (item.isComputation = false →
        EventLoop.RefusedDriven H context item ∧ Harness.Refused H item)) ∧
    ∀ d, Descriptor.parse item = .ok d → ∀ host number earlier errand (a : EventLoop.State σ) t goal,
      Transition.Reaches (EventLoop.step H context)
        (EventLoop.State.start host number earlier errand) a →
      a.control = .perform t goal d → EventLoop.NeverRefused H context a t d := by
  refine ⟨fun flawed => ?_, fun d hd host number earlier errand a t goal reached _ => ?_⟩
  · obtain ⟨m, hm⟩ := (flawed_iff proper).1 flawed
    exact ⟨EventLoop.refusedAlone_of_malformed H context hm, fun plain =>
      ⟨EventLoop.refusedDriven_of_malformed H context plain hm,
        Harness.refused_of_malformed H plain hm⟩⟩
  · exact EventLoop.neverRefused_of_wellFormed reached (proper.wellFormed hd)

/-- A group with a malformed element two levels down, behind members that are in order. -/
def flawedGroup : Value :=
  .list [.mode .parallel, .descriptor ⟨.direct, [.text "a"], [], none⟩, .list [.text "b"],
    .tuple [.mode .parallel, .list [.mode .callback, .list []]]]

/-- The group without it. -/
def soundGroup : Value :=
  .list [.mode .parallel, .descriptor ⟨.direct, [.text "a"], [], none⟩, .list [.text "b"]]

/-- The flaw of the first group is found before anything is done for the members in front of
it, and the second group is performed without a refusal. -/
theorem nested_flaw_is_found_first :
    let context : Value := .record [(.text "a", .int 1), (.text "b", .int 2)]
    let start : EventLoop.State (Site (List Request)) :=
      EventLoop.State.start ⟨[], 0, 0⟩ 0 [] (.perform soundGroup)
    EventLoop.RefusedAlone EventLoop.hasty.still context flawedGroup ∧
      EventLoop.RefusedDriven EventLoop.hasty.still context flawedGroup ∧
      Harness.Refused EventLoop.hasty.still flawedGroup ∧
      ∃ a d, Transition.Reaches (EventLoop.step EventLoop.hasty.still context) start a ∧
        Descriptor.parse soundGroup = .ok d ∧ a.control = .perform 0 .answer d ∧
        EventLoop.NeverRefused EventLoop.hasty.still context a 0 d := by
  intro context start
  have hsegments : ∀ s ∈ [Value.text "a"], s.isSegment = true := by simp [Value.isSegment]
  have hwell : Proper (.descriptor ⟨.direct, [.text "a"], [], none⟩) :=
    .made (.call (by decide) (List.cons_ne_nil _ _) hsegments)
  have hcall : ∀ items, (∀ members, items ≠ .mode .parallel :: members) →
      Proper (.list items) := by
    intro items hitems
    refine .single (fun members h => ?_) (by simp)
    cases h
    exact hitems members rfl
  have hnested : Proper (.tuple [.mode .parallel, .list [.mode .callback, .list []]]) := by
    refine .group (.tuple _) fun v hv => ?_
    obtain rfl := List.mem_singleton.1 hv
    exact hcall _ (by simp)
  have hflawed : Proper flawedGroup := by
    refine .group (.list _) fun v hv => ?_
    rcases List.mem_cons.1 hv with rfl | hv
    · exact hwell
    rcases List.mem_cons.1 hv with rfl | hv
    · exact hcall _ (by simp)
    obtain rfl := List.mem_singleton.1 hv
    exact hnested
  have hsound : Proper soundGroup := by
    refine .group (.list _) fun v hv => ?_
    rcases List.mem_cons.1 hv with rfl | hv
    · exact hwell
    obtain rfl := List.mem_singleton.1 hv
    exact hcall _ (by simp)
  have hflaw : Flawed flawedGroup := by
    refine .member (v := .tuple [.mode .parallel, .list [.mode .callback, .list []]]) (.list _)
      (by simp) (.member (.tuple _) (List.mem_singleton_self _) ?_)
    refine .markedPath (m := .callback) (by decide) (.list _) fun p hp => ?_
    cases hp with
    | list _ nonempty _ => exact nonempty rfl
  obtain ⟨halone, hyielded⟩ :=
    (flawed_items_are_refused EventLoop.hasty.still context hflawed).1 hflaw
  obtain ⟨hdriven, hharness⟩ := hyielded rfl
  let d : Descriptor := ⟨.parallel, [], [.descriptor ⟨.direct, [.text "a"], [], none⟩,
    .descriptor ⟨.direct, [.text "b"], [], none⟩], none⟩
  let a := { start with ready := [], tasks := [⟨.running, 0⟩], control := .perform 0 .answer d }
  have hreached : Transition.Reaches (EventLoop.step EventLoop.hasty.still context) start a :=
    .head (t := { start with batch := 1 }) rfl (.head rfl (.refl _))
  exact ⟨halone, hdriven, hharness, a, d, hreached, rfl, rfl,
    (flawed_items_are_refused EventLoop.hasty.still context hsound).2 d rfl _ _ _ _ a 0 .answer
      hreached rfl⟩

end DescribedEffects
