import DescribedEffects.Proofs.Manners.Arrival

/-!
# Between two items

The driver is told of one outcome after the other, and in between the computations run.  While
they run the loop itself stands still: tasks, promises and timers are what they were, and only
the counts of items and exceptions go on (`Prompted`).  So what is known of the loop lasts,
whatever is expected of the next item (`Prompted.firm`).

Members of a failed group can be late, and are still at work when the next item is performed.
The one thing that they must not do is make an exception, since exceptions are numbered by item.
A loop is `Clear` if no task is still to make one.  This is so when the outcome of an item
arrives: an item makes one exception at most, and if it makes one then this is its outcome
(`Sure.clear`).  With nothing owed from before, an item that is about to be performed owes
exactly the exception that is expected of it (`Clear.performs`).
-/

namespace DescribedEffects
namespace EventLoop

variable {P S : Type} {K : Callables} {context : Value} {es es' : List Expected}
  {top top' : Expected} {hand : List Job} {busy : Option (Nat × Goal)} {s u : Loop P S}
  {C : Programs P} {M : Manner S} {j j' : Journey} {captured captured' : Bool} {signal : Signal}
  {o : Outcome}

/-! ## The driver is told something -/

/-- Nothing has become of the loop itself while the driver was told something: only the
computations, the counts of the site and what the loop is about to do have changed. -/
inductive Prompted (s u : Loop P S) : Prop
  | mk (programs : P) (items minted : Nat) (c : Control) (notes : List Note)
      (counts : items = s.host.2.items ∧ s.host.2.minted ≤ minted ∨ items = s.host.2.items + 1)
      (state : u = { s with host := (programs, ⟨s.scene, items, minted⟩), control := c, notes })

theorem Prompted.passes (h : Prompted s u) : Passes es hand busy s es hand busy u := by
  obtain ⟨programs, items, minted, c, notes, -, rfl⟩ := h
  exact {
    expects := List.prefix_refl _
    queued := fun _ h => h
    run := rfl
    groups := List.Subset.refl _
    effects := fun i e he => ⟨e.claimed, he, id, fun h h' => by rw [h] at h'; cases h'⟩
    opened := fun _ _ h => opened_same rfl h
    outcome := fun _ _ => rfl
    bodies := fun k b hb => ⟨b, hb, rfl, .inl rfl⟩
    watching := fun _ _ h => .inl (h.of_tasks fun _ _ h => h)
    requests := fun _ _ _ h => .inl h }

/-- Tasks, promises, futures and groups are what they were, and so is what goes on beside the
loop. -/
theorem Prompted.same (h : Prompted s u) :
    u.tasks = s.tasks ∧ u.promises = s.promises ∧ u.futures = s.futures ∧
      u.groups = s.groups ∧ u.scene = s.scene := by
  obtain ⟨programs, items, minted, c, notes, -, rfl⟩ := h
  exact ⟨rfl, rfl, rfl, rfl, rfl⟩

/-- An exception that has been made has been made. -/
theorem Prompted.isThere (h : Prompted s u) {x : Expected} (hx : x.IsThere s.host.2) :
    x.IsThere u.host.2 := by
  obtain ⟨programs, items, minted, c, notes, counts, rfl⟩ := h
  intro n hn
  show n < items ∨ n = items ∧ 0 < minted
  have hthere := hx n hn
  omega

variable (K context) in
/-- A task that has not begun has something to begin. -/
theorem mints_le_load {t p : Nat} {item : Value}
    (ht : s.tasks[t]? = some ⟨.fresh (.perform item), p⟩) :
    (Plan.ofValue item).mints K context ≤ s.load (Plan.mints K context) :=
  List.le_sum_of_mem (List.mem_map_of_mem (f := Task.load _) (List.mem_of_getElem? ht))

/-- **A tidy loop is tidy when the driver has been told something**, whatever is expected of the
next item, if no late member of a group is still to make an exception. -/
theorem Prompted.tidy (h : Prompted s u)
    (hs : Tidy K context es top [] (some (0, .drive j captured)) s)
    (main : s.tasks[0]?.map Task.phase = some .running)
    (spent : s.load (Plan.mints K context) = 0) :
    Tidy K context es top' [] (some (0, .drive j' captured')) u := by
  have hs : Tidy K context es top [] (some (0, .drive j' captured')) s := hs.rebusy
  have hpasses : Passes es [] (some (0, .drive j' captured')) s es []
      (some (0, .drive j' captured')) u := h.passes
  have hthere := fun (x : Expected) (hx : x.IsThere s.host.2) => h.isThere hx
  have hwants : ∀ {t p : Nat} {goal : Goal} {x : Expected} {phase : Phase},
      s.tasks[t]? = some ⟨phase, p⟩ → phase ≠ .running → Wants es top t p goal x →
        Wants es top' t p goal x := by
    intro t p goal x phase ht hphase hw
    cases hw with
    | answer expects => exact .answer expects
    | drive j captured zero =>
      subst zero
      rw [ht] at main
      exact absurd (Option.some.inj main) hphase
  obtain ⟨htasks, hpromises, hfutures, -, hscene⟩ := h.same
  have hqueued : ∀ k, Queued [] u k → Queued [] s k := by
    cases h with | mk _ _ _ _ _ _ state => subst state; exact fun _ hk => hk
  refine {
    length := by rw [hpromises, hs.length]
    settled := fun p o hp ho => ?_
    jobs := fun k hk => hpasses.fitting (hs.jobs k (hqueued k hk))
    patient := by rw [hpromises]; exact hs.patient
    tasks := fun t phase p ht => ?_
    threads := fun r hr => hpasses.reports (hs.threads r (hscene ▸ hr))
    requests := fun r hr => hpasses.reports (hs.requests r (hscene ▸ hr))
    futures := by rw [hscene, hfutures]; exact hs.futures }
  · rw [State.outcome?, hpromises] at ho
    obtain ⟨x, hx, hxo, hx'⟩ := hs.settled p o hp ho
    exact ⟨x, hx, hxo, hthere x hx'⟩
  · rw [htasks] at ht
    cases hs.tasks t phase p ht with
    | fresh item n minor expects modest recent queued =>
      refine .fresh item n minor expects modest (fun hpos => ?_) (hpasses.queued _ queued)
      have hle := mints_le_load K context ht
      omega
    | watcher i k b minor body announces minds queued =>
      obtain ⟨b', hb', hannounces⟩ := hpasses.announces body announces
      exact .watcher i k b' minor hb' hannounces minds (hpasses.queued _ queued)
    | running goal at_work => exact .running goal at_work
    | asleep goal k b body bears queued =>
      obtain ⟨b', hb', hbears⟩ := hpasses.bears body bears
      refine .asleep goal k b' hb' ?_ (hpasses.queued _ queued)
      cases hbears with
      | direct goal wants report => exact .direct goal (hwants ht (by simp) wants) report
      | watch i announces minds => exact .watch i announces minds
    | blocked goal q x wants expects later held =>
      exact .blocked goal q x (hwants ht (by simp) wants) expects later (hpasses.held held)
    | finished report outcome => exact .finished report (hpasses.there outcome)

/-- **What is known of a loop is known when the driver has been told something.** -/
theorem Prompted.firm (h : Prompted s u) (hs : Firm C M K context es top s)
    (driving : s.control.busy? = some (0, .drive j captured))
    (drives : u.control.busy? = some (0, .drive j' captured'))
    (main : s.tasks[0]?.map Task.phase = some .running)
    (spent : s.load (Plan.mints K context) = 0)
    (hstep : step (C.host (K.world M)) context s = .next u)
    (aims : Aims K context es top' u u.control) : Firm C M K context es top' u := by
  have htidy := hs.tidy
  rw [driving] at htidy
  obtain ⟨-, -, -, hgroups, hscene⟩ := h.same
  refine ⟨hs.arises.tail hstep, ?_, aims, ?_, fun i hi => ?_⟩
  · rw [drives]
    exact h.tidy htidy main spent
  · rw [hscene]
    exact hs.quiet
  · rw [hgroups] at hi
    exact (hs.groups i hi).next hstep (List.prefix_refl _)

/-! ## Who tells the driver -/

theorem control_finishDrive (s : Loop P S) (t : Nat) (j : Journey) (captured : Bool)
    (o : Outcome) : (finishDrive s t j captured o).control = .idle :=
  (tasks_finish s t _ _).2

/-- The computations have moved on. -/
def State.resumed (s : Loop P S) (programs : P) (site : Site (Scene S)) (notes : List Note) :
    Loop P S :=
  { s with host := (programs, site), control := .idle, notes }

variable (K C M) in
/-- The innermost computation is resumed, and nothing is asked of the loop meanwhile. -/
theorem deliver_eq (quiet : s.scene.requests = []) (t g : Nat) (rest : List Nat)
    (current : Option Descriptor) (trace : Option Trace) (captured : Bool) (signal : Signal) :
    let j : Journey := ⟨g :: rest, current, trace⟩
    let reply := (C.resume g signal s.host.1).1
    let v := s.resumed (C.resume g signal s.host.1).2 (s.host.2.hear reply)
      (noteSignal s signal).notes
    deliver (C.host (K.world M)) s.toIdle t j captured signal =
      match Host.settle reply with
      | .yielded item => receive (C.host (K.world M)) v t j captured item
      | .returned x => leave v t j captured (.ok x)
      | .raised e => leave v t j captured (.error e) := by
  intro j reply v
  have hgrant : grantAll (C.host (K.world M)) v = v := by
    refine grantAll_nil C K M ?_
    show (s.host.2.hear reply).world.requests = []
    rw [Site.world_hear]
    exact quiet
  have hresumed : deliver (C.host (K.world M)) s.toIdle t j captured signal =
      match Host.settle reply with
      | .yielded item =>
        receive (C.host (K.world M)) (grantAll (C.host (K.world M)) v) t j captured item
      | .returned x => leave (grantAll (C.host (K.world M)) v) t j captured (.ok x)
      | .raised e => leave (grantAll (C.host (K.world M)) v) t j captured (.error e) := by
    cases signal <;> rfl
  rw [hresumed, hgrant]

/-- What the loop goes on with once the driver has been told something. -/
structure Goes (captured : Bool) (s u : Loop P S) : Prop where
  prompted : Prompted s u
  drives : ∃ j, u.control.busy? = some (0, .drive j captured)
  /-- The first exception of an item is still to be made when the item is performed. -/
  first : ∀ t goal d, u.control = .perform t goal d → u.host.2.minted = 0

/-- The driver is told something else. -/
theorem goes_of_deliver (programs : P) (items minted : Nat) {notes : List Note}
    (counts : items = s.host.2.items ∧ s.host.2.minted ≤ minted ∨ items = s.host.2.items + 1) :
    Goes captured s { s with
      host := (programs, ⟨s.scene, items, minted⟩), control := .deliver 0 j captured signal,
      notes } where
  prompted := .mk programs items minted _ _ counts rfl
  drives := ⟨j, rfl⟩
  first t goal d h := by cases h

/-- The innermost computation has ended. -/
theorem goes_of_leave {programs : P} {notes : List Note}
    (hu : leave (s.resumed programs s.host.2 notes) 0 j captured o = u)
    (going : u.control ≠ .idle) : Goes captured s u := by
  unfold leave at hu
  split at hu
  · exact absurd (hu ▸ control_finishDrive ..) going
  · split at hu
    · exact hu ▸ goes_of_deliver _ _ _ (.inl ⟨rfl, Nat.le_refl _⟩)
    · split at hu
      · exact hu ▸ goes_of_deliver _ _ _ (.inl ⟨rfl, Nat.le_refl _⟩)
      · exact absurd (hu ▸ control_finishDrive ..) going

/-- The innermost computation has yielded an item. -/
theorem goes_of_receive {programs : P} {notes : List Note} {item : Value}
    (hu : receive (C.host (K.world M))
      (s.resumed programs (s.host.2.hear (.yielded item)) notes) 0 j captured item = u) :
    Goes captured s u := by
  cases hitem : item.isComputation with
  | true =>
    cases item with
    | computation inner =>
      exact hu ▸ goes_of_deliver _ s.host.2.items s.host.2.minted (.inl ⟨rfl, Nat.le_refl _⟩)
    | _ => cases hitem
  | false =>
    rw [receive_of_plain _ _ _ _ hitem, Site.hear_item _ hitem] at hu
    cases hparse : Descriptor.parse item with
    | error m =>
      rw [hparse] at hu
      exact hu ▸ goes_of_deliver _ _ _ (.inr rfl)
    | ok d =>
      rw [hparse] at hu
      subst hu
      exact ⟨.mk programs (s.host.2.items + 1) 0 _ _ (.inr rfl) rfl, ⟨_, rfl⟩, fun _ _ _ _ => rfl⟩

variable (K context C M) in
/-- **The innermost computation is told something**, and the loop goes on to drive. -/
theorem goes_of_telling (quiet : s.scene.requests = [])
    (control : s.control = .deliver 0 j captured signal)
    (hstep : step (C.host (K.world M)) context s = .next u) (going : u.control ≠ .idle) :
    Goes captured s u := by
  have hu : deliver (C.host (K.world M)) s.toIdle 0 j captured signal = u := by
    simp only [step, control] at hstep
    exact Transition.next.inj hstep
  obtain ⟨active, current, trace⟩ := j
  cases active with
  | nil => exact absurd (hu ▸ control_finishDrive ..) going
  | cons g rest =>
    rw [deliver_eq K C M quiet] at hu
    generalize C.resume g signal s.host.1 = resumption at hu
    obtain ⟨reply, programs⟩ := resumption
    cases reply with
    | yielded item => exact goes_of_receive hu
    | returned x => exact goes_of_leave hu going
    | raised e =>
      by_cases he : e.isExhausted = true
      · simp only [Host.settle, if_pos he] at hu
        exact goes_of_leave hu going
      · simp only [Host.settle, if_neg he] at hu
        exact goes_of_leave hu going

/-- The outcome of the item reaches the driver, and is recorded. -/
theorem goes_of_answer (control : s.control = .outcome 0 (.drive j captured) o)
    (hstep : step (C.host (K.world M)) context s = .next u) (going : u.control ≠ .idle) :
    Goes captured s u := by
  have hu : answerDrive (C.host (K.world M)) s.toIdle 0 j captured o = u := by
    simp only [step, control] at hstep
    exact Transition.next.inj hstep
  have hrecorded : ∀ j signal,
      deliverRecorded (C.host (K.world M)) s.toIdle 0 j captured signal = u →
        Goes captured s u := by
    intro j signal hu
    unfold deliverRecorded at hu
    split at hu
    · exact hu ▸ goes_of_deliver _ _ _ (.inl ⟨rfl, Nat.le_succ _⟩)
    · exact hu ▸ goes_of_deliver s.host.1 s.host.2.items s.host.2.minted
        (.inl ⟨rfl, Nat.le_refl _⟩)
  unfold answerDrive at hu
  split at hu
  · exact hrecorded _ _ hu
  · split at hu
    · exact hrecorded _ _ hu
    · exact absurd (hu ▸ control_finishDrive ..) going

/-! ## From item to item -/

theorem Control.task?_of_busy {c : Control} {t : Nat} {goal : Goal} (h : c.busy? = some (t, goal)) :
    c.task? = some t := by
  cases c with
  | idle => cases h
  | _ => cases h; rfl

/-- **What is known of a loop between two items.**  No late member of a group is still to make
an exception. -/
structure Clear (C : Programs P) (M : Manner S) (K : Callables) (context : Value)
    (s : Loop P S) : Prop where
  firm : ∃ es top, Firm C M K context es top s
  spent : s.load (Plan.mints K context) = 0

theorem Prompted.load (h : Prompted s u) (w : Plan → Nat) : u.load w = s.load w := by
  rw [State.load, State.load, h.same.1]

/-- A loop that goes on is clear, unless it is about to perform an effect. -/
theorem Clear.goes (hs : Clear C M K context s) (steady : Steady s)
    (driving : s.control.busy? = some (0, .drive j captured)) (h : Goes captured s u)
    (hstep : step (C.host (K.world M)) context s = .next u)
    (delivers : ∃ k j captured signal, u.control = .deliver k j captured signal) :
    Clear C M K context u := by
  obtain ⟨es, top, hfirm⟩ := hs.firm
  obtain ⟨j', hdrives⟩ := h.drives
  obtain ⟨k, j'', captured', signal, hcontrol⟩ := delivers
  have hmain : s.tasks[0]?.map Task.phase = some .running :=
    steady.lone.running (Control.task?_of_busy driving)
  refine ⟨⟨es, top, h.prompted.firm hfirm driving hdrives hmain hs.spent hstep ?_⟩, ?_⟩
  · rw [hcontrol]
    exact .deliver k j'' captured' signal
  · rw [h.prompted.load]
    exact hs.spent

/-- A modest plan has one exception of the library at most. -/
theorem mints_of_modest {x : Plan} (h : x.Modest K context) (n : Nat) :
    x.mints K context = (x.expects K context n).minted.isSome.toNat := by
  have hle := Nat.le_trans (Plan.mints_le_failures x) h.failures
  rw [Plan.minted_expects]
  split
  · show _ = 1
    omega
  · show _ = 0
    omega

/-- **A loop that is about to perform an effect** knows what is expected of it. -/
theorem Clear.performs (hs : Clear C M K context s) (steady : Steady s)
    (driving : s.control.busy? = some (0, .drive j captured)) (h : Goes captured s u)
    (hstep : step (C.host (K.world M)) context s = .next u) {d : Descriptor}
    (performs : u.control = .perform 0 (.drive j' captured') d)
    (modest : (Plan.ofDescriptor d).Modest K context) :
    ∃ es, Sure C M K context es ((Plan.ofDescriptor d).expects K context u.host.2.items) u := by
  obtain ⟨es, top, hfirm⟩ := hs.firm
  have hmain : s.tasks[0]?.map Task.phase = some .running :=
    steady.lone.running (Control.task?_of_busy driving)
  obtain ⟨⟨phase, p⟩, htask, hphase⟩ := Option.map_eq_some_iff.1 hmain
  obtain rfl : phase = .running := hphase
  have htask : u.tasks[0]? = some ⟨.running, p⟩ := by
    rw [h.prompted.same.1]
    exact htask
  refine ⟨es, h.prompted.firm hfirm driving (by rw [performs]; rfl) hmain hs.spent hstep ?_, ?_⟩
  · rw [performs]
    exact .perform 0 _ d p _ htask (.drive j' captured' rfl) modest fun _ => rfl
  · have hdebt : u.debt (Plan.mints K context) = (Plan.ofDescriptor d).mints K context := by
      rw [State.debt, h.prompted.load, hs.spent, performs, Nat.zero_add]
      rfl
    rw [h.first _ _ _ performs, Nat.zero_add, hdebt, mints_of_modest modest]

/-- **A loop is clear when the outcome of an item has arrived**: if the library was to make an
exception it has made it. -/
theorem Sure.clear (hs : Sure C M K context es top s)
    (control : s.control = .outcome 0 (.drive j captured) top.outcome)
    (recent : ∀ n ∈ top.minted, n = s.host.2.items) :
    Clear C M K context s ∧ s.host.2.minted = top.minted.isSome.toNat := by
  have haccount := hs.account
  have hdebt : s.debt (Plan.mints K context) = s.load (Plan.mints K context) := by
    rw [State.debt, control]
    rfl
  rw [hdebt] at haccount
  have haims := hs.aims
  rw [control] at haims
  have hload : s.load (Plan.mints K context) = 0 := by
    cases haims with
    | outcome _ _ _ due =>
      generalize top.outcome = o at due
      cases due with
      | expected _ p x task wants there =>
        cases wants with
        | drive j captured main =>
          cases hminted : top.minted with
          | none =>
            rw [hminted] at haccount
            simp at haccount
            exact haccount.2
          | some n =>
            rw [hminted] at haccount
            have hrecent := recent n hminted
            have hthere := there n hminted
            simp at haccount
            omega
  exact ⟨⟨⟨es, top, hs.toFirm⟩, hload⟩, by omega⟩

/-- A loop that has begun to drive a computation is clear. -/
theorem clear_begun (programs : P) (mood : S) (items minted run : Nat)
    (earlier : List (Nat × Outcome)) (g : Nat) (trace : Option Trace) (captured : Bool) :
    Clear C M K context ((begun ⟨.start mood, items, minted⟩ run earlier trace captured).amid
      (Prod.mk programs) [] [g]) := by
  let host : P × Site (Scene S) := (programs, ⟨.start mood, items, minted⟩)
  obtain ⟨t, hfirst, -, hsecond, -⟩ :=
    reaches_begun C (K.world M) context host run earlier g trace captured
  let x : Expected := ⟨.ok .null, none⟩
  refine ⟨⟨[x], x, ⟨host, run, earlier, _, .head hfirst (.head hsecond (.refl _))⟩, ?_, ?_, rfl,
    fun i hi => by cases hi⟩, rfl⟩
  · refine {
      length := rfl
      settled := fun p o hp ho => ?_
      jobs := fun j hj => ?_
      patient := fun pr hpr j hj => ?_
      tasks := fun t phase p ht => ?_
      threads := fun r hr => by cases hr
      requests := fun r hr => by cases hr
      futures := fun x hx => by cases hx }
    · cases p with
      | zero => exact absurd rfl hp
      | succ p => cases ho
    · rcases hj with hj | hj | ⟨tm, hj, -⟩ <;> cases hj
    · obtain rfl := List.mem_singleton.1 hpr
      obtain rfl := List.mem_singleton.1 hj
      rfl
    · cases t with
      | zero =>
        cases ht
        exact .running _ rfl
      | succ t => cases ht
  · exact .deliver 0 _ captured _

end EventLoop
end DescribedEffects
