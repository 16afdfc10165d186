import DescribedEffects.Proofs.Manners.Performing
import DescribedEffects.Proofs.Walk

/-!
# Performing any effect

An effect is looked up and performed (`served_single`), or a group is made for it
(`served_group`).  What is expected of it is known beforehand, the identities of the exceptions
that the library makes included, provided that such an exception is the first one since the item
was yielded.
-/

namespace DescribedEffects
namespace EventLoop

variable {P S : Type} {K : Callables} {context : Value} {es es' : List Expected} {top : Expected}
  {hand hand' : List Job} {busy busy' : Option (Nat × Goal)} {s m u : Loop P S} {C : Programs P}
  {M : Manner S} {t p q n : Nat} {goal : Goal} {d : Descriptor}

/-! ## Exceptions of the library -/

/-- More exceptions have been made. -/
def State.minting (s : Loop P S) (n : Nat) : Loop P S :=
  { s with host := (s.host.1, { s.host.2 with minted := s.host.2.minted + n }) }

theorem lasts_minting (n : Nat) : Lasts es hand busy s es hand busy (s.minting n) where
  expects := List.prefix_refl _
  queued _ h := h
  run := rfl
  items := rfl
  minted := Nat.le_add_right ..
  groups := List.Subset.refl _
  effects i e he := ⟨e.claimed, he, id, fun h h' => by rw [h] at h'; cases h'⟩
  opened _ _ h := opened_same rfl h
  outcome _ _ := rfl
  bodies k b hb := ⟨b, hb, rfl, .inl rfl⟩
  watching _ _ h := .inl (h.of_tasks fun _ _ h => h)
  requests _ _ _ h := .inl h

theorem Tidy.minting (hs : Tidy K context es top hand busy s) (n : Nat) :
    Tidy K context es top hand busy (s.minting n) :=
  hs.next_of_promises (lasts_minting n) rfl (fun _ hj => .inl hj)
    (fun _ _ _ ht => .inl ⟨ht, .inr rfl⟩) (fun _ hr => .inl hr) (fun _ hr => .inl hr) hs.futures

/-- A complaint of which no exception is made is the same whatever the item. -/
theorem expected_of_not_made {c : Complaint} (h : c.isMade = false) (n k : Nat) :
    c.expected n = c.expected k := by
  cases c with
  | make body => cases h
  | pass e =>
    have he : e.isExhausted = false := h
    simp only [Complaint.expected, Host.complain, Host.shield, he, h, Bool.false_eq_true, if_false]

/-- The exception that is made for a walk that stops marks no end of a computation. -/
theorem lasting_of_lookup {path segments : List Value} {given : Value} {fault : LookupFault}
    (h : Context.lookup context path = .error fault) {body : ExnBody Value}
    (made : fault.complaint given segments = .make body) (id : Nat) :
    (⟨id, body⟩ : Exn).isExhausted = false := by
  induction path generalizing context with
  | nil => cases h
  | cons s path ih =>
    rw [Context.lookup_cons] at h
    cases hv : Context.enter context s with
    | ok v =>
      rw [hv] at h
      exact ih h
    | error fault' =>
      rw [hv] at h
      obtain rfl := Except.error.inj h
      unfold Context.enter at hv
      split at hv
      · split at hv
        · cases hv
        · split at hv
          · cases hv
            cases made
            rfl
          · cases hv
            cases made
        · cases hv
          cases made
          rfl
        · next f hf hmissing =>
          cases hv
          cases made
          rcases Context.atKey_error_cases hmissing with ⟨e, he⟩ | hkey | ⟨ty, hty⟩
          · cases he
          · exact absurd (Refusal.fault.inj hkey) (hf s)
          · obtain rfl := Refusal.fault.inj hty
            rfl
      · cases hv
        cases made
        rfl

variable (C M) in
/-- **The exception of a complaint** is the one that is expected for the item. -/
theorem arrive_of_complaint (s : Loop P S) (t : Nat) (goal : Goal) (c : Complaint)
    (lasting : ∀ body id, c = .make body → (⟨id, body⟩ : Exn).isExhausted = false)
    (first : c.isMade = true → s.host.2.minted = 0) :
    arriveShielded (C.host (K.world M))
        { s with host := ((C.host (K.world M)).complain c s.host).2 } t goal
        "coroutine raised StopIteration" ((C.host (K.world M)).complain c s.host).1 =
      (s.minting (if c.isMade then 1 else 0)).arrive t goal
        (c.expected s.host.2.items).outcome := by
  obtain ⟨⟨program, world, items, minted⟩, run, clock, ready, timers, tasks, promises, effects,
    groups, futures, earlier, batch, stopping, notes, control⟩ := s
  cases c with
  | make body =>
    obtain rfl : minted = 0 := first rfl
    let e : Exn := ⟨Nat.pair items 0, body⟩
    have hcomplain : (C.host (K.world M)).complain (.make body) (program, ⟨world, items, 0⟩) =
        (e, program, ⟨world, items, 1⟩) := rfl
    have hbarren : World.barren.still.complain (.make body) ⟨(), items, 0⟩ = (e, ⟨(), items, 1⟩) :=
      rfl
    have he : e.isExhausted = false := lasting body _ rfl
    simp only [hcomplain, hbarren, arriveShielded, Complaint.expected, Host.shield, he]
    rfl
  | pass e =>
    by_cases he : e.isExhausted = true
    · obtain rfl : minted = 0 := first he
      simp only [Host.complain, arriveShielded, Complaint.expected, Host.shield, he, if_true]
      rw [if_pos (show (Complaint.pass e).isMade = true from he)]
      rfl
    · simp only [Host.complain, arriveShielded, Complaint.expected, Host.shield, he]
      rw [if_neg (show ¬ (Complaint.pass e).isMade = true from he)]
      rfl

/-! ## One effect -/

section

variable (hs : Tidy K context es top [] (some (t, goal)) s)
  (ht : s.tasks[t]? = some ⟨.running, p⟩) (made : p < es.length) (quiet : s.scene.requests = [])

include hs ht quiet

variable (C M) in
/-- An effect that is not found. -/
theorem served_complaint {c : Complaint}
    (lasting : ∀ body id, c = .make body → (⟨id, body⟩ : Exn).isExhausted = false)
    (first : c.isMade = true → n = s.host.2.items ∧ s.host.2.minted = 0)
    (wants : Wants es top t p goal (c.expected n)) :
    Served K context es top t goal (s.minting (if c.isMade then 1 else 0))
      (arriveShielded (C.host (K.world M))
        { s with host := ((C.host (K.world M)).complain c s.host).2 } t goal
        "coroutine raised StopIteration" ((C.host (K.world M)).complain c s.host).1) := by
  have hsame : c.expected n = c.expected s.host.2.items := by
    cases hmade : c.isMade with
    | true => rw [(first hmade).1]
    | false => exact expected_of_not_made hmade _ _
  rw [hsame] at wants
  rw [arrive_of_complaint C M s t goal c lasting fun h => (first h).2]
  refine served_arrive (hs.minting _) quiet (.expected goal p _ ht wants fun j hj => ?_)
  have hmade : c.isMade = true := by
    by_contra hnot
    simp [Complaint.expected, hnot] at hj
  simp only [Complaint.expected, if_pos hmade, Option.mem_some] at hj
  refine .inr ⟨hj.symm, ?_⟩
  rw [if_pos hmade]
  exact Nat.succ_pos _

include made

variable (C M) in
/-- **An effect that is none of a group**, in whatever manner its function hands over its
outcome. -/
theorem served_single (mode : d.mode ≠ .parallel) (regular : (Plan.single d).IsRegular context)
    (first : 0 < K.mints context d → n = s.host.2.items ∧ s.host.2.minted = 0)
    (wants : Wants es top t p goal (K.leaf context n d)) :
    ∃ m, Served K context es top t goal m (perform (C.host (K.world M)) context s t goal d) ∧
      (∀ w, m.load w = s.load w) ∧ m.groups = s.groups ∧
        m.host.2.minted = s.host.2.minted + K.mints context d := by
  unfold perform
  split
  · next h => exact absurd h mode
  · unfold Callables.leaf Callables.find at wants
    unfold Callables.mints Callables.find at first ⊢
    cases hlookup : Context.lookup context d.path with
    | error fault =>
      rw [hlookup] at wants first
      dsimp only at wants first ⊢
      exact ⟨_, served_complaint C M hs ht quiet
        (fun body id made => lasting_of_lookup hlookup made id)
        (fun hmade => first (by rw [if_pos hmade]; exact Nat.one_pos)) wants,
        fun _ => rfl, rfl, rfl⟩
    | ok v =>
      rw [hlookup] at wants
      dsimp only at wants ⊢
      have hregular : v.isDone = false ∧ (d.mode = .direct → ∀ w ∈ d.args.getLast?,
        w.isDone = false) := regular v hlookup
      have htidy : ∀ how, Tidy K context es top [] (some (t, goal)) (s.note (.resolving d how)) :=
        fun how => hs.turned s.control _
      refine ⟨s.note (.resolving d (Context.classify v d.mode)), ?_, fun _ => rfl, rfl,
        by cases Context.classify v d.mode <;> rfl⟩
      cases hclass : Context.classify v d.mode with
      | value =>
        rw [hclass] at wants
        exact served_arrive (htidy .value) quiet (.expected goal p ⟨.ok v, none⟩ ht wants
          fun j hj => by cases hj)
      | direct =>
        rw [hclass] at wants
        refine served_direct C M (htidy _) ht made hregular.1 (hregular.2 ?_) quiet wants
        unfold Context.classify at hclass
        cases hmode : d.mode with
        | direct => rfl
        | parallel => exact absurd hmode mode
        | callback =>
          rw [hmode] at hclass
          split at hclass <;> cases hclass
      | callback =>
        rw [hclass] at wants
        exact served_callback C M (htidy _) ht made hregular.1 quiet wants

end

/-! ## Groups -/

/-- What the members of a group are still to begin. -/
theorem load_staffed (s : Loop P S) (items : List Value) (w : Plan → Nat) :
    (s.staffed (items.map .perform)).load w = s.load w + ((items.map Plan.ofValue).map w).sum := by
  have hmembers : ∀ f : Nat → Nat, ((items.map Errand.perform).mapIdx fun i errand =>
      (⟨.fresh errand, f i⟩ : Task)).map (Task.load w) = (items.map Plan.ofValue).map w := by
    intro f
    refine List.ext_getElem? fun i => ?_
    simp only [List.getElem?_map, List.getElem?_mapIdx, Option.map_map]
    rfl
  show ((s.tasks ++ _).map (Task.load w)).sum = _
  rw [List.map_append, List.sum_append, hmembers]
  rfl

/-- What is expected of the members of a group. -/
def memberExpects (K : Callables) (context : Value) (n : Nat) (d : Descriptor) : List Expected :=
  (d.args.map Plan.ofValue).map (Plan.expects K context n)

theorem expects_of_parallel (mode : d.mode = .parallel) :
    (Plan.ofDescriptor d).expects K context n =
      Expected.together (memberExpects K context n d) := by
  rw [Plan.ofDescriptor_of_parallel mode, Plan.expects_group]
  rfl

section

variable (hs : Tidy K context es top [] (some (t, goal)) s)
  (ht : s.tasks[t]? = some ⟨.running, p⟩) (made : p < es.length) (quiet : s.scene.requests = [])
  (mode : d.mode = .parallel)
  (wants : Wants es top t p goal ((Plan.ofDescriptor d).expects K context n))

include hs ht made quiet mode wants

variable (C M) in
/-- **A group is made**, and the task waits for it. -/
theorem served_group (nonempty : d.args ≠ []) (modest : (Plan.ofDescriptor d).Modest K context)
    (recent : 0 < (Plan.ofDescriptor d).mints K context → n = s.host.2.items) :
    Served K context
      (es ++ (Plan.ofDescriptor d).expects K context n :: memberExpects K context n d) top t goal
      (s.staffed (d.args.map .perform))
      (perform (C.host (K.world M)) context s t goal d) := by
  let errands := d.args.map Errand.perform
  let x := (Plan.ofDescriptor d).expects K context n
  let xs := memberExpects K context n d
  let noted := s.note (.dispatching d.args.length)
  let q := s.promises.length
  have hlength : xs.length = errands.length := by simp [xs, memberExpects, errands]
  have hperform : perform (C.host (K.world M)) context s t goal d =
      block (noted.staffed errands) t goal q := by
    unfold perform
    rw [mode]
    exact gather_eq noted t goal (by simpa [errands] using nonempty)
  have hgroup : Plan.ofDescriptor d = .group (d.args.map Plan.ofValue) :=
    Plan.ofDescriptor_of_parallel mode
  have hnoted : Tidy K context es top [] (some (t, goal)) noted := hs.turned s.control _
  have htidy : Tidy K context (es ++ x :: xs) top [] (some (t, goal)) (noted.staffed errands) := by
    refine hnoted.staffed hlength fun i errand herrand => ?_
    obtain ⟨item, hitem, rfl⟩ : ∃ item, d.args[i]? = some item ∧ .perform item = errand := by
      simpa [errands] using herrand
    have hmember : Plan.ofValue item ∈ d.args.map Plan.ofValue :=
      List.mem_map_of_mem (List.mem_of_getElem? hitem)
    have hlt := (List.getElem?_eq_some_iff.1 herrand).1
    rw [hgroup] at modest recent
    refine .fresh item n ?_ ?_ (modest.member hmember) (fun hpos => recent ?_) ?_
    · have hpos := Nat.zero_lt_of_lt (List.getElem?_eq_some_iff.1 ht).1
      show s.tasks.length + i ≠ 0
      omega
    · show (es ++ x :: xs)[s.promises.length + 1 + i]? = _
      rw [← hs.length, Nat.add_assoc, List.getElem?_append_right (Nat.le_add_right ..),
        Nat.add_sub_cancel_left, Nat.add_comm 1 i, List.getElem?_cons_succ]
      simp [xs, memberExpects, hitem]
    · rw [Plan.mints_group]
      exact Plan.sum_map_pos_iff.2 ⟨_, hmember, hpos⟩
    · exact .inr (.inl (List.mem_append_right _ (List.mem_map.2 ⟨i, List.mem_range.2 hlt, rfl⟩)))
  have hlasts : Lasts es [] (some (t, goal)) noted (es ++ x :: xs) [] (some (t, goal))
      (noted.staffed errands) := lasts_staffed x
  have hlt := (List.getElem?_eq_some_iff.1 ht).1
  rw [hperform]
  refine (served_block htidy quiet ((List.getElem?_append_left hlt).trans ht) (hlasts.wants wants)
    ?_ ?_ fun _ => .group ?_).of_frugal (List.prefix_refl _) (.of_tasks rfl rfl rfl)
  · show (es ++ x :: xs)[s.promises.length]? = some x
    rw [← hs.length]
    simp
  · rw [hs.length] at made
    exact made
  · simp [State.staffed, Place.next, noted, q, State.note]

omit made in
variable (C M) in
/-- An empty group is complete at once. -/
theorem served_empty (empty : d.args = []) :
    Served K context es top t goal s (perform (C.host (K.world M)) context s t goal d) := by
  have hperform : perform (C.host (K.world M)) context s t goal d =
      (s.note (.dispatching d.args.length)).arrive t goal (.ok (.list [])) := by
    unfold perform
    rw [mode, empty]
    rfl
  rw [expects_of_parallel mode, memberExpects, empty] at wants
  have hnoted : Tidy K context es top [] (some (t, goal)) (s.note (.dispatching d.args.length)) :=
    hs.turned s.control _
  rw [hperform]
  exact (served_arrive hnoted quiet (.expected goal p _ ht wants
    fun j hj => by cases hj)).of_frugal (List.prefix_refl _) (.of_tasks rfl rfl rfl)

end

end EventLoop
end DescribedEffects
