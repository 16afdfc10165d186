import DescribedEffects.Proofs.Manners.Keeping

/-!
# What goes on beside a tidy loop

Whenever the loop turns to the world it hears of the threads that have called back, and grants
what is asked of it.  What is asked for in this way is to report completions, so a grant claims
an effect and queues its completion (`Heeds`).
-/

namespace DescribedEffects
namespace EventLoop

variable {P S : Type} {K : Callables} {context : Value} {es es' : List Expected} {top : Expected}
  {hand : List Job} {busy : Option (Nat × Goal)} {s m u : Loop P S} {C : Programs P}
  {M : Manner S}

/-- The same loop, with something else going on beside it. -/
def State.beside (s : Loop P S) (w : Scene S) : Loop P S :=
  { s with host := (s.host.1, { s.host.2 with world := w }) }

@[simp] theorem scene_beside (s : Loop P S) (w : Scene S) : (s.beside w).scene = w := rfl

theorem complete_beside (s : Loop P S) (w : Scene S) (q : Nat) (o : Outcome) :
    (s.beside w).complete q o = (s.complete q o).beside w := by
  unfold State.complete State.beside
  dsimp only
  split <;> rfl

@[simp] theorem effects_beside (s : Loop P S) (w : Scene S) : (s.beside w).effects = s.effects :=
  rfl

theorem claim_beside (s : Loop P S) (w : Scene S) (i : Nat) :
    (s.beside w).claim i = ((s.claim i).1, (s.claim i).2.beside w) := by
  unfold State.claim
  rw [effects_beside]
  cases s.effects[i]? with
  | none => rfl
  | some e =>
    dsimp only
    split <;> rfl

/-- A grant has nothing to do with what goes on beside the loop. -/
theorem grant_beside (s : Loop P S) (w : Scene S) (r : Request) :
    grant (s.beside w) r = (grant s r).beside w := by
  cases r with
  | complete run i error value =>
    have hrun : (s.beside w).run = s.run := rfl
    unfold grant
    dsimp only
    rw [claim_beside, hrun]
    split
    · split <;> rfl
    · rfl
  | callLater delay f args => rfl
  | future id o delay =>
    cases o with
    | none => rfl
    | some o =>
      cases delay with
      | none =>
        exact complete_beside
          { s.newPromise.2 with futures := s.futures ++ [(id, s.promises.length)] } w _ o
      | some n => rfl

/-- Requests are granted one after the other. -/
theorem grantAll_cons (C : Programs P) (K : Callables) (M : Manner S) (s : Loop P S) (w : Scene S)
    (r : Request) (rest : List Request) :
    grantAll (C.host (K.world M)) (s.beside { w with requests := r :: rest }) =
      grantAll (C.host (K.world M)) ((grant s r).beside { w with requests := rest }) := by
  show (r :: rest).foldl grant (s.beside { w with requests := [] }) =
    rest.foldl grant ((grant s r).beside { w with requests := [] })
  rw [List.foldl_cons, grant_beside]

theorem grantAll_nil (C : Programs P) (K : Callables) (M : Manner S)
    (h : s.scene.requests = []) : grantAll (C.host (K.world M)) s = s := by
  refine grantAll_of_nothing ?_
  show (s.scene.requests, s.host.1, { s.host.2 with world := { s.scene with requests := [] } }) = _
  rw [h, ← h]

/-! ## Other things going on -/

theorem lasts_beside {w : Scene S}
    (bodies : ∀ (k : Nat) (b : Body), s.scene.bodies[k]? = some b →
      ∃ b', w.bodies[k]? = some b' ∧ b'.outcome = b.outcome ∧
        (b'.report = b.report ∨ b'.report = none ∧
          ∀ i error value, b.report = some (.complete s.run i error value) →
            Heard (s.beside w) i))
    (requests : ∀ i error value, .complete s.run i error value ∈ s.scene.requests →
      .complete s.run i error value ∈ w.requests ∨ Claimed s i) :
    Lasts es hand busy s es hand busy (s.beside w) where
  expects := List.prefix_refl _
  queued _ h := h
  run := rfl
  items := rfl
  minted := Nat.le_refl _
  groups := List.Subset.refl _
  effects i e he := ⟨e.claimed, he, id, fun h h' => by rw [h] at h'; cases h'⟩
  opened _ _ h := opened_same rfl h
  outcome _ _ := rfl
  bodies := bodies
  watching _ _ h := .inl (h.of_tasks fun _ _ h => h)
  requests := requests

/-- **Something else goes on beside the loop.** -/
theorem Tidy.beside (hs : Tidy K context es top hand busy s) {w : Scene S}
    (h : Lasts es hand busy s es hand busy (s.beside w))
    (threads : ∀ r ∈ w.threads, r ∈ s.scene.threads ∨ Reports es s r)
    (requests : ∀ r ∈ w.requests, r ∈ s.scene.requests ∨ r ∈ s.scene.threads ∨ Reports es s r)
    (futures : s.scene.futures ≤ w.futures) :
    Tidy K context es top hand busy (s.beside w) :=
  hs.next_of_promises h rfl (fun _ hj => .inl hj) (fun _ _ _ ht => .inl ⟨ht, .inr rfl⟩)
    (fun r hr => (threads r hr).imp_right h.reports)
    (fun r hr => (requests r hr).imp_right (Or.imp_right h.reports))
    fun x hx => Nat.lt_of_lt_of_le (hs.futures x hx) futures

/-- What a coroutine was to do stays, if the coroutines do. -/
theorem bodies_same {w : Scene S} (h : s.scene.bodies <+: w.bodies) :
    ∀ (k : Nat) (b : Body), s.scene.bodies[k]? = some b →
      ∃ b', w.bodies[k]? = some b' ∧ b'.outcome = b.outcome ∧
        (b'.report = b.report ∨ b'.report = none ∧
          ∀ i error value, b.report = some (.complete s.run i error value) →
            Heard (s.beside w) i) := by
  intro k b hb
  obtain ⟨more, hmore⟩ := h
  refine ⟨b, ?_, rfl, .inl rfl⟩
  rw [← hmore, List.getElem?_append_left (List.getElem?_eq_some_iff.1 hb).1, hb]

/-- The loop turns to the world. -/
theorem Tidy.listen (hs : Tidy K context es top hand busy s) (M : Manner S) :
    Lasts es hand busy s es hand busy (s.beside (s.scene.listen M)) ∧
      Tidy K context es top hand busy (s.beside (s.scene.listen M)) := by
  have h : Lasts es hand busy s es hand busy (s.beside (s.scene.listen M)) :=
    lasts_beside (bodies_same (List.prefix_refl _)) fun i error value hr =>
      .inl (List.mem_append_left _ hr)
  refine ⟨h, hs.beside h (fun r hr => .inl (List.mem_of_mem_filter hr)) (fun r hr => ?_)
    (Nat.le_refl _)⟩
  rcases List.mem_append.1 hr with hr | hr
  · exact .inl hr
  · exact .inr (.inl (List.mem_of_mem_filter hr))

/-! ## Granting reports -/

/-- What granting reports of completions comes to. -/
structure Heeds (es : List Expected) (hand : List Job) (busy : Option (Nat × Goal))
    (s u : Loop P S) : Prop where
  lasts : Lasts es hand busy s es hand busy u
  claims : ∀ i, Claimed u i → Claimed s i ∨ ∃ error value, Queued hand u (.settle i error value)
  promises : u.promises = s.promises
  futures : u.futures = s.futures

theorem Heeds.refl (es : List Expected) (hand : List Job) (busy : Option (Nat × Goal))
    (s : Loop P S) : Heeds es hand busy s s :=
  ⟨.refl .., fun _ => .inl, rfl, rfl⟩

theorem Heeds.trans (h : Heeds es hand busy s m) (k : Heeds es hand busy m u) :
    Heeds es hand busy s u where
  lasts := h.lasts.trans k.lasts
  claims i hi := by
    rcases k.claims i hi with hi | hq
    · refine (h.claims i hi).imp_right ?_
      rintro ⟨error, value, hq⟩
      exact ⟨error, value, k.lasts.queued _ hq⟩
    · exact .inr hq
  promises := k.promises.trans h.promises
  futures := k.futures.trans h.futures

/-- A report is granted: the effect is claimed, and its completion is in the queue if it was
not claimed before. -/
theorem Tidy.grantReport (hs : Tidy K context es top hand busy s) {r : Request}
    (hr : Reports es s r) :
    Heeds es hand busy s (grant s r) ∧ Tidy K context es top hand busy (grant s r) ∧
      ∀ i error value, r = .complete s.run i error value → Claimed (grant s r) i := by
  obtain ⟨i, o, ⟨ho, e, he, hx⟩, rfl⟩ := hr
  have hgrant : grant s (.reporting s.run i o) = _ :=
    grant_complete s i (errorOf o) (valueOf o)
  obtain ⟨d, c, p⟩ := e
  rw [he] at hgrant
  rw [hgrant]
  cases c with
  | true =>
    refine ⟨.refl .., hs, fun k error value heq => ?_⟩
    cases heq
    exact ⟨_, he, rfl⟩
  | false =>
    let job : Job := .settle i (errorOf o) (valueOf o)
    have hlt := (List.getElem?_eq_some_iff.1 he).1
    have hjob : Tidy K context es top hand busy (s.enqueue job) :=
      hs.enqueue ⟨o, ⟨ho, _, he, hx⟩, rfl, rfl⟩
    have hclaim := State.claim_of_unclaimed (s := s.enqueue job) he rfl
    have hwhy : ∀ e', (s.enqueue job).effects[i]? = some e' → e'.claimed = false →
        (∃ error value, Queued hand (s.enqueue job) (.settle i error value)) ∨
          (s.enqueue job).outcome? e'.promise ≠ none ∨
            ∀ ws, (s.enqueue job).promises[e'.promise]? = some ⟨none, ws⟩ → ws = [] :=
      fun _ _ _ => .inl ⟨_, _, queued_enqueue_self job⟩
    have hlasts : Lasts es hand busy (s.enqueue job) es hand busy _ := lasts_claim hwhy
    have htidy := hjob.claim hwhy
    rw [hclaim] at hlasts htidy
    have hnow : ∀ k, Claimed ((s.enqueue job).claim i).2 k → Claimed s k ∨ k = i := by
      rintro k ⟨e', he', htrue⟩
      rw [hclaim] at he'
      by_cases hik : i = k
      · exact .inr hik.symm
      · exact .inl ⟨e', (List.getElem?_set_ne hik).symm.trans he', htrue⟩
    rw [hclaim] at hnow
    refine ⟨⟨(lasts_enqueue job).trans hlasts, fun k hk => ?_, rfl, rfl⟩, htidy,
      fun k error value heq => ?_⟩
    · refine (hnow k hk).imp_right ?_
      rintro rfl
      exact ⟨_, _, queued_enqueue_self job⟩
    · cases heq
      exact ⟨_, List.getElem?_set_self hlt, rfl⟩

/-- A request that has been granted is gone. -/
theorem Tidy.granted (hs : Tidy K context es top hand busy s) {r : Request} {rest : List Request}
    (hr : s.scene.requests = r :: rest) :
    Heeds es hand busy s ((grant s r).beside { s.scene with requests := rest }) ∧
      Tidy K context es top hand busy
        ((grant s r).beside { s.scene with requests := rest }) := by
  obtain ⟨hheeds, htidy, hclaims⟩ :=
    hs.grantReport (hs.requests r (by rw [hr]; exact List.mem_cons_self ..))
  have hscene : (grant s r).scene = s.scene := by rw [State.scene, host_grant]
  have hrun := hheeds.lasts.run
  have h : Lasts es hand busy (grant s r) es hand busy
      ((grant s r).beside { s.scene with requests := rest }) := by
    refine lasts_beside (bodies_same (hscene ▸ List.prefix_refl _)) fun i error value hmem => ?_
    rw [hscene, hr] at hmem
    rcases List.mem_cons.1 hmem with heq | hmem
    · exact .inr (hclaims i error value (by rw [← heq, hrun]))
    · exact .inl hmem
  refine ⟨hheeds.trans ⟨h, fun _ => .inl, rfl, rfl⟩, htidy.beside h (fun r' hr' => .inl ?_)
    (fun r' hr' => .inl ?_) ?_⟩
  · rwa [hscene]
  · rw [hscene, hr]
    exact List.mem_cons_of_mem _ hr'
  · rw [hscene]

/-- **A tidy loop grants what is asked of it**, and is tidy. -/
theorem Tidy.granting (hs : Tidy K context es top hand busy s) (C : Programs P) (M : Manner S) :
    Heeds es hand busy s (grantAll (C.host (K.world M)) s) ∧
      Tidy K context es top hand busy (grantAll (C.host (K.world M)) s) ∧
      (grantAll (C.host (K.world M)) s).scene.requests = [] := by
  induction hr : s.scene.requests generalizing s with
  | nil =>
    rw [grantAll_nil C K M hr]
    exact ⟨.refl .., hs, hr⟩
  | cons r rest ih =>
    obtain ⟨hheeds, htidy⟩ := hs.granted hr
    have hnext : EventLoop.grantAll (C.host (K.world M)) s = EventLoop.grantAll (C.host (K.world M))
        ((grant s r).beside { s.scene with requests := rest }) := by
      rw [← grantAll_cons, ← hr]
      rfl
    obtain ⟨hrest, hall, hquiet⟩ := ih htidy rfl
    rw [hnext]
    exact ⟨hheeds.trans hrest, hall, hquiet⟩

/-- **The loop turns to the world** and grants what is asked of it. -/
theorem Tidy.hear (hs : Tidy K context es top hand busy s) (C : Programs P) (M : Manner S) :
    let u := EventLoop.grantAll (C.host (K.world M)) (s.beside (s.scene.listen M))
    Heeds es hand busy s u ∧ Tidy K context es top hand busy u ∧ u.scene.requests = [] := by
  obtain ⟨hlasts, htidy⟩ := hs.listen M
  obtain ⟨hheeds, hall, hquiet⟩ := htidy.granting C M
  exact ⟨(Heeds.trans ⟨hlasts, fun _ => .inl, rfl, rfl⟩ hheeds), hall, hquiet⟩

/-- A request that is made at once is granted before the loop hears of anything else. -/
theorem grantAll_ask (C : Programs P) (K : Callables) (M : Manner S) (s : Loop P S) {w : Scene S}
    (h : w.requests = []) (r : Request) :
    grantAll (C.host (K.world M)) (s.beside ((w.ask r).listen M)) =
      grantAll (C.host (K.world M)) ((grant (s.beside w) r).beside (w.listen M)) := by
  have hlisten : (w.ask r).listen M =
      { w.listen M with requests := r :: (w.listen M).requests } := by
    simp only [Scene.listen, Scene.ask, h, List.nil_append, List.singleton_append]
  rw [hlisten, grantAll_cons, grant_beside]
  rfl

/-! ## Coroutines -/

/-- **How far a coroutine gets.**  It comes to a sleep, or it is over and has called back. -/
theorem proceed_cases {w : Scene S} {k : Nat} {b : Body} (hb : w.bodies[k]? = some b) :
    ∃ progress b' reports,
      w.proceed k = (progress,
        { w with bodies := w.bodies.set k b', requests := w.requests ++ reports }) ∧
      b'.outcome = b.outcome ∧
      (b'.report = b.report ∧ reports = [] ∨ b'.report = none ∧ reports = b.report.toList) ∧
      ((∃ n, progress = .asleep n ∧ b'.naps < b.naps) ∨
        progress = .finished b.outcome ∧ reports = b.report.toList ∧ b'.naps = b.naps) := by
  refine ⟨b.run.1, b.run.2.2, b.run.2.1, by simp only [Scene.proceed, hb], ?_⟩
  obtain ⟨before, report, after, outcome⟩ := b
  cases before with
  | cons n rest =>
    refine ⟨rfl, .inl ⟨rfl, rfl⟩, .inl ⟨n, rfl, ?_⟩⟩
    simp only [Body.run, Body.naps, List.length_cons]
    omega
  | nil =>
    cases after with
    | cons n rest =>
      refine ⟨rfl, .inr ⟨rfl, rfl⟩, .inl ⟨n, rfl, ?_⟩⟩
      simp only [Body.run, Body.naps, List.length_cons]
      omega
    | nil => exact ⟨rfl, .inr ⟨rfl, rfl⟩, .inr ⟨rfl, rfl, rfl⟩⟩

end EventLoop
end DescribedEffects
