import DescribedEffects.Proofs.EventLoop.Settling
import Mathlib.Data.List.Permutation

/-!
# Every completion is carried out once

`Settling` says what one step makes of a callback-style effect; this module is about runs.

`completions_are_settled_once` reads the stages off for every state that a run comes to.  That
the stages exclude each other is immediate from the facts they consist of; what takes the run is
that there is one, and that an effect which nothing will come of owes this to a function that
failed.

It is assumed that no exception is reported that marks the end of a computation
(`State.Accepts`).  The promise of an effect of which one is reported stays open for good
(`refused_stays_open`).  Nothing else is assumed of what the functions report or raise, or of how
often and from where they report it.
-/

namespace DescribedEffects
namespace EventLoop

variable {σ : Type} {H : Host σ} {context : Value} {i : Nat} {st : CompletionStage}
  {p : Nat} {d : Descriptor} {s u : State σ}

/-- An effect is in a stage of its completion, in a state of a run that begins with the first
state. -/
def InStage (H : Host σ) (context : Value) (first s : State σ) (i : Nat) (e : PendingEffect) :
    CompletionStage → Prop
  | .unclaimed => e.claimed = false ∧ s.outcome? e.promise = none ∧ s.settlements i = 0
  | .queued => e.claimed = true ∧ s.outcome? e.promise = none ∧ s.settlements i = 1
  | .settled => e.claimed = true ∧ s.outcome? e.promise ≠ none ∧ s.settlements i = 0
  | .raised => e.claimed = true ∧
      (∃ a u, Transition.Reaches (step H context) first a ∧ step H context a = .next u ∧
        Raises H context i a u ∧ Transition.Reaches (step H context) u s) ∧
      ∀ v, Transition.Reaches (step H context) s v →
        v.outcome? e.promise = none ∧ v.settlements i = 0

/-- What a stage says of the effect, of the outcome of its promise and of the queue. -/
theorem facts_of_inStage {first s : State σ} {i : Nat} {e : PendingEffect} {st : CompletionStage}
    (h : InStage H context first s i e st) :
    e.claimed = st.isClaimed ∧ (s.outcome? e.promise).isSome = st.isComplete ∧
      s.settlements i = st.jobs := by
  cases st with
  | unclaimed => exact ⟨h.1, by rw [h.2.1]; rfl, h.2.2⟩
  | queued => exact ⟨h.1, by rw [h.2.1]; rfl, h.2.2⟩
  | settled => exact ⟨h.1, Option.isSome_iff_ne_none.2 h.2.1, h.2.2⟩
  | raised =>
    obtain ⟨hnone, hjobs⟩ := h.2.2 s (.refl s)
    exact ⟨h.1, by rw [hnone]; rfl, hjobs⟩

/-- The step from a state carries out a completion of an effect: a job does, or the awaitable
of an effect that nobody has reported has failed. -/
inductive CarriesOut (s : State σ) (i : Nat) : Prop
  | job {n : Nat} {error value : Value} {rest : List Job} (idle : s.control = .idle)
      (batch : s.batch = n + 1) (ready : s.ready = .settle i error value :: rest)
  | watch {k : Nat} {x : Exn} {e : PendingEffect}
      (control : s.control = .outcome k (.watch i) (.error x)) (ordinary : x.isOrdinary = true)
      (effect : s.effects[i]? = some e) (unclaimed : e.claimed = false)

variable {host : σ} {number : Nat} {earlier : List (Nat × Outcome)} {errand : Errand}

/-- Why nothing will come of an effect. -/
inductive Forsaken (H : Host σ) (context : Value) (first : State σ) (i : Nat) (s : State σ) : Prop
  /-- Its function failed at once, in a step of the run. -/
  | raised {a v : State σ} (reached : Transition.Reaches (step H context) first a)
      (next : step H context a = .next v) (raises : Raises H context i a v)
      (later : Transition.Reaches (step H context) v s)
  /-- Its promise was to refuse a completion. -/
  | refused {v : State σ} (reached : Transition.Reaches (step H context) first v)
      (refuses : ¬ v.Accepts i)

theorem Forsaken.tail {first : State σ} (hs : Forsaken H context first i s)
    (h : step H context s = .next u) : Forsaken H context first i u := by
  cases hs with
  | raised reached next raises later => exact .raised reached next raises (later.tail h)
  | refused reached refuses => exact .refused reached refuses

/-- Every effect of a state that a run comes to stands in some stage, and if nothing will come of
it there is a reason. -/
theorem exists_stands
    (reached : Transition.Reaches (step H context) (State.start host number earlier errand) s)
    {e : PendingEffect} (he : s.effects[i]? = some e) :
    ∃ st, Stands i e.promise e.descriptor st s ∧
      (st = .raised → Forsaken H context (State.start host number earlier errand) i s) := by
  have hall : Transition.Reaches (step H context) (State.start host number earlier errand) s ∧
      ∀ e, s.effects[i]? = some e → ∃ st, Stands i e.promise e.descriptor st s ∧
        (st = .raised → Forsaken H context (State.start host number earlier errand) i s) := by
    refine reached.invariant (P := fun s =>
      Transition.Reaches (step H context) (State.start host number earlier errand) s ∧
        ∀ e, s.effects[i]? = some e → ∃ st, Stands i e.promise e.descriptor st s ∧
          (st = .raised → Forsaken H context (State.start host number earlier errand) i s))
      (fun s u hs hstep => ?_) ⟨.refl _, fun e he => by cases he⟩
    obtain ⟨hreached, hstands⟩ := hs
    have sound := sound_of_reaches hreached
    refine ⟨hreached.tail hstep, fun e he => ?_⟩
    cases hold : s.effects[i]? with
    | none =>
      obtain ⟨st, hst, hraises⟩ :=
        opened_of_step sound hstep i e (List.getElem?_eq_none_iff.1 hold) he
      exact ⟨st, hst, fun h => .raised hreached hstep (hraises h) (.refl u)⟩
    | some x =>
      obtain ⟨st, hst, hforsaken⟩ := hstands x hold
      obtain ⟨b, hb, hb'⟩ := stands_of_step sound hst hstep
      obtain ⟨hp, hd⟩ := hb'.eq he
      refine ⟨b, hp ▸ hd ▸ hb', fun h => ?_⟩
      rcases (h ▸ hb).to_raised with hraised | hrefuses
      · exact (hforsaken hraised).tail hstep
      · exact .refused hreached hrefuses
  exact hall.2 e he

/-- An effect that nothing will come of remains as it is. -/
theorem raised_of_reaches (sound : Sound s) (hs : Stands i p d .raised s)
    (h : Transition.Reaches (step H context) s u) : Stands i p d .raised u := by
  have hboth : Sound u ∧ Stands i p d .raised u := by
    refine h.invariant (P := fun v => Sound v ∧ Stands i p d .raised v)
      (fun v w hv hstep => ?_) ⟨sound, hs⟩
    obtain ⟨b, hb, hb'⟩ := stands_of_step hv.1 hv.2 hstep
    obtain rfl := hb.of_raised
    exact ⟨sound_of_step hv.1 hstep, hb'⟩
  exact hboth.2

/-- **A promise that refuses what is reported stays open for good.**  The effect has been claimed,
so nobody else completes it either. -/
theorem refused_stays_open
    (reached : Transition.Reaches (step H context) (State.start host number earlier errand) s)
    {n : Nat} {error value : Value} {rest : List Job} (idle : s.control = .idle)
    (batch : s.batch = n + 1) (ready : s.ready = .settle i error value :: rest)
    (mark : error.isMark = true) :
    ∃ e, s.effects[i]? = some e ∧ ∀ u, Transition.Reaches (step H context) s u →
      u.outcome? e.promise = none := by
  have sound := sound_of_reaches reached
  have hlt := sound.settles _ (ready ▸ List.mem_cons_self ..) i rfl
  have he : s.effects[i]? = some s.effects[i] := List.getElem?_eq_getElem hlt
  obtain ⟨st, hst, -⟩ := exists_stands reached he
  refine ⟨_, he, fun u hu => ?_⟩
  cases hu with
  | refl =>
    obtain ⟨rfl, -⟩ := queued_of_job hst ready
    exact hst.opened rfl
  | @head _ v _ first later =>
    obtain rfl := Transition.next.inj ((step_of_batch H context idle batch ready).symm.trans first)
    have hraised := raised_of_reaches (sound_of_step sound first)
      (refused_of_job (H := H) (n := n) hst mark ready) later
    exact hraised.opened rfl

/-- Every effect of a state that a run comes to is in some stage, if its promise takes all that
is reported. -/
theorem exists_inStage
    (reached : Transition.Reaches (step H context) (State.start host number earlier errand) s)
    (accepts : ∀ v, Transition.Reaches (step H context) (State.start host number earlier errand) v →
      v.Accepts i)
    {e : PendingEffect} (he : s.effects[i]? = some e) :
    ∃ st, InStage H context (State.start host number earlier errand) s i e st ∧
      Stands i e.promise e.descriptor st s := by
  obtain ⟨st, hst, hforsaken⟩ := exists_stands reached he
  have hclaimed := hst.claimed he
  refine ⟨st, ?_, hst⟩
  cases st with
  | unclaimed => exact ⟨hclaimed, hst.opened rfl, hst.settlements⟩
  | queued => exact ⟨hclaimed, hst.opened rfl, hst.settlements⟩
  | settled => exact ⟨hclaimed, Option.isSome_iff_ne_none.1 hst.outcome, hst.settlements⟩
  | raised =>
    cases hforsaken rfl with
    | raised hbefore next raises later =>
      refine ⟨hclaimed, ⟨_, _, hbefore, next, raises, later⟩, fun v hv => ?_⟩
      have hraised := raised_of_reaches (sound_of_reaches reached) hst hv
      exact ⟨hraised.opened rfl, hraised.settlements⟩
    | refused hbefore refuses => exact absurd (accepts _ hbefore) refuses

/-- **A completion that is carried out finds the promise open**, and completes it. -/
theorem settled_of_carriesOut (sound : Sound s) (accepts : s.Accepts i) {e : PendingEffect}
    (hs : Stands i e.promise e.descriptor st s) (h : CarriesOut s i) :
    s.outcome? e.promise = none ∧
      ∃ u, step H context s = .next u ∧ u.outcome? e.promise ≠ none := by
  cases h with
  | @job n error value rest idle batch ready =>
    obtain ⟨rfl, -⟩ := queued_of_job hs ready
    have htaken := accepts error value (ready ▸ List.mem_cons_self ..)
    have hsettled := settled_of_job (H := H) (n := n) sound hs htaken ready
    exact ⟨hs.opened rfl, _, step_of_batch H context idle batch ready,
      Option.isSome_iff_ne_none.1 hsettled.outcome⟩
  | @watch k x e' control ordinary effect unclaimed =>
    have hclaimed := hs.claimed effect
    obtain rfl : st = .unclaimed := by
      rw [unclaimed] at hclaimed
      cases st <;> first | rfl | cases hclaimed
    have hsettled := stands_of_watch H sound.toIdle hs.toIdle k ordinary
    have hstep : step H context s = .next (finishWatch s.toIdle k i (.error x)) := by
      simp only [step, control]
      rfl
    exact ⟨hs.opened rfl, _, hstep, Option.isSome_iff_ne_none.1 hsettled.outcome⟩

/-- An effect that a completion is carried out for is there. -/
theorem CarriesOut.exists_effect (sound : Sound s) (h : CarriesOut s i) :
    ∃ e, s.effects[i]? = some e := by
  cases h with
  | job idle batch ready =>
    have hlt := sound.settles _ (ready ▸ List.mem_cons_self ..) i rfl
    exact ⟨_, List.getElem?_eq_getElem hlt⟩
  | watch control ordinary effect unclaimed => exact ⟨_, effect⟩

/-- **No completion is lost or carried out twice**, if no exception is reported that marks the end
of a computation.  In every state that a run comes to each callback-style effect is in exactly
one of four stages: nobody has reported it; it is claimed and exactly one job carries that out;
its outcome is there; or its function failed before anybody reported it, and nothing ever comes
of it.  So a completion that is carried out finds the promise open and completes it, and a loop
that has nothing left to do has carried out every completion that was reported. -/
theorem completions_are_settled_once
    (reached : Transition.Reaches (step H context) (State.start host number earlier errand) s)
    (accepts : ∀ v, Transition.Reaches (step H context) (State.start host number earlier errand) v →
      ∀ i, v.Accepts i) :
    (∀ i e, s.effects[i]? = some e →
      ∃! st, InStage H context (State.start host number earlier errand) s i e st) ∧
    (∀ i, CarriesOut s i → ∃ e u, s.effects[i]? = some e ∧ s.outcome? e.promise = none ∧
      step H context s = .next u ∧ u.outcome? e.promise ≠ none) ∧
    ∀ r, step H context s = .done (.deadlock r) → ∀ i e, s.effects[i]? = some e →
      e.claimed = true →
      InStage H context (State.start host number earlier errand) s i e .settled ∨
        InStage H context (State.start host number earlier errand) s i e .raised := by
  have sound := sound_of_reaches reached
  refine ⟨fun i e he => ?_, fun i hcarries => ?_, fun r hr i e he hclaimed => ?_⟩
  · obtain ⟨st, hst, -⟩ := exists_inStage reached (fun v hv => accepts v hv i) he
    refine ⟨st, hst, fun b hb => ?_⟩
    obtain ⟨hc, ho, hj⟩ := facts_of_inStage hst
    obtain ⟨hc', ho', hj'⟩ := facts_of_inStage hb
    exact CompletionStage.eq_of_facts (hc'.symm.trans hc) (ho'.symm.trans ho) (hj'.symm.trans hj)
  · obtain ⟨e, he⟩ := hcarries.exists_effect sound
    obtain ⟨st, hstands, -⟩ := exists_stands reached he
    obtain ⟨hopen, u, hu, hcomplete⟩ :=
      settled_of_carriesOut sound (accepts s reached i) hstands hcarries
    exact ⟨e, u, he, hopen, hu, hcomplete⟩
  · obtain ⟨-, ⟨o, hfinished, -⟩ | ⟨-, -, hready, -⟩⟩ := ends_of_main (main_of_reaches reached) hr
    · cases hfinished
    · obtain ⟨st, hst, hstands⟩ := exists_inStage reached (fun v hv => accepts v hv i) he
      have hnone : s.settlements i = 0 := by simp [State.settlements, hready]
      cases st with
      | unclaimed => exact absurd (hclaimed.symm.trans hst.1) (by simp)
      | queued => exact absurd (hnone.symm.trans hst.2.2) (by simp)
      | settled => exact .inl hst
      | raised => exact .inr hst

/-- A world in which one function reports a success twice and another one fails at once. -/
def uneven : World (List Request) :=
  hasty.withCalls fun f args w =>
    match f, args.getLast? with
    | .function "fail", _ => (.error ⟨7, .plain .value []⟩, w)
    | _, some (.done run effect) =>
      (.ok .null, w ++ [.complete run effect .null (.int 1), .complete run effect .null (.int 2)])
    | _, _ => (.ok .null, w)

/-- The job carries out a completion that no promise takes. -/
def Job.isRefused : Job → Bool
  | .settle _ error _ => error.isMark
  | _ => false

/-- If no such job is ever in the queue of a run, all completions are taken. -/
theorem accepts_of_ends {first v : State σ} {r : Ending σ}
    (h : Transition.Ends (step H context) (fun s => s.ready.filter Job.isRefused) first [] r)
    (reached : Transition.Reaches (step H context) first v) (i : Nat) : v.Accepts i := by
  intro error value hqueued
  by_contra hmark
  have hrefused : Job.settle i error value ∈ v.ready.filter Job.isRefused :=
    List.mem_filter.2 ⟨hqueued, Bool.eq_true_of_not_eq_false hmark⟩
  exact List.not_mem_nil (h.mem_of_reaches reached hrefused)

/-- What the queue and the promises say of the effects of a state. -/
def State.facts (s : State σ) : List (Bool × Bool × Nat) :=
  s.effects.mapIdx fun i e => (e.claimed, (s.outcome? e.promise).isSome, s.settlements i)

/-- Two effects of a group, of which one has been reported twice and the other has failed. -/
theorem uneven_effects_stand :
    let context : Value :=
      .record [(.text "fetch", .function "fetch"), (.text "fail", .function "fail")]
    let first := State.start (⟨[], 0, 0⟩ : Site (List Request)) 0 []
      (.perform (.list [.mode .parallel, .list [.mode .callback, .text "fetch"],
        .list [.mode .callback, .text "fail"]]))
    ∃ s fetch fail, Transition.Reaches (step uneven.still context) first s ∧
      s.effects = [fetch, fail] ∧
      InStage uneven.still context first s 0 fetch .queued ∧
      InStage uneven.still context first s 1 fail .raised := by
  intro context first
  have hrun : (Transition.runFor (resolve uneven.still context 2) 12 first).map
      (fun fate => match fate with
        | .answered _ _ s => some s.facts
        | .over _ => none) = some (some [(true, false, 1), (true, false, 0)]) := by cbv
  obtain ⟨fate, hfate, hfacts⟩ := Option.map_eq_some_iff.1 hrun
  cases fate with
  | answered goal o s =>
    obtain ⟨v, hv, hdone⟩ := Transition.exists_runFor_iff.1 ⟨12, hfate⟩
    obtain ⟨rfl, -⟩ := eq_of_answered hdone
    have hreached := reaches_of_resolve hv
    have hfacts : v.facts = [(true, false, 1), (true, false, 0)] := Option.some.inj hfacts
    obtain ⟨fetch, fail, heffects⟩ : ∃ fetch fail, v.effects = [fetch, fail] :=
      List.length_eq_two.1 (by simpa [State.facts] using congrArg List.length hfacts)
    have hboth := hfacts
    simp only [State.facts, heffects, List.mapIdx_cons, List.mapIdx_nil, List.cons.injEq,
      Prod.mk.injEq, and_true] at hboth
    obtain ⟨⟨hc, ho, hj⟩, hc', ho', hj'⟩ := hboth
    have hwatch : (Transition.watchFor (step uneven.still context)
        (fun s => s.ready.filter Job.isRefused) 40 first).map (fun run => run.1.length) =
        some 0 := by cbv
    obtain ⟨⟨refused, r⟩, hwhole, hnone⟩ := Option.map_eq_some_iff.1 hwatch
    obtain rfl := List.eq_nil_of_length_eq_zero hnone
    have hends := Transition.exists_watchFor_iff.1 ⟨40, hwhole⟩
    have hstages := (completions_are_settled_once hreached fun _ => accepts_of_ends hends).1
    obtain ⟨st, hst, -⟩ := hstages 0 fetch (by rw [heffects]; rfl)
    obtain ⟨st', hst', -⟩ := hstages 1 fail (by rw [heffects]; rfl)
    refine ⟨v, fetch, fail, hreached, heffects, ?_, ?_⟩
    · obtain ⟨k, k', k''⟩ := facts_of_inStage hst
      obtain rfl : st = .queued :=
        CompletionStage.eq_of_facts (k.symm.trans hc) (k'.symm.trans ho) (k''.symm.trans hj)
      exact hst
    · obtain ⟨k, k', k''⟩ := facts_of_inStage hst'
      obtain rfl : st' = .raised :=
        CompletionStage.eq_of_facts (k.symm.trans hc') (k'.symm.trans ho') (k''.symm.trans hj')
      exact hst'
  | _ => simp at hfacts

end EventLoop
end DescribedEffects
