import DescribedEffects.Proofs.EventLoop.Closing

/-!
# The driver as a dialogue

A loop that drives a computation and comes to its end shows exactly what a dialogue shows
with a partner who knows the outcomes of the effects in advance (`plays_of_ends`).
Conversely, if the effects of a dialogue have just these outcomes in the loop, one after the
other, then the loop comes to its end and shows what the dialogue shows (`ends_of_dialogue`).

`Plays` is what is left of a dialogue from each stage of the loop.
-/

namespace DescribedEffects
namespace EventLoop

variable {P W : Type} (C : Programs P) (V : World W) {context : Value} {captured : Bool}
  {trace : Option Trace} {items : Nat} {s u : State (P × Site W)} {host : P × Site W}

/-! ## The beginning -/

variable (context) in
/-- The loop begins to drive a computation. -/
theorem opening (host : P × Site W) (run : Nat) (earlier : List (Nat × Outcome)) (g : Nat)
    (trace : Option Trace) (captured : Bool) :
    ∃ s, Transition.Trail (step (C.host V) context) (shows C)
        (State.start host run earlier (.drive (.computation g) trace captured)) [] s ∧
      Steady s ∧
      Stage captured trace (.telling ⟨host.1, [g], .send .null⟩ host.2.items) s := by
  obtain ⟨htrail, hsteady⟩ := trail_begun C V context host run earlier g trace captured
  exact ⟨_, htrail, hsteady, .telling ⟨host.1, [g], .send .null⟩ _ [] ⟨[], none, trace⟩ _ rfl
    (List.cons_ne_nil _ _) rfl rfl⟩

/-! ## From the loop to the dialogue -/

/-- What is left of a dialogue: what it shows, and its outcome. -/
inductive Plays : Stand P → List Event → Outcome → Prop
  | telling (q : Solo P) (items : Nat) (ls : List Event) (o : Outcome) (p : P) (n : Nat)
      (ends : Transition.Ends (Dialogue.step C .script) (Dialogue.shows C .script)
        ⟨q, items, (exchanges ls).map Prod.snd⟩ ls (.ended o p ⟨n, []⟩)) :
      Plays (.telling q items) ls o
  | performing (d : Descriptor) (p : P) (a : List Nat) (items : Nat) (r : Outcome)
      (ls : List Event) (o : Outcome) (rest : Plays (.tell p a items r) ls o) :
      Plays (.performing d p a items) (.answered d r :: ls) o
  | awaiting (d : Descriptor) (p : P) (a : List Nat) (items : Nat) (r : Outcome)
      (ls : List Event) (o : Outcome) (rest : Plays (.tell p a items r) ls o) :
      Plays (.awaiting d p a items) (.answered d r :: ls) o
  | finished (o : Outcome) : Plays (.finished o) [] o

variable {C}

/-- What is left once the innermost computation has been told the outcome of its effect. -/
theorem Plays.ends {p : P} {a : List Nat} {r : Outcome} {ls : List Event} {o : Outcome}
    (h : Plays C (.tell p a items r) ls o) :
    (∃ q, Dialogue.tell p a (⟨items, (exchanges ls).map Prod.snd⟩ : Script) r =
        .next ⟨q, items, (exchanges ls).map Prod.snd⟩ ∧
      ∃ p' n, Transition.Ends (Dialogue.step C .script) (Dialogue.shows C .script)
        ⟨q, items, (exchanges ls).map Prod.snd⟩ ls (.ended o p' ⟨n, []⟩)) ∨
      ls = [] ∧ Dialogue.tell p a (⟨items, []⟩ : Script) r = .done (.ended o p ⟨items, []⟩) := by
  unfold Stand.tell at h
  unfold Dialogue.tell
  cases r with
  | ok v =>
    cases h with
    | telling q items ls o p' n ends => exact .inl ⟨_, rfl, p', n, ends⟩
  | error e =>
    dsimp only at h ⊢
    by_cases he : e.isOrdinary = true
    · rw [if_pos he] at h
      rw [if_pos he]
      cases h with
      | telling q items ls o p' n ends => exact .inl ⟨_, rfl, p', n, ends⟩
    · rw [if_neg he] at h
      cases h with
      | finished o => exact .inr ⟨rfl, if_neg he⟩

/-- A resumption answers no effect. -/
theorem exchanges_resumed (q : Solo P) (ls : List Event) :
    exchanges (Solo.shows C q ++ ls) = exchanges ls := by
  rw [exchanges_append, Solo.exchanges_shows, List.nil_append]

section

variable {q : Solo P} {item : Value} {p : P} {a : List Nat} {ls : List Event} {o : Outcome}

/-- What the innermost computation yields is refused. -/
theorem Plays.of_refused {m : Malformed} (hq : Solo.step C q = .done (.yielded item p a))
    (hparse : Descriptor.parse item = .error m)
    (h : Plays C (.telling ⟨p, a, .throw ⟨Nat.pair (items + 1) 0, m.body⟩⟩ (items + 1)) ls o) :
    Plays C (.telling q items) (Solo.shows C q ++ ls) o := by
  cases h with
  | telling _ _ _ _ p' n ends =>
    refine .telling q items _ o p' n ?_
    have hstep : Dialogue.step C .script ⟨q, items, (exchanges ls).map Prod.snd⟩ = _ :=
      Dialogue.step_of_pause hq
    have hshows : Dialogue.shows C .script ⟨q, items, (exchanges ls).map Prod.snd⟩ = _ :=
      Dialogue.shows_of_pause hq
    rw [Dialogue.resolve_of_answer (Partner.script_of_malformed hparse items _), Dialogue.tell,
      if_pos (by simp)] at hstep
    rw [Dialogue.answers_of_malformed hparse, List.append_nil] at hshows
    rw [exchanges_resumed, ← hshows]
    exact .more hstep ends

/-- What the innermost computation yields is performed. -/
theorem Plays.of_performing {d : Descriptor} (hq : Solo.step C q = .done (.yielded item p a))
    (hparse : Descriptor.parse item = .ok d)
    (h : Plays C (.performing d p a (items + 1)) ls o) :
    Plays C (.telling q items) (Solo.shows C q ++ ls) o := by
  cases h with
  | performing _ _ _ _ r ls o rest =>
    have houtcomes : (exchanges (Solo.shows C q ++ .answered d r :: ls)).map Prod.snd =
        r :: (exchanges ls).map Prod.snd := by
      rw [exchanges_resumed]
      rfl
    have hanswer := Partner.script_of_effect hparse items r ((exchanges ls).map Prod.snd)
    have hstep := (Dialogue.step_of_pause hq).trans (Dialogue.resolve_of_answer hanswer p a)
    have hshows : Dialogue.shows C .script ⟨q, items, r :: (exchanges ls).map Prod.snd⟩ =
        Solo.shows C q ++ [.answered d r] := by
      rw [Dialogue.shows_of_pause hq,
        Dialogue.answers_of_answer hparse (congrArg Prod.fst hanswer) p a]
    have hsplit : Solo.shows C q ++ .answered d r :: ls =
        Dialogue.shows C .script ⟨q, items, r :: (exchanges ls).map Prod.snd⟩ ++ ls := by
      rw [hshows, List.append_assoc]
      rfl
    rcases rest.ends with ⟨q', htell, p', n, ends⟩ | ⟨rfl, htell⟩
    · rw [htell] at hstep
      refine .telling q items _ o p' n ?_
      rw [houtcomes, hsplit]
      exact .more hstep ends
    · rw [exchanges_nil, List.map_nil] at hstep hshows houtcomes
      rw [htell] at hstep
      refine .telling q items _ o p (items + 1) ?_
      rw [houtcomes, ← hshows]
      exact .last hstep

/-- The innermost computation is told something. -/
theorem Plays.of_telling
    (h : (Solo.step C q).Leads (fun q' => Plays C (.telling q' items) ls o)
      (fun pause => Plays C (.pause items pause) ls o)) :
    Plays C (.telling q items) (Solo.shows C q ++ ls) o := by
  cases hq : Solo.step C q with
  | next q' =>
    rw [hq] at h
    cases h with
    | telling _ _ _ _ p n ends =>
      refine .telling q items _ o p n ?_
      rw [exchanges_resumed, ← Dialogue.shows_of_next (A := .script) hq]
      exact .more (Dialogue.step_of_next hq) ends
  | done pause =>
    rw [hq] at h
    have h : Plays C (.pause items pause) ls o := h
    cases pause with
    | ended o' p =>
      cases h with
      | finished o =>
        refine .telling q items _ o p items ?_
        have hshows : Dialogue.shows C .script ⟨q, items, []⟩ = Solo.shows C q ++ [] :=
          Dialogue.shows_of_pause hq
        rw [exchanges_resumed, ← hshows]
        exact .last (Dialogue.step_of_pause hq)
    | yielded item p a =>
      simp only [Stand.pause] at h
      cases hparse : Descriptor.parse item with
      | error m =>
        rw [hparse] at h
        exact .of_refused hq hparse h
      | ok d =>
        rw [hparse] at h
        exact .of_performing hq hparse h

end

/-- What a loop leaves when a driven computation has ended with an outcome. -/
structure Concludes (captured : Bool) (trace : Option Trace) (ls : List Event) (o : Outcome)
    (r : Outcome) (s : State (P × Site W)) : Prop where
  result : r = result captured o
  report : s.tasks[0]?.map Task.phase =
    some (.finished (some ⟨o, (exchanges ls).foldl (fun t x => keep t x.1 x.2) trace⟩))

/-- A resumption makes no difference to that. -/
theorem Concludes.resumed {ls : List Event} {o r : Outcome} {q : Solo P}
    (h : Concludes captured trace ls o r s) :
    Concludes captured trace (Solo.shows C q ++ ls) o r s where
  result := h.result
  report := by
    rw [exchanges_resumed]
    exact h.report

variable {stand : Stand P}

/-- A loop at its end shows what is left of a dialogue. -/
theorem plays_of_done {r : Ending (P × Site W)} (final : step (C.host V) context s = .done r)
    (hs : Steady s) (hstage : Stage captured trace stand s) (htrace : Free trace) :
    (∃ o o' t, r = .finished o' t ∧ Plays C stand (shows C s) o ∧
      Concludes captured trace (shows C s) o o' t) ∨ ∃ t, r = .deadlock t := by
  cases stand with
  | telling q items =>
    obtain ⟨u, hu, -⟩ := telling_step context C V hs hstage
    rw [final] at hu
    cases hu
  | performing d p a items =>
    obtain ⟨u, hu, -⟩ := performing_step context C V hs hstage
    rw [final] at hu
    cases hu
  | awaiting d p a items =>
    rcases awaiting_step context C V hs hstage htrace with
      ⟨u, hu, -⟩ | ⟨o, u, hu, -⟩ | ⟨hdone, -⟩
    · rw [final] at hu
      cases hu
    · rw [final] at hu
      cases hu
    · rw [final] at hdone
      cases hdone
      exact .inr ⟨s, rfl⟩
  | finished o =>
    obtain ⟨hshows, hlast⟩ := over_step context C V hs hstage
    rw [final] at hlast
    obtain rfl : r = .finished (result captured o) s := hlast
    rw [hshows]
    cases hstage with
    | finished o s hover outcome => exact .inl ⟨o, _, s, rfl, .finished o, rfl, hover.finished⟩

/-- A step of the loop shows what the dialogue shows before what is left of it. -/
theorem plays_of_step (first : step (C.host V) context s = .next u) (hs : Steady s)
    (hstage : Stage captured trace stand s) (htrace : Free trace) :
    ∃ stand' trace', Free trace' ∧ Stage captured trace' stand' u ∧
      ∀ ls o r (t : State (P × Site W)), Plays C stand' ls o → Concludes captured trace' ls o r t →
        Plays C stand (shows C s ++ ls) o ∧ Concludes captured trace (shows C s ++ ls) o r t := by
  cases stand with
  | telling q items =>
    obtain ⟨v, hv, hshows, hleads⟩ := telling_step context C V hs hstage
    obtain rfl : v = u := Transition.next.inj (hv.symm.trans first)
    rw [hshows]
    cases hq : Solo.step C q with
    | next q' =>
      rw [hq] at hleads
      exact ⟨_, trace, htrace, hleads, fun ls o r t hplays hend =>
        ⟨.of_telling (by rw [hq]; exact hplays), hend.resumed⟩⟩
    | done pause =>
      rw [hq] at hleads
      exact ⟨_, trace, htrace, hleads, fun ls o r t hplays hend =>
        ⟨.of_telling (by rw [hq]; exact hplays), hend.resumed⟩⟩
  | performing d p a items =>
    obtain ⟨v, hv, hshows, -, hnext⟩ := performing_step context C V hs hstage
    obtain rfl : v = u := Transition.next.inj (hv.symm.trans first)
    rw [hshows]
    refine ⟨_, trace, htrace, hnext, fun ls o r t hplays hend => ?_⟩
    cases hplays with
    | awaiting _ _ _ _ r ls o rest => exact ⟨.performing d p a items r ls o rest, hend⟩
  | awaiting d p a items =>
    rcases awaiting_step context C V hs hstage htrace with
      ⟨v, hv, hshows, -, hnext⟩ | ⟨r', v, hv, hshows, -, hnext⟩ | ⟨hdone, -⟩
    · obtain rfl : v = u := Transition.next.inj (hv.symm.trans first)
      rw [hshows]
      exact ⟨_, trace, htrace, hnext, fun ls o r t hplays hend => ⟨hplays, hend⟩⟩
    · obtain rfl : v = u := Transition.next.inj (hv.symm.trans first)
      rw [hshows]
      exact ⟨_, _, htrace.keep d r', hnext, fun ls o r t hplays hend =>
        ⟨.awaiting d p a items r' ls o hplays, hend.result, hend.report⟩⟩
    · rw [first] at hdone
      cases hdone
  | finished o =>
    obtain ⟨hshows, hnext⟩ := over_step context C V hs hstage
    rw [first] at hnext
    rw [hshows]
    exact ⟨_, trace, htrace, hnext, fun ls o r t hplays hend => ⟨hplays, hend⟩⟩

/-- **A loop that comes to its end shows what a dialogue shows**, with a partner who knows
the outcomes of the effects. -/
theorem plays_of_ends {ls : List Event} {r : Ending (P × Site W)}
    (h : Transition.Ends (step (C.host V) context) (shows C) s ls r)
    (hs : Steady s) (hstage : Stage captured trace stand s) (htrace : Free trace) :
    (∃ o o' t, r = .finished o' t ∧ Plays C stand ls o ∧ Concludes captured trace ls o o' t) ∨
      ∃ t, r = .deadlock t := by
  induction h generalizing trace stand with
  | last final => exact plays_of_done V final hs hstage htrace
  | more first _ ih =>
    obtain ⟨stand', trace', hfree, hnext, hshows⟩ := plays_of_step V first hs hstage htrace
    refine (ih (hs.next first) hnext hfree).imp_left ?_
    rintro ⟨o, o', t, rfl, hplays, hend⟩
    exact ⟨o, o', t, rfl, hshows _ _ _ _ hplays hend⟩

/-! ## From the dialogue to the loop -/

variable (C context) in
/-- The effects that are yielded from here on have these outcomes, one after the other. -/
def ResolvesInTurn (captured : Bool) (s : State (P × Site W)) (outcomes : List Outcome) : Prop :=
  ∀ ls a j d, Transition.Trail (step (C.host V) context) (shows C) s ls a →
    a.control = .perform 0 (.drive j captured) d → ∀ r, outcomes[(exchanges ls).length]? = some r →
      ∃ b, Transition.Trail (step (C.host V) context) (shows C) a [] b ∧
        b.control = .outcome 0 (.drive j captured) r

/-- What is resolved in turn from the start is resolved in turn later. -/
theorem ResolvesInTurn.later {outcomes : List Outcome} {ls : List Event}
    (h : ResolvesInTurn C V context captured s outcomes)
    (hu : Transition.Trail (step (C.host V) context) (shows C) s ls u) :
    ResolvesInTurn C V context captured u (outcomes.drop (exchanges ls).length) := by
  intro ms a j d ha hc r hr
  refine h _ a j d (hu.trans ha) hc r ?_
  rwa [exchanges_append, List.length_append, ← List.getElem?_drop]

/-- The outcome of an effect reaches the computation that yielded it. -/
theorem answered_of_trail {d : Descriptor} {p : P} {a : List Nat} {r : Outcome}
    {b : State (P × Site W)} {goal : Goal} (hs : Steady s) (htrace : Free trace)
    (hstage : Stage captured trace (.awaiting d p a items) s)
    (h : Transition.Trail (step (C.host V) context) (shows C) s [] b)
    (hb : b.control = .outcome 0 goal r) :
    ∃ v, Transition.Trail (step (C.host V) context) (shows C) s [.answered d r] v ∧ Steady v ∧
      Stage captured (keep trace d r) (.tell p a items r) v := by
  obtain ⟨ls, hls⟩ : ∃ ls : List Event, ls = [] := ⟨[], rfl⟩
  rw [← hls] at h
  induction h with
  | refl s =>
    rcases awaiting_step context C V hs hstage htrace with
      ⟨u, -, -, hnone, -⟩ | ⟨o, u, hu, hshows, ⟨j, hc⟩, hnext⟩ | ⟨-, -, hnone⟩
    · exact absurd hb (hnone _ _)
    · rw [hb] at hc
      cases hc
      have htrail : Transition.Trail _ (shows C) _ _ _ := .single hu
      rw [hshows] at htrail
      exact ⟨u, htrail, hs.next hu, hnext⟩
    · exact absurd hb (hnone _ _)
  | @head s u b ls first rest ih =>
    obtain ⟨hnothing, hrest⟩ := List.append_eq_nil_iff.1 hls
    rcases awaiting_step context C V hs hstage htrace with
      ⟨u', hu, hshows, -, hnext⟩ | ⟨o, u', hu, hshows, -⟩ | ⟨hdone, -⟩
    · obtain rfl : u' = u := Transition.next.inj (hu.symm.trans first)
      obtain ⟨v, hv, hvs, hvstage⟩ := ih (hs.next first) hnext hb hrest
      have htrail := Transition.Trail.head first hv
      rw [hshows] at htrail
      exact ⟨v, htrail, hvs, hvstage⟩
    · rw [hshows] at hnothing
      cases hnothing
    · rw [first] at hdone
      cases hdone

/-- An effect is performed, and its outcome reaches the computation that yielded it. -/
theorem performed {d : Descriptor} {p : P} {a : List Nat} {r : Outcome} {rest : List Outcome}
    (hs : Steady s) (htrace : Free trace)
    (hstage : Stage captured trace (.performing d p a items) s)
    (turn : ResolvesInTurn C V context captured s (r :: rest)) :
    ∃ v, Transition.Trail (step (C.host V) context) (shows C) s [.answered d r] v ∧ Steady v ∧
      Stage captured (keep trace d r) (.tell p a items r) v := by
  obtain ⟨u, hu, hshows, ⟨j, hc⟩, hnext⟩ := performing_step context C V hs hstage
  obtain ⟨b, hb, hbc⟩ := turn [] s j d (.refl s) hc r rfl
  rcases hb.cases_of_next hu with ⟨rfl, -⟩ | ⟨ms, hms, hrest⟩
  · rw [hc] at hbc
    cases hbc
  · obtain ⟨-, rfl⟩ := List.append_eq_nil_iff.1 hms.symm
    obtain ⟨v, hv, hvs, hvstage⟩ := answered_of_trail V (hs.next hu) htrace hnext hrest hbc
    have htrail := Transition.Trail.head hu hv
    rw [hshows] at htrail
    exact ⟨v, htrail, hvs, hvstage⟩

/-- The loop and the dialogue tell the innermost computation the same. -/
theorem told_of_stage {p : P} {a : List Nat} {r : Outcome} {rest : List Outcome}
    (hstage : Stage captured trace (.tell p a items r) s) :
    (Dialogue.tell p a (⟨items, rest⟩ : Script) r).Leads
      (fun D => D.partner = ⟨items, rest⟩ ∧ Stage captured trace (.telling D.solo items) s)
      (fun E => ∀ o p' rest', E = .ended o p' rest' → Stage captured trace (.finished o) s) := by
  unfold Stand.tell at hstage
  cases r with
  | ok v => exact ⟨rfl, hstage⟩
  | error e =>
    dsimp only [Dialogue.tell] at hstage ⊢
    by_cases he : e.isOrdinary = true
    · rw [if_pos he] at hstage ⊢
      exact ⟨rfl, hstage⟩
    · rw [if_neg he] at hstage ⊢
      intro o p' rest' h
      cases h
      exact hstage

/-- **The loop follows a dialogue** whose outcomes the effects have in the loop as well. -/
theorem follows {q : Solo P} {outcomes : List Outcome} (hs : Steady s) (htrace : Free trace)
    (hstage : Stage captured trace (.telling q items) s)
    (turn : ResolvesInTurn C V context captured s outcomes) :
    (Dialogue.step C .script ⟨q, items, outcomes⟩).Leads
      (fun D => ∃ v trace', Transition.Trail (step (C.host V) context) (shows C) s
          (Dialogue.shows C .script ⟨q, items, outcomes⟩) v ∧ Steady v ∧ Free trace' ∧
          Stage captured trace' (.telling D.solo D.partner.items) v ∧
          ResolvesInTurn C V context captured v D.partner.outcomes)
      (fun E => ∀ o p rest, E = .ended o p rest → ∃ v trace',
        Transition.Trail (step (C.host V) context) (shows C) s
          (Dialogue.shows C .script ⟨q, items, outcomes⟩) v ∧ Steady v ∧
          Stage captured trace' (.finished o) v) := by
  obtain ⟨u, hu, hshows, hleads⟩ := telling_step context C V hs hstage
  have hus := hs.next hu
  have htrail : Transition.Trail _ (shows C) _ _ _ := .single hu
  rw [hshows] at htrail
  have hlater : ResolvesInTurn C V context captured u outcomes := by
    have hlater := turn.later V htrail
    rwa [Solo.exchanges_shows, List.length_nil, List.drop_zero] at hlater
  cases hq : Solo.step C q with
  | next q' =>
    rw [hq] at hleads
    rw [Dialogue.step_of_next hq, Dialogue.shows_of_next hq]
    exact ⟨u, trace, htrail, hus, htrace, hleads, hlater⟩
  | done pause =>
    rw [hq] at hleads
    have hleads : Stage captured trace (.pause items pause) u := hleads
    rw [Dialogue.step_of_pause hq, Dialogue.shows_of_pause hq]
    cases pause with
    | ended o p =>
      intro o' p' rest h
      cases h
      refine ⟨u, trace, ?_, hus, hleads⟩
      rwa [Dialogue.answers, List.append_nil]
    | yielded item p a =>
      simp only [Stand.pause] at hleads
      cases hparse : Descriptor.parse item with
      | error m =>
        rw [hparse] at hleads
        rw [Dialogue.resolve_of_answer (Partner.script_of_malformed hparse items outcomes),
          Dialogue.answers_of_malformed hparse, List.append_nil, Dialogue.tell, if_pos (by simp)]
        exact ⟨u, trace, htrail, hus, htrace, hleads, hlater⟩
      | ok d =>
        rw [hparse] at hleads
        cases outcomes with
        | nil =>
          have hsilent : Dialogue.resolve .script (⟨items, []⟩ : Script) (.yielded item p a) =
              .done (.silent item p a ⟨items + 1, []⟩) := by
            simp only [Dialogue.resolve, Partner.script, hparse]
          rw [hsilent]
          intro o p' rest h
          cases h
        | cons r rest =>
          have hanswer := Partner.script_of_effect hparse items r rest
          have hanswers := Dialogue.answers_of_answer hparse (congrArg Prod.fst hanswer) p a
          rw [Dialogue.resolve_of_answer hanswer, hanswers]
          obtain ⟨v, hv, hvs, hvstage⟩ := performed V hus htrace hleads hlater
          have hpast := htrail.trans hv
          have hturn : ResolvesInTurn C V context captured v rest := hlater.later V hv
          refine (told_of_stage hvstage).imp (fun D hD => ?_) fun E hE o p' rest' h => ?_
          · obtain ⟨hpartner, hnext⟩ := hD
            rw [hpartner]
            exact ⟨v, _, hpast, hvs, htrace.keep d r, hnext, hturn⟩
          · exact ⟨v, _, hpast, hvs, hE o p' rest' h⟩

/-- **If the effects of a dialogue have the same outcomes in the loop**, one after the other,
the loop comes to its end and shows what the dialogue shows. -/
theorem ends_of_dialogue {D : Dialogue P Script} {ls : List Event} {E : Dialogue.Ending P Script}
    (h : Transition.Ends (Dialogue.step C .script) (Dialogue.shows C .script) D ls E)
    {o : Outcome} {p : P} {rest : Script} (hE : E = .ended o p rest) (hs : Steady s)
    (htrace : Free trace) (hstage : Stage captured trace (.telling D.solo D.partner.items) s)
    (turn : ResolvesInTurn C V context captured s D.partner.outcomes) :
    ∃ t, Transition.Ends (step (C.host V) context) (shows C) s ls
      (.finished (result captured o) t) := by
  induction h generalizing trace s with
  | @last D E final =>
    have hfollows := follows V hs htrace hstage turn
    rw [final] at hfollows
    obtain ⟨v, trace', htrail, hvs, hvstage⟩ := hfollows o p rest hE
    obtain ⟨t, hends⟩ := ends_of_stage context C V hvs hvstage
    have hall := htrail.ends hends
    rw [List.append_nil] at hall
    exact ⟨t, hall⟩
  | @more D D' ls E first _ ih =>
    have hfollows := follows V hs htrace hstage turn
    rw [first] at hfollows
    obtain ⟨v, trace', htrail, hvs, hfree, hvstage, hturn⟩ := hfollows
    obtain ⟨t, hends⟩ := ih hE hvs hfree hvstage hturn
    exact ⟨t, htrail.ends hends⟩

end EventLoop
end DescribedEffects
