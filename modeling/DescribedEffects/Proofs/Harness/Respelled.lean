import DescribedEffects.Proofs.EventLoop.Blurred
import DescribedEffects.Proofs.Harness.Entries

/-!
# A test of programs that spell in their own ways

The harness reads what a computation yields, and compares what it reads.  So a test over one
host, without creation sites, is a test over any host into which that one blurs
(`step_blurred`), and of the expectations that are left it keeps the gist.

The expectations are themselves written down, and their effects are spelled in some way.  Two
entries with respelled effects are read as expectations with the same gist
(`Respelled.reading`), whichever way they are entries.  They need not be entries over one host:
so the reading of entries (`gather_respelled`) compares two hosts that blur into the same one.

There is one place where a spelling shows at last.  The verdict on expectations that were not met
hands out the effects as they were spelled (`leftOver`), and `Exn.gist` forgets this.
-/

namespace DescribedEffects

/-! ## Verdicts without spellings -/

/-- What is left of an exception when neither creation sites matter nor the spelling of
expectations that were not met. -/
def ExnOf.gist (e : Exn) : Exn :=
  match e.body with
  | .unused remaining => ⟨e.id, .unused (remaining.map Value.gist)⟩
  | _ => e.unsited

/-- What is left of an outcome when neither creation sites matter nor the spelling of
expectations that were not met. -/
abbrev outcomeGist : Outcome → Outcome := mapBoth ExnOf.gist Value.unsited

@[simp] theorem Value.gist_gist (item : Value) : item.gist.gist = item.gist := by
  cases h : Descriptor.parse item with
  | error m => rw [gist_of_malformed h, gist_unsited, gist_of_malformed h]
  | ok d =>
    rw [gist_of_parse h]
    exact (gist_of_parse (d := d.unsited) rfl).trans
      (congrArg Value.descriptor d.unsited_unsited)

@[simp] theorem ExnOf.gist_unsited (e : Exn) : e.unsited.gist = e.gist := by
  obtain ⟨id, body⟩ := e
  cases body with
  | unused remaining =>
    simp only [ExnOf.unsited, ExnBody.unsited, gist, Value.unsitedAll_eq_map, List.map_map]
    congr 3
    exact funext fun item => item.gist_unsited
  | _ => exact ExnOf.unsited_unsited _

/-! ## Entries with respelled effects -/

namespace ExpectationOf

/-- What an entry is read as, when neither the spelling of its effect nor creation sites matter. -/
def reading : Except EntryFault Expectation → Except Complaint Expectation :=
  mapBoth (fun fault => fault.complaint.unsited) gist

/-- Two entries are spellings of expectations that differ by the spelling of the effect, and
otherwise by nothing but creation sites. -/
structure Respelled (entry entry' : Value) : Prop where
  written : Written entry
  written' : Written entry'
  spells : ∃ effect yields raises effect' yields' raises',
    Spells entry effect yields raises ∧ Spells entry' effect' yields' raises' ∧
      effect.gist = effect'.gist ∧ yields.unsited = yields'.unsited ∧
      raises.unsited = raises'.unsited

theorem failureOf_unsited (v : Value) :
    mapBoth (fun fault => fault.complaint.unsited) (Option.map ExnOf.unsited)
        (failureOf v.unsited) =
      mapBoth (fun fault => fault.complaint.unsited) (Option.map ExnOf.unsited) (failureOf v) := by
  cases v with
  | exn e =>
    simp only [Value.unsited, failureOf, ExnOf.isOrdinary_unsited, ExnOf.kind_unsited]
    split
    · simp [mapBoth]
    · rfl
  | _ => rfl

/-- An expectation of an effect that can be read is made as its failure is. -/
theorem reading_of_parse {effect yields raises : Value} {d : Descriptor}
    (h : Descriptor.parse effect = .ok d) :
    reading (make effect yields raises) =
      (mapBoth (fun fault => fault.complaint.unsited) (Option.map ExnOf.unsited)
        (failureOf raises)).map fun failure => ⟨effect.gist, yields.unsited, failure⟩ := by
  unfold make
  rw [h]
  cases failureOf raises <;> rfl

/-- An expectation is made without spelling and creation sites as it is made with them. -/
theorem reading_make (effect yields raises : Value) :
    reading (make effect.gist yields.unsited raises.unsited) =
      reading (make effect yields raises) := by
  have hgist := parse_gist effect
  cases h : Descriptor.parse effect with
  | error m =>
    have hbody : m.unsited.body.unsited = m.body.unsited := by
      rw [Malformed.body_unsited, Value.body_unsited_unsited]
    rw [h] at hgist
    unfold make
    rw [h, hgist]
    exact congrArg (fun body => Except.error (Complaint.make body)) hbody
  | ok d =>
    rw [h] at hgist
    rw [reading_of_parse h, reading_of_parse hgist, failureOf_unsited, Value.gist_gist,
      Value.unsited_unsited]

/-- **Entries with respelled effects are read alike.** -/
theorem Respelled.reading {entry entry' : Value} (h : Respelled entry entry') :
    reading (coerce entry) = reading (coerce entry') := by
  obtain ⟨effect, yields, raises, effect', yields', raises', hspells, hspells', heffect, hyields,
    hraises⟩ := h.spells
  rw [coerce_of_spells h.written hspells, coerce_of_spells h.written' hspells',
    ← reading_make effect yields raises, ← reading_make effect' yields' raises', heffect, hyields,
    hraises]

end ExpectationOf

namespace Harness

open ExpectationOf

/-! ## The harness without creation sites -/

def Control.unsited : Control → Control
  | .deliver signal => .deliver signal.unsited
  | .escape e => .escape e.unsited

section

variable {τ ρ : Type}

/-- The harness without spellings and creation sites, with another view of its host. -/
def State.blurred (v : τ → ρ) (s : State τ) : State ρ where
  host := v s.host
  active := s.active
  pending := s.pending.map ExpectationOf.gist
  consumed := s.consumed
  notes := s.notes.map Note.unsited
  control := s.control.unsited

/-- An ending without spellings and creation sites. -/
def Ending.blurred (v : τ → ρ) (r : Ending τ) : Ending ρ where
  outcome := unsitedOutcome r.outcome
  host := v r.host
  pending := r.pending.map ExpectationOf.gist
  consumed := r.consumed
  notes := r.notes.map Note.unsited

/-- An ending whose verdict does not show how expectations that were not met are spelled. -/
def Ending.unspelled (r : Ending τ) : Ending τ := { r with outcome := outcomeGist r.outcome }

/-- What is told of a test: its ending without spellings and creation sites, not even those that
its verdict shows. -/
def Ending.told (v : τ → ρ) (r : Ending τ) : Ending ρ := (r.blurred v).unspelled

variable (v : τ → ρ) (s : State τ)

@[simp] theorem host_blurred : (s.blurred v).host = v s.host := rfl

@[simp] theorem active_blurred : (s.blurred v).active = s.active := rfl

theorem fail_blurred (e : Exn) : (s.blurred v).fail e.unsited = (s.fail e).blurred v := by
  unfold State.fail
  rw [ExnOf.isVerdict_unsited, ExnOf.isOrdinary_unsited]
  split <;> rfl

theorem answer_blurred (o : Outcome) :
    answer (s.blurred v) (unsitedOutcome o) = (answer s o).blurred v := by
  cases o with
  | ok w => rfl
  | error e => exact fail_blurred v s e

theorem leave_blurred (w : Value) :
    leave w.unsited (s.blurred v) = (leave w s).map (State.blurred v) (Ending.blurred v) := by
  unfold leave
  rw [active_blurred]
  cases s.active.tail <;> rfl

end

variable {τ ρ : Type} {K : Host τ} {B : Host ρ} (V : K.Blur B) (matchArgs : Bool) (s : State τ)

theorem failWith_blurred (body : ExnBody Value) :
    failWith B body.unsited (s.blurred V.view) = (failWith K body s).blurred V.view := by
  simp only [failWith, host_blurred, V.raise]
  exact fail_blurred V.view { s with host := (K.raise body s.host).2 } _

theorem reject_blurred (d : Descriptor) (expected : Value) :
    reject B d.unsited expected.unsited (s.blurred V.view) =
      (reject K d expected s).blurred V.view :=
  failWith_blurred V s (.unexpected (.descriptor d) expected (.int s.consumed))

theorem produce_blurred (x : Expectation) (d : Descriptor) :
    produce B x.gist d.unsited (s.blurred V.view) = (produce K x d s).blurred V.view := by
  unfold produce
  rw [answer_gist]
  cases x.answer d with
  | value w => exact answer_blurred V.view s (.ok w)
  | raise e => exact answer_blurred V.view s (.error e)
  | call f args =>
    simp only [Answer.unsited, host_blurred, V.call]
    exact answer_blurred V.view { s with host := (K.call f args s.host).2 } _

theorem consume_blurred (x : Expectation) (rest : List Expectation) (d : Descriptor) :
    consume B x.gist (rest.map ExpectationOf.gist) d.unsited (s.blurred V.view) =
      (consume K x rest d s).blurred V.view := by
  let met : State τ := { s with
    pending := rest
    consumed := s.consumed + 1
    notes := s.notes ++ [.matched s.consumed d] }
  have hmet : { s.blurred V.view with
      pending := rest.map ExpectationOf.gist
      consumed := s.consumed + 1
      notes := (s.blurred V.view).notes ++ [.matched s.consumed d.unsited] } =
      met.blurred V.view := by
    simp [met, State.blurred, Note.unsited]
  unfold consume
  exact (congrArg (produce B x.gist d.unsited) hmet).trans (produce_blurred V met x d)

/-- **An effect is held against the next expectation** as far as both are read. -/
theorem examine_blurred (d : Descriptor) :
    examine B matchArgs d.unsited (s.blurred V.view) = (examine K matchArgs d s).blurred V.view := by
  have hpending : (s.blurred V.view).pending = s.pending.map ExpectationOf.gist := rfl
  unfold examine
  rw [hpending]
  cases s.pending with
  | nil => exact reject_blurred V s d .null
  | cons x rest =>
    simp only [List.map_cons, descriptor_gist]
    cases x.descriptor with
    | error m =>
      simp only [mapBoth, Malformed.body_unsited]
      exact failWith_blurred V s _
    | ok expected =>
      simp only [mapBoth, compare_unsited]
      cases ExpectationOf.compare expected d matchArgs with
      | error f =>
        simp only [ValueFault.body_unsited]
        exact failWith_blurred V s _
      | ok met =>
        cases met with
        | false => exact reject_blurred V s d (.descriptor expected)
        | true => exact consume_blurred V s x rest d

/-- **Only the gist of an item matters.** -/
theorem receive_blurred (item : Value) :
    receive B matchArgs item.gist (s.blurred V.view) =
      (receive K matchArgs item s).blurred V.view := by
  cases hitem : item.isComputation with
  | true =>
    cases item with
    | computation g => rfl
    | _ => cases hitem
  | false =>
    have hgist : item.gist.isComputation = false := by rw [Value.isComputation_gist, hitem]
    rw [receive_of_plain hgist, receive_of_plain hitem, parse_gist]
    cases Descriptor.parse item with
    | error m =>
      simp only [mapBoth, Malformed.body_unsited]
      exact failWith_blurred V s _
    | ok d => exact examine_blurred V matchArgs s d

theorem react_blurred (reply : Reply) :
    react B matchArgs (s.blurred V.view) reply.gist =
      (react K matchArgs s reply).map (State.blurred V.view) (Ending.blurred V.view) := by
  cases reply with
  | yielded item => exact congrArg Transition.next (receive_blurred V matchArgs s item)
  | returned w => exact leave_blurred V.view s w
  | raised e => rfl

theorem stepDeliver_blurred (signal : Signal) :
    stepDeliver B matchArgs signal.unsited (s.blurred V.view) =
      (stepDeliver K matchArgs signal s).map (State.blurred V.view) (Ending.blurred V.view) := by
  rcases s with ⟨host, _ | ⟨g, rest⟩, pending, consumed, notes, control⟩
  · rfl
  · simp only [stepDeliver, State.blurred, V.resume, Prod.map_fst, Prod.map_snd, Host.settle_gist]
    exact react_blurred V matchArgs
      ⟨(K.resume g signal host).2, g :: rest, pending, consumed, notes, control⟩ _

theorem closeFor_blurred (e : Exn) (g : Nat) (host : τ) :
    closeFor B e.unsited g (V.view host) =
      Prod.map ExnOf.unsited V.view (closeFor K e g host) := by
  unfold closeFor
  rw [ExnOf.isVerdict_unsited]
  split
  · rw [V.close]
    rcases K.close g e host with ⟨_ | raised, host'⟩ <;> rfl
  · rfl

theorem stepEscape_blurred (e : Exn) :
    stepEscape B e.unsited (s.blurred V.view) =
      (stepEscape K e s).map (State.blurred V.view) (Ending.blurred V.view) := by
  unfold stepEscape
  rw [active_blurred]
  cases s.active with
  | nil => rfl
  | cons g rest =>
    simp only [host_blurred, closeFor_blurred V, Prod.map_fst, Prod.map_snd]
    split
    · rfl
    · exact congrArg Transition.next
        (fail_blurred V.view { s with host := (closeFor K e g s.host).2, active := rest } _)

/-- **Every step of the harness is made without spellings and creation sites** as it is made with
them. -/
theorem step_blurred :
    step B matchArgs (s.blurred V.view) =
      (step K matchArgs s).map (State.blurred V.view) (Ending.blurred V.view) := by
  have hcontrol : (s.blurred V.view).control = s.control.unsited := rfl
  unfold step
  rw [hcontrol]
  cases s.control with
  | deliver signal => exact stepDeliver_blurred V matchArgs s signal
  | escape e => exact stepEscape_blurred V s e

/-! ## The reading of entries -/

/-- What the reading of entries ends with, without spellings and creation sites. -/
def Gathered.blurred (v : τ → ρ) : Gathered τ → Gathered ρ :=
  Prod.map (mapBoth ExnOf.unsited (List.map ExpectationOf.gist)) v

/-- A complaint about an entry arises without creation sites as it arises with them. -/
theorem complain_blurred (c : Complaint) (host : τ) :
    B.shield "generator raised StopIteration" (B.complain c.unsited (V.view host)).1
        (B.complain c.unsited (V.view host)).2 =
      Prod.map ExnOf.unsited V.view (K.shield "generator raised StopIteration"
        (K.complain c host).1 (K.complain c host).2) := by
  rw [V.complain]
  exact V.shield _ _ _

variable {τ' : Type} {K' : Host τ'} (V' : K'.Blur B)

/-- **Entries that are read alike are gathered alike**, over hosts that blur into the same one. -/
theorem gather_respelled {entries entries' : List Value}
    (h : List.Forall₂ (fun e e' => reading (coerce e) = reading (coerce e')) entries entries')
    (fuel : Nat) {host : τ} {host' : τ'} (hhost : V.view host = V'.view host')
    (taken taken' : List Expectation)
    (htaken : taken.map ExpectationOf.gist = taken'.map ExpectationOf.gist) :
    (Transition.runFor (gather K) fuel ⟨host, .items entries, taken⟩).map
        (Gathered.blurred V.view) =
      (Transition.runFor (gather K') fuel ⟨host', .items entries', taken'⟩).map
        (Gathered.blurred V'.view) := by
  induction fuel generalizing entries entries' taken taken' with
  | zero => rfl
  | succ n ih =>
    cases h with
    | nil =>
      have hend : Gathered.blurred V.view (.ok taken, host) =
          Gathered.blurred V'.view (.ok taken', host') :=
        Prod.ext (congrArg Except.ok htaken) hhost
      exact congrArg some hend
    | @cons e e' entries entries' first rest =>
      cases hread : coerce e with
      | ok x =>
        cases hread' : coerce e' with
        | error fault' =>
          rw [hread, hread'] at first
          cases first
        | ok x' =>
          rw [hread, hread'] at first
          rw [Transition.runFor_succ_of_next (gather_of_read hread),
            Transition.runFor_succ_of_next (gather_of_read hread')]
          refine ih rest _ _ ?_
          rw [List.map_append, List.map_append, htaken, List.map_singleton, List.map_singleton,
            Except.ok.inj first]
      | error fault =>
        cases hread' : coerce e' with
        | ok x' =>
          rw [hread, hread'] at first
          cases first
        | error fault' =>
          rw [hread, hread'] at first
          have hcomplaint : fault.complaint.unsited = fault'.complaint.unsited :=
            Except.error.inj first
          have hraised := complain_blurred V fault.complaint host
          rw [hcomplaint, hhost, complain_blurred V'] at hraised
          rw [Transition.runFor_succ_of_done (gather_of_fault hread),
            Transition.runFor_succ_of_done (gather_of_fault hread')]
          exact congrArg (fun r => some (Prod.map Except.error id r)) hraised.symm

/-! ## Whole tests -/

/-- A test is judged by how many expectations are left, and not by their spelling. -/
theorem judge_told (strict : Bool) (r : Ending τ) :
    (judge B strict (r.blurred V.view)).unspelled = (judge K strict r).told V.view := by
  rcases r with ⟨e | w, host, pending, consumed, notes⟩
  · rfl
  · have hleft : ((pending.map ExpectationOf.gist).map (·.effect)).map Value.gist =
        (pending.map (·.effect)).map Value.gist := by
      simp [ExpectationOf.gist]
    by_cases hstrict : (strict && !pending.isEmpty) = true
    · have hblurred : (strict && !(pending.map ExpectationOf.gist).isEmpty) = true := by
        rw [List.isEmpty_map, hstrict]
      simp only [judge, Ending.blurred, Ending.told, mapBoth, if_pos hstrict, if_pos hblurred,
        Host.raise, V.fresh]
      simp only [Ending.unspelled, mapBoth, leftOver, ExnOf.gist_unsited]
      simp only [ExnOf.gist, hleft]
      rfl
    · have hblurred : ¬(strict && !(pending.map ExpectationOf.gist).isEmpty) = true := by
        rwa [List.isEmpty_map]
      simp only [judge, Ending.blurred, Ending.told, mapBoth, if_neg hstrict, if_neg hblurred]

theorem runGathered_told (fuel program : Nat) (strict : Bool) (g : Gathered τ) :
    (runGathered B fuel program strict matchArgs (g.blurred V.view)).map Ending.unspelled =
      (runGathered K fuel program strict matchArgs g).map (Ending.told V.view) := by
  rcases g with ⟨e | xs, host⟩
  · rfl
  · have h := Transition.runFor_map (step_blurred V matchArgs) fuel (start host program xs)
    change ((Transition.runFor (step B matchArgs) fuel
      ((start host program xs).blurred V.view)).map (judge B strict)).map Ending.unspelled = _
    rw [h, Option.map_map, Option.map_map]
    change _ = ((Transition.runFor (step K matchArgs) fuel
      (start host program xs)).map (judge K strict)).map (Ending.told V.view)
    rw [Option.map_map]
    exact congrArg (fun f => Option.map f _) (funext (judge_told V strict))

/-- A test that never starts is told as what kept it from starting. -/
theorem refuse_told (body : ExnBody Value) {host : τ} {host' : τ'}
    (hhost : V.view host = V'.view host') :
    (refuse (K.raise body host).1 (K.raise body host).2).told V.view =
      (refuse (K'.raise body host').1 (K'.raise body host').2).told V'.view := by
  have hraised := V.raise body host
  rw [hhost, V'.raise] at hraised
  exact congrArg (fun r : Exn × ρ => Ending.unspelled (refuse r.1 r.2)) hraised.symm

/-- **Tests of entries that are read alike are told alike**, over hosts that blur into the same
one. -/
theorem runTest_told {expectations expectations' : Value} {entries entries' : List Value}
    (items : expectations.items = .ok entries) (items' : expectations'.items = .ok entries')
    (h : List.Forall₂ (fun e e' => reading (coerce e) = reading (coerce e')) entries entries')
    (fuel : Nat) (program : Value) (strict : Bool) (host : τ) (host' : τ')
    (hhost : V.view host = V'.view host') :
    (runTest K fuel expectations program strict matchArgs host).map (Ending.told V.view) =
      (runTest K' fuel expectations' program strict matchArgs host').map
        (Ending.told V'.view) := by
  cases hprogram : program.isComputation with
  | false =>
    have hrefused : ∀ (σ : Type) (H : Host σ) (xs : Value) (s : σ),
        runTest H fuel xs program strict matchArgs s =
          some (refuse (H.raise (Host.notComputation program) s).1
            (H.raise (Host.notComputation program) s).2) := by
      intro σ H xs s
      cases program with
      | computation g => cases hprogram
      | _ => rfl
    rw [hrefused, hrefused]
    exact congrArg some (refuse_told V V' _ hhost)
  | true =>
    cases program with
    | computation g =>
      have hgathered := gather_respelled V V' h fuel hhost [] [] rfl
      have htold := runGathered_told V matchArgs fuel g strict
      have htold' := runGathered_told V' matchArgs fuel g strict
      simp only [runTest, sourceOf_of_items items, sourceOf_of_items items']
      revert hgathered
      cases Transition.runFor (gather K) fuel ⟨host, .items entries, []⟩ with
      | none =>
        intro hgathered
        rw [Option.map_eq_none_iff.1 hgathered.symm]
        rfl
      | some r =>
        intro hgathered
        obtain ⟨r', hr', hblurred⟩ := Option.map_eq_some_iff.1 hgathered.symm
        rw [hr', Option.bind_some, Option.bind_some, ← htold, ← htold', hblurred]
    | _ => cases hprogram

end Harness
end DescribedEffects
