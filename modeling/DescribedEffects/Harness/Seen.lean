import DescribedEffects.Computation.Transcript
import DescribedEffects.Harness.Test

/-!
# A test seen through its host

The harness knows of its host only what the answers tell.  So a test over one host,
seen through a view, is the same test over the host that is seen (`runTest_seen`).
With the view that forgets the transcript this says that keeping a transcript
changes nothing: neither the outcome of a test, nor what it consumes, nor its notes
(`runTest_recorded`).
-/

namespace DescribedEffects

namespace Harness

variable {σ τ : Type}

/-- A state with its host seen in another way. -/
def State.seen (v : τ → σ) (s : State τ) : State σ :=
  ⟨v s.host, s.active, s.pending, s.consumed, s.notes, s.control⟩

/-- An ending with its host seen in another way. -/
def Ending.seen (v : τ → σ) (r : Ending τ) : Ending σ :=
  ⟨r.outcome, v r.host, r.pending, r.consumed, r.notes⟩

namespace State

@[simp] theorem seen_host (v : τ → σ) (s : State τ) : (s.seen v).host = v s.host := rfl

@[simp] theorem seen_active (v : τ → σ) (s : State τ) : (s.seen v).active = s.active := rfl

@[simp] theorem seen_pending (v : τ → σ) (s : State τ) : (s.seen v).pending = s.pending := rfl

@[simp] theorem seen_control (v : τ → σ) (s : State τ) : (s.seen v).control = s.control := rfl

end State

variable {K : Host τ} {H : Host σ} (V : K.View H)

theorem fail_seen (v : τ → σ) (e : Exn) (s : State τ) : (s.seen v).fail e = (s.fail e).seen v := by
  unfold State.fail
  split <;> rfl

theorem answer_seen (v : τ → σ) (o : Outcome) (s : State τ) :
    answer (s.seen v) o = (answer s o).seen v := by
  cases o with
  | ok v => rfl
  | error e => exact fail_seen v e s

theorem failWith_seen (body : ExnBody Value) (s : State τ) :
    failWith H body (s.seen V.view) = (failWith K body s).seen V.view := by
  simp only [failWith, State.seen_host, V.raise]
  exact fail_seen V.view _ { s with host := (K.raise body s.host).2 }

theorem produce_seen (x : Expectation) (d : Descriptor) (s : State τ) :
    produce H x d (s.seen V.view) = (produce K x d s).seen V.view := by
  unfold produce
  cases x.answer d with
  | value v => exact answer_seen V.view (.ok v) s
  | raise e => exact answer_seen V.view (.error e) s
  | call f args =>
    simp only [State.seen_host, V.call]
    exact answer_seen V.view _ { s with host := (K.call f args s.host).2 }

theorem consume_seen (x : Expectation) (rest : List Expectation) (d : Descriptor)
    (s : State τ) : consume H x rest d (s.seen V.view) = (consume K x rest d s).seen V.view :=
  produce_seen V x d { s with
    pending := rest
    consumed := s.consumed + 1
    notes := s.notes ++ [.matched s.consumed d] }

theorem examine_seen (matchArgs : Bool) (d : Descriptor) (s : State τ) :
    examine H matchArgs d (s.seen V.view) = (examine K matchArgs d s).seen V.view := by
  unfold examine
  rw [State.seen_pending]
  cases s.pending with
  | nil => exact failWith_seen V _ s
  | cons x rest =>
    dsimp only
    cases x.descriptor with
    | error m => exact failWith_seen V _ s
    | ok expected =>
      dsimp only
      cases ExpectationOf.compare expected d matchArgs with
      | error f => exact failWith_seen V _ s
      | ok met =>
        cases met with
        | false => exact failWith_seen V _ s
        | true => exact consume_seen V x rest d s

theorem receive_seen (matchArgs : Bool) (item : Value) (s : State τ) :
    receive H matchArgs item (s.seen V.view) = (receive K matchArgs item s).seen V.view := by
  unfold receive
  split
  · rfl
  · cases Descriptor.parse item with
    | error m => exact failWith_seen V _ s
    | ok d => exact examine_seen V matchArgs d s

theorem leave_seen (v : τ → σ) (w : Value) (s : State τ) :
    leave w (s.seen v) = (leave w s).map (State.seen v) (Ending.seen v) := by
  unfold leave
  rw [State.seen_active]
  cases s.active.tail with
  | nil => rfl
  | cons g rest => rfl

theorem react_seen (matchArgs : Bool) (reply : Reply) (s : State τ) :
    react H matchArgs (s.seen V.view) reply =
      (react K matchArgs s reply).map (State.seen V.view) (Ending.seen V.view) := by
  cases reply with
  | yielded item => exact congrArg Transition.next (receive_seen V matchArgs item s)
  | returned w => exact leave_seen V.view w s
  | raised e => rfl

theorem stepDeliver_seen (matchArgs : Bool) (signal : Signal) (s : State τ) :
    stepDeliver H matchArgs signal (s.seen V.view) =
      (stepDeliver K matchArgs signal s).map (State.seen V.view) (Ending.seen V.view) := by
  rcases s with ⟨host, _ | ⟨g, rest⟩, pending, consumed, notes, control⟩
  · rfl
  · simp only [stepDeliver, State.seen, V.resume]
    exact react_seen V matchArgs _
      ⟨(K.resume g signal host).2, g :: rest, pending, consumed, notes, control⟩

theorem closeFor_seen (e : Exn) (g : Nat) (host : τ) :
    closeFor H e g (V.view host) = Prod.map id V.view (closeFor K e g host) := by
  unfold closeFor
  by_cases h : e.isVerdict = true
  · rw [if_pos h, if_pos h, V.close]
    rfl
  · rw [if_neg h, if_neg h]
    rfl

theorem stepEscape_seen (e : Exn) (s : State τ) :
    stepEscape H e (s.seen V.view) =
      (stepEscape K e s).map (State.seen V.view) (Ending.seen V.view) := by
  unfold stepEscape
  rw [State.seen_active]
  cases s.active with
  | nil => rfl
  | cons g rest =>
    simp only [State.seen_host, closeFor_seen V, Prod.map_fst, Prod.map_snd, id_eq]
    by_cases h : rest.isEmpty = true
    · rw [if_pos h, if_pos h]
      rfl
    · rw [if_neg h, if_neg h]
      exact congrArg Transition.next
        (fail_seen V.view _ { s with host := (closeFor K e g s.host).2, active := rest })

/-- A step of the harness sees its host only through the answers. -/
theorem step_seen (matchArgs : Bool) (s : State τ) :
    step H matchArgs (s.seen V.view) =
      (step K matchArgs s).map (State.seen V.view) (Ending.seen V.view) := by
  unfold step
  rw [State.seen_control]
  cases s.control with
  | deliver signal => exact stepDeliver_seen V matchArgs signal s
  | escape e => exact stepEscape_seen V e s

/-! ## The reading of entries -/

/-- A reading with its host seen in another way. -/
def Gathering.seen (v : τ → σ) (s : Gathering τ) : Gathering σ := ⟨v s.host, s.source, s.taken⟩

theorem readEntry_seen (entry : Value) (source : Source) (s : Gathering τ) :
    readEntry H entry source (s.seen V.view) =
      (readEntry K entry source s).map (Gathering.seen V.view) (Prod.map id V.view) := by
  unfold readEntry
  cases ExpectationOf.coerce entry with
  | ok x => rfl
  | error fault =>
    simp only [Gathering.seen, V.complain, Prod.map_fst, Prod.map_snd, id_eq, V.shield]
    rfl

theorem gather_seen (s : Gathering τ) :
    gather H (s.seen V.view) =
      (gather K s).map (Gathering.seen V.view) (Prod.map id V.view) := by
  rcases s with ⟨host, (_ | ⟨entry, rest⟩) | g, taken⟩
  · rfl
  · exact readEntry_seen V entry (.items rest) ⟨host, .items (entry :: rest), taken⟩
  · simp only [gather, Gathering.seen, V.resume, Prod.map_fst, Prod.map_snd, id_eq]
    cases Host.settle (K.resume g (.send .null) host).1 with
    | yielded entry =>
      exact readEntry_seen V entry (.computation g)
        ⟨(K.resume g (.send .null) host).2, .computation g, taken⟩
    | returned w => rfl
    | raised e => rfl

/-! ## Whole tests -/

theorem judge_seen (strict : Bool) (r : Ending τ) :
    judge H strict (r.seen V.view) = (judge K strict r).seen V.view := by
  rcases r with ⟨e | v, host, pending, consumed, notes⟩
  · rfl
  · by_cases h : (strict && !pending.isEmpty) = true
    · simp only [judge, Ending.seen, if_pos h, V.raise]
      rfl
    · simp only [judge, Ending.seen, if_neg h]
      exact if_neg h

theorem runGathered_seen (fuel program : Nat) (strict matchArgs : Bool) (g : Gathered τ) :
    runGathered H fuel program strict matchArgs (Prod.map id V.view g) =
      (runGathered K fuel program strict matchArgs g).map (Ending.seen V.view) := by
  rcases g with ⟨e | xs, host⟩
  · rfl
  · have h := Transition.runFor_map (step_seen V matchArgs) fuel (start host program xs)
    change (Transition.runFor (step H matchArgs) fuel
      ((start host program xs).seen V.view)).map (judge H strict) = _
    rw [h, Option.map_map]
    change _ = ((Transition.runFor (step K matchArgs) fuel
      (start host program xs)).map (judge K strict)).map (Ending.seen V.view)
    rw [Option.map_map]
    exact congrArg (fun f => Option.map f _) (funext (judge_seen V strict))

/-- A test over one host, seen through a view, is the test over the host that is
seen. -/
theorem runTest_seen (fuel : Nat) (expectations program : Value) (strict matchArgs : Bool)
    (host : τ) :
    runTest H fuel expectations program strict matchArgs (V.view host) =
      (runTest K fuel expectations program strict matchArgs host).map (Ending.seen V.view) := by
  unfold runTest
  split
  · cases sourceOf expectations with
    | error f =>
      simp only [V.raise]
      rfl
    | ok source =>
      have h := Transition.runFor_map (gather_seen V) fuel ⟨host, source, []⟩
      dsimp only
      change (Transition.runFor (gather H) fuel
        (Gathering.seen V.view ⟨host, source, []⟩)).bind _ = _
      rw [h]
      cases Transition.runFor (gather K) fuel ⟨host, source, []⟩ with
      | none => rfl
      | some g => exact runGathered_seen V fuel _ strict matchArgs g
  · simp only [V.raise]
    rfl

/-- Keeping a transcript changes nothing about a test. -/
theorem runTest_recorded (fuel : Nat) (expectations program : Value)
    (strict matchArgs : Bool) (host : σ) (acts : List Act) :
    (runTest H.recorded fuel expectations program strict matchArgs (host, acts)).map
        (Ending.seen Prod.fst) =
      runTest H fuel expectations program strict matchArgs host :=
  (runTest_seen H.forget fuel expectations program strict matchArgs (host, acts)).symm

end Harness
end DescribedEffects
