import DescribedEffects.Harness.Seen
import DescribedEffects.Proofs.EventLoop.Respelled
import DescribedEffects.Proofs.EventLoop.Seen
import DescribedEffects.Proofs.Harness.Respelled

/-!
# Spelling does not matter

Two programs differ in nothing but how they spell their effects and where their descriptors were
created: whenever they are resumed they yield items with the same gist, which are read as one
descriptor up to creation sites (`Value.gist_eq_iff`), or they answer the same.  Whoever drives
them cannot tell them apart.  They come to the same result or exception, with the same trace, and
the world is asked the same questions with the same arguments in the same order; and so it is in a
test, against expectations that are respelled in their turn (`Host.Respelling.nobody_can_tell`).

"The same" means equal up to creation sites, and, for what a program has yielded, up to its
gist.  `Finished.told` and `Harness.Ending.told` are what is left of a run and of a test then.

Both programs are driven side by side.  The first is a view of the pair (`Respelling.leftView`)
and the pair blurs into what both have in common (`Respelling.leftBlur`); so does the second.
Driving commutes with the one and with the other, and in the middle there is only one run.
-/

namespace DescribedEffects

/-! ## What is told of a run -/

/-- Why an operation has no value, without creation sites. -/
def Halt.unsited : Halt → Halt
  | .raised e => .raised e.unsited
  | halt => halt

/-- How a driven computation came out, without creation sites. -/
def RunResult.unsited (r : RunResult) : RunResult := ⟨unsitedOutcome r.outcome, r.trace.unsited⟩

/-- A run that is over, without creation sites, with another view of its host. -/
def Finished.blurred {τ ρ α : Type} (v : τ → ρ) (f : α → α) (r : Finished τ α) :
    Finished ρ α where
  verdict := mapBoth Halt.unsited f r.verdict
  host := v r.host
  notes := r.notes.map Note.unsited
  unclaimed := r.unclaimed
  futures := r.futures.map (Prod.map id unsitedOutcome)

/-- What is left of a transcript when neither spellings nor creation sites matter. -/
def transcript {σ : Type} (host : σ × List Act) : List Act := host.2.map Act.gist

/-- What is told of a run whose host keeps a transcript: its verdict, the transcript and the log
without spellings and creation sites. -/
def Finished.told {σ α : Type} (f : α → α) (r : Finished (σ × List Act) α) :
    Finished (List Act) α :=
  r.blurred transcript f

namespace EventLoop

variable {τ ρ : Type} (v : τ → ρ) (x : State τ)

theorem unclaimed_blurred : (x.blurred v).unclaimed = x.unclaimed := by
  unfold State.unclaimed
  rw [length_effects_blurred]
  refine congrArg (List.filter · _) (funext fun i => ?_)
  rw [getElem?_effects_blurred, Option.map_map]
  rfl

theorem settledFutures_blurred :
    (x.blurred v).settledFutures = x.settledFutures.map (Prod.map id unsitedOutcome) := by
  have hthese : x.futures.filterMap (fun f => ((x.blurred v).outcome? f.2).map (Prod.mk f.1)) =
      (x.futures.filterMap fun f => (x.outcome? f.2).map (Prod.mk f.1)).map
        (Prod.map id unsitedOutcome) := by
    rw [List.map_filterMap]
    refine List.filterMap_congr fun f _ => ?_
    rw [outcome_blurred, Option.map_map, Option.map_map]
    rfl
  exact (congrArg (x.earlier.map (Prod.map id unsitedOutcome) ++ ·) hthese).trans
    (List.map_append ..).symm

/-- What is left of a loop is left of it without creation sites. -/
theorem close_blurred {α : Type} (f : α → α) (verdict : Verdict α) :
    (x.blurred v).close (mapBoth Halt.unsited f verdict) = (x.close verdict).blurred v f := by
  unfold State.close
  rw [unclaimed_blurred, settledFutures_blurred]
  rfl

theorem result?_blurred (t : Nat) :
    (x.blurred v).result? t = (x.result? t).map RunResult.unsited := by
  unfold State.result?
  rw [getElem?_tasks_blurred]
  rcases x.tasks[t]? with _ | ⟨phase, promise⟩
  · rfl
  · rcases phase with _ | _ | _ | _ | _ | ⟨o, _ | trace⟩ <;> rfl

/-- The end of a run is read off without creation sites as it is read off with them. -/
theorem conclude_blurred {α : Type} {read : State τ → Value → α} {read' : State ρ → Value → α}
    {f : α → α} (hread : ∀ x w, read' (x.blurred v) w.unsited = f (read x w)) (host : τ)
    (r : Option (Ending τ)) :
    conclude read' (v host) (r.map (Ending.blurred v)) = (conclude read host r).blurred v f := by
  rcases r with _ | ⟨e | w, x⟩ | x
  · rfl
  · exact close_blurred v x f (.error (.raised e))
  · simp only [Option.map_some, Ending.blurred, mapBoth, conclude, hread]
    exact close_blurred v x f (.ok (read x w))
  · exact close_blurred v x f (.error .deadlock)

end EventLoop

open EventLoop ExpectationOf

/-- An arena without creation sites. -/
def Arena.unsited (A : Arena) : Arena :=
  { A with
    earlier := A.earlier.map (Prod.map id unsitedOutcome)
    context := A.context.unsited }

section

variable {τ ρ : Type} {K : Host τ} {B : Host ρ} (V : K.Blur B) (A : Arena) (program : Value)
  (host : τ)

/-- A computation is driven without creation sites as it is driven with them. -/
theorem Arena.drive_blurred :
    A.unsited.drive B program.unsited (V.view host) =
      (A.drive K program host).blurred V.view Value.unsited := by
  have hrun := run_blurred V A.context A.fuel host A.number A.earlier
    (.drive program none false)
  unfold Arena.drive Arena.run Arena.unsited
  exact (congrArg _ hrun).trans (conclude_blurred V.view (fun _ _ => rfl) host _)

/-- A computation is run without creation sites as it is run with them. -/
theorem Interpreter.run_blurred (I : Interpreter) :
    I.run A.unsited B program.unsited (V.view host) =
      (I.run A K program host).blurred V.view RunResult.unsited := by
  have htrace : I.newTrace.unsited = I.newTrace := Trace.unsited_empty I.bound
  have hrun := EventLoop.run_blurred V A.context A.fuel host A.number A.earlier
    (.drive program (some I.newTrace) true)
  simp only [Errand.unsited, Option.map_some, htrace] at hrun
  have hread : ∀ (x : State τ) (w : Value),
      ((x.blurred V.view).result? 0).getD ⟨.ok w.unsited, I.newTrace⟩ =
        ((x.result? 0).getD ⟨.ok w, I.newTrace⟩).unsited := by
    intro x w
    rw [result?_blurred]
    cases x.result? 0 with
    | none => exact congrArg (RunResult.mk (.ok w.unsited)) htrace.symm
    | some r => rfl
  unfold Interpreter.run Arena.run Arena.unsited
  exact (congrArg _ hrun).trans (conclude_blurred V.view hread host _)

end

/-! ## Two programs side by side -/

/-- Both can be read through for entries, and these are the same or spellings of expectations that
differ by the spelling of the effect. -/
def RespelledEntries (expectations expectations' : Value) : Prop :=
  ∃ entries entries', expectations.items = .ok entries ∧ expectations'.items = .ok entries' ∧
    List.Forall₂ (fun e e' => e = e' ∨ Respelled e e') entries entries'

namespace Host.Respelling

variable {σ τ : Type} {H : Host σ} {K : Host τ} (R : H.Respelling K) {s : σ} {t : τ}

/-- What is told of a run over the first host, and what of a run over the second, is what is told
of the run over what both come to. -/
theorem told_of_common (start : R.alike s t) {α : Type} {f : α → α}
    (run : ∀ {ρ : Type}, Host ρ → ρ → Finished ρ α)
    (common : Finished (Blurred R.alike × List Act) α)
    (seen : ∀ {ρ υ : Type} {B : Host ρ} {C : Host υ} (W : B.View C) (host : ρ),
      run C (W.view host) = (run B host).seen W.view)
    (blurred : ∀ {ρ : Type} {B : Host ρ} (V : B.Blur R.common.recorded) (host : ρ),
      V.view host = (Pair.blurred ⟨(s, t), start⟩, []) →
        common = (run B host).blurred V.view f) :
    (run H.recorded (s, [])).told f = (run K.recorded (t, [])).told f := by
  let pair : Pair R.alike × List Act := (⟨(s, t), start⟩, [])
  have hleft : (run H.recorded (s, [])).told f = common.seen Prod.snd :=
    (congrArg (Finished.told f) (seen R.leftView.recorded pair)).trans
      (congrArg (Finished.seen Prod.snd) (blurred R.leftBlur.recorded pair rfl)).symm
  have hright : (run K.recorded (t, [])).told f = common.seen Prod.snd :=
    (congrArg (Finished.told f) (seen R.rightView.recorded pair)).trans
      (congrArg (Finished.seen Prod.snd) (blurred R.rightBlur.recorded pair rfl)).symm
  exact hleft.trans hright.symm

theorem run_told (start : R.alike s t) (I : Interpreter) (A : Arena) (program : Value) :
    (I.run A H.recorded program (s, [])).told RunResult.unsited =
      (I.run A K.recorded program (t, [])).told RunResult.unsited := by
  refine R.told_of_common start (fun {_} C => I.run A C program)
    (I.run A.unsited R.common.recorded program.unsited (Pair.blurred ⟨(s, t), start⟩, []))
    (fun W host => I.run_seen W A program host) fun V host hhost => ?_
  rw [← hhost]
  exact I.run_blurred V A program host

theorem drive_told (start : R.alike s t) (A : Arena) (program : Value) :
    (A.drive H.recorded program (s, [])).told Value.unsited =
      (A.drive K.recorded program (t, [])).told Value.unsited := by
  refine R.told_of_common start (fun {_} C => A.drive C program)
    (A.unsited.drive R.common.recorded program.unsited (Pair.blurred ⟨(s, t), start⟩, []))
    (fun W host => Arena.drive_seen W A program host) fun V host hhost => ?_
  rw [← hhost]
  exact Arena.drive_blurred V A program host

theorem runTest_told (start : R.alike s t) {expectations expectations' : Value}
    (respelled : RespelledEntries expectations expectations') (fuel : Nat) (program : Value)
    (strict matchArgs : Bool) :
    (Harness.runTest H.recorded fuel expectations program strict matchArgs (s, [])).map
        (Harness.Ending.told transcript) =
      (Harness.runTest K.recorded fuel expectations' program strict matchArgs (t, [])).map
        (Harness.Ending.told transcript) := by
  obtain ⟨entries, entries', items, items', halike⟩ := respelled
  let pair : Pair R.alike × List Act := (⟨(s, t), start⟩, [])
  have hread : List.Forall₂ (fun e e' => reading (coerce e) = reading (coerce e')) entries
      entries' :=
    halike.imp fun _ _ h => h.elim (fun heq => heq ▸ rfl) Respelled.reading
  have htold := Harness.runTest_told R.leftBlur.recorded matchArgs R.rightBlur.recorded items items'
    hread fuel program strict pair pair rfl
  have hleft := Harness.runTest_seen R.leftView.recorded fuel expectations program strict matchArgs
    pair
  have hright := Harness.runTest_seen R.rightView.recorded fuel expectations' program strict
    matchArgs pair
  have hcommon := congrArg (Option.map (Harness.Ending.seen Prod.snd)) htold
  rw [Option.map_map, Option.map_map] at hcommon
  change Option.map _ (Harness.runTest H.recorded fuel expectations program strict matchArgs
    (R.leftView.recorded.view pair)) = Option.map _ (Harness.runTest K.recorded fuel expectations'
      program strict matchArgs (R.rightView.recorded.view pair))
  rw [hleft, hright, Option.map_map, Option.map_map]
  exact hcommon

end Host.Respelling

/-- **The spelling of an effect and its creation site never matter.**  Over two hosts whose
programs differ in nothing else, whatever is driven, with or without a trace, has the same
verdict and trace, asks the programs and the world the same questions in the same order, and
says the same; and so does whatever is tested, strictly or not, by arguments or by shape, against
expectations that are respelled likewise. -/
theorem Host.Respelling.nobody_can_tell {σ τ : Type} {H : Host σ} {K : Host τ}
    (R : H.Respelling K) {s : σ} {t : τ} (start : R.alike s t) (program : Value) :
    (∀ (I : Interpreter) (A : Arena),
      (I.run A H.recorded program (s, [])).told RunResult.unsited =
        (I.run A K.recorded program (t, [])).told RunResult.unsited) ∧
    (∀ A : Arena,
      (A.drive H.recorded program (s, [])).told Value.unsited =
        (A.drive K.recorded program (t, [])).told Value.unsited) ∧
    ∀ (expectations expectations' : Value) (fuel : Nat) (strict matchArgs : Bool),
      RespelledEntries expectations expectations' →
      (Harness.runTest H.recorded fuel expectations program strict matchArgs (s, [])).map
          (Harness.Ending.told transcript) =
        (Harness.runTest K.recorded fuel expectations' program strict matchArgs (t, [])).map
          (Harness.Ending.told transcript) :=
  ⟨fun I A => R.run_told start I A program, fun A => R.drive_told start A program,
    fun _ _ fuel strict matchArgs respelled =>
      R.runTest_told start respelled fuel program strict matchArgs⟩

/-! ## Two spellings of a group -/

/-- A host with one program, which yields an item and returns what it is sent.  Functions return
their arguments.  Of its state it is kept whether the item has been yielded, and how many
exceptions were made. -/
def speller (item : Value) : Host (Bool × Nat) where
  resume _ signal s :=
    match signal with
    | .throw e => (.raised e, s)
    | .send v => if s.1 then (.returned v, s) else (.yielded item, true, s.2)
  close _ _ s := (none, s)
  call _ args s := (.ok (.list args), s)
  start _ s := (.finished (.ok .null), s)
  wake _ s := (.finished (.ok .null), s)
  fresh s := (s.2, s.1, s.2 + 1)
  blame _ _ s := s
  drain s := ([], s)

/-- Programs that yield items with the same gist differ in nothing but spelling. -/
def spellersAlike {item item' : Value} (h : item.gist = item'.gist) :
    (speller item).Respelling (speller item') where
  alike := Eq
  resume g := by
    rintro ⟨yielded, made⟩ _ x y rfl hasked
    cases x with
    | send v =>
      cases y with
      | throw e => cases hasked
      | send w =>
        have hsent : v.unsited = w.unsited := Signal.send.inj hasked
        cases yielded with
        | true => exact ⟨congrArg Reply.returned hsent, rfl⟩
        | false => exact ⟨congrArg Reply.yielded h, rfl⟩
    | throw e =>
      cases y with
      | send w => cases hasked
      | throw e' => exact ⟨congrArg Reply.raised (Signal.throw.inj hasked), rfl⟩
  close _ := by
    rintro s _ _ _ rfl -
    exact ⟨rfl, rfl⟩
  call := by
    rintro s _ ⟨f, args⟩ ⟨f', args'⟩ rfl hasked
    have hargs : args.map Value.unsited = args'.map Value.unsited := congrArg Prod.snd hasked
    rw [← Value.unsitedAll_eq_map, ← Value.unsitedAll_eq_map] at hargs
    exact ⟨congrArg (fun vs => Except.ok (Value.list vs)) hargs, rfl⟩
  start _ := by
    rintro s _ _ _ rfl -
    exact ⟨rfl, rfl⟩
  wake _ := by
    rintro s _ _ _ rfl -
    exact ⟨rfl, rfl⟩
  fresh := by
    rintro s _ _ _ rfl -
    exact ⟨rfl, rfl⟩
  blame _ := by
    rintro s _ _ _ rfl -
    exact ⟨rfl, rfl⟩
  drain := by
    rintro s _ _ _ rfl -
    exact ⟨rfl, rfl⟩

/-- A group of two, written as a list. -/
def plainGroup : Value :=
  .list [.mode .parallel, .list [.text "get"],
    .tuple [.mode .direct, .list [.text "get"], .int 2]]

/-- The same group, put together by a factory that notes where it was called. -/
def madeGroup : Value :=
  .descriptor ⟨.parallel, [],
    [.descriptor ⟨.direct, [.text "get"], [], some "main.py:3"⟩,
      .descriptor ⟨.direct, [.text "get"], [.int 2], some "main.py:4"⟩], some "main.py:2"⟩

/-- A context with one function. -/
def getArena : Arena := ⟨60, 0, [], .record [(.text "get", .function "get")]⟩

/-- The group is expected as a list, and then another effect as a tuple. -/
def plainEntries : Value :=
  .tuple [.list [plainGroup, .int 7], .tuple [.tuple [.list [.text "get"]], .null]]

/-- They are expected as a factory makes the one, and as a list. -/
def madeEntries : Value :=
  .list [.tuple [madeGroup, .int 7], .tuple [.list [.text "get"], .null]]

theorem entries_respelled : RespelledEntries plainEntries madeEntries := by
  have hlist : ∀ vs, Written (.list vs) := fun _ => ⟨nofun, nofun⟩
  have htuple : ∀ vs, Written (.tuple vs) := fun _ => ⟨nofun, nofun⟩
  refine ⟨_, _, rfl, rfl, .cons (.inr ?_) (.cons (.inr ?_) .nil)⟩
  · exact ⟨hlist _, htuple _, _, _, _, _, _, _, .list _ _, .tuple _ _, rfl, rfl, rfl⟩
  · exact ⟨htuple _, htuple _, _, _, _, _, _, _, .tuple _ _, .tuple _ _, rfl, rfl, rfl⟩

/-- Both groups come to the list of what their members come to.  In a test that ends too early the
second effect is left, in both spellings, and nothing else tells the tests apart. -/
theorem groups_are_told_alike :
    let plain := (speller plainGroup).recorded
    let made := (speller madeGroup).recorded
    (∃ r r',
      (Interpreter.run ⟨.unbounded⟩ getArena plain (.computation 0) ((false, 0), [])).verdict =
        .ok r ∧
      (Interpreter.run ⟨.unbounded⟩ getArena made (.computation 0) ((false, 0), [])).verdict =
        .ok r' ∧
      r.outcome = .ok (.list [.list [], .list [.int 2]]) ∧ r.unsited = r'.unsited) ∧
    ∃ r r',
      Harness.runTest plain 60 plainEntries (.computation 0) true true ((false, 0), []) =
        some r ∧
      Harness.runTest made 60 madeEntries (.computation 0) true true ((false, 0), []) =
        some r' ∧
      r.outcome = .error ⟨0, .unused [.tuple [.list [.text "get"]]]⟩ ∧
      r'.outcome = .error ⟨0, .unused [.list [.text "get"]]⟩ ∧
      r.told transcript = r'.told transcript := by
  have groups : plainGroup.gist = madeGroup.gist := rfl
  obtain ⟨hrun, -, htest⟩ :=
    (spellersAlike groups).nobody_can_tell (s := (false, 0)) rfl (.computation 0)
  have hverdict := congrArg Finished.verdict (hrun ⟨.unbounded⟩ getArena)
  refine ⟨⟨_, _, rfl, rfl, rfl, Except.ok.inj hverdict⟩, ⟨_, _, rfl, rfl, rfl, rfl, ?_⟩⟩
  exact Option.some.inj (htest _ _ 60 true true entries_respelled)

end DescribedEffects
