import Mathlib.Data.List.Basic
import Mathlib.Data.List.Forall2
import DescribedEffects.Proofs.Harness.Mismatch

/-!
# What a mismatch leaves behind

A mismatch makes an end of the test, and of the computations that are active when it comes
about.  Each of them is suspended in the middle of its work and has cleanup to do.  The
harness lets it: it closes one after the other, and a computation that is closed receives a
closing exception at the place where it is suspended.

## What can be said

That a computation is suspended, and where, is not in the transcript of a test: it is a matter
of the host.  `Host.Bodies` gives each computation of a host a standing, as `Standing` has it,
and says how resuming and closing move it; a `Behaviour` has bodies in this sense
(`Behaviour.bodies`).  With them `Host.Bodies.exits` reads off a transcript which computations
received a closing exception, and where they were suspended then.

A test *leaves nothing behind* (`LeavesNothing`) if, after the mismatch,

* the harness closes each active computation, from the innermost to the outermost, and does
  nothing else with any of them;
* every active computation has ended when the test ends;
* each computation that is suspended receives one closing exception, at the place where it was
  suspended at the mismatch.  One that is active more than once receives it when its innermost
  drive is left; closing it again does nothing.

The last of these is said of hosts where cleanup keeps to itself (`Host.Bodies.Apart`): cleanup
that itself resumes an outer computation moves that one to another place.

`mismatch_closes_stack_iff` says of a test that ends with the verdict that it leaves nothing
behind exactly when the unwinding of the active computations ends with that verdict.  This is
more than the ending of the test says.  A verdict that was lost on the way can come back:
`verdict_raised_again` is a test that ends with the verdict although its outer computation never
receives a closing exception: the cleanup of the inner one fails, the failure is thrown into the
outer one, and that raises the verdict again.
-/

namespace DescribedEffects

/-! ## Bodies -/

/-- What closing a computation comes to, by what its body answers to a closing exception: the
body must not yield, and a closing exception that comes out again is no failure. -/
inductive ClosesWith : Reply → Option Exn → Prop
  | returned (v : Value) : ClosesWith (.returned v) none
  | left {e : Exn} (h : (e.kind.isA .closing || e.isExhausted) = true) :
      ClosesWith (.raised e) none
  | failed {e : Exn} (h : (e.kind.isA .closing || e.isExhausted) = false) :
      ClosesWith (.raised e) (some e)
  | ignored (item : Value) {e : Exn} (h : e.body = ValueFault.ignoredClosing.body) :
      ClosesWith (.yielded item) (some e)

/-- Where the computations of a host stand, and how resuming and closing move them. -/
structure Host.Bodies {σ : Type} (H : Host σ) (S : Type) where
  /-- Where a computation stands; nothing stands under a number that is not in use. -/
  stands : Nat → σ → Option (Standing S)
  /-- A computation that yields nothing when it is resumed has ended. -/
  resume_ended : ∀ g signal s, stands g s ≠ none →
    (∀ item, (H.resume g signal s).1 ≠ .yielded item) →
    stands g (H.resume g signal s).2 = some .ended
  /-- There is nothing to close about a computation that has ended. -/
  close_idle : ∀ g because s, stands g s = none ∨ stands g s = some .ended →
    H.close g because s = (none, s)
  /-- A computation that has not begun has nothing to clean up. -/
  close_unstarted : ∀ g because s p, stands g s = some (.unstarted p) →
    (H.close g because s).1 = none ∧ stands g (H.close g because s).2 = some .ended
  /-- A suspended computation is closed by resuming it, once, with a closing exception. -/
  close_suspended : ∀ g because s p, stands g s = some (.suspended p) →
    ∃ x s', x.body = .plain .closing [] ∧ (∀ k, stands k s' = stands k s) ∧
      ClosesWith (H.resume g (.throw x) s').1 (H.close g because s).1 ∧
      ∀ k, stands k (H.close g because s).2 = stands k (H.resume g (.throw x) s').2
  /-- A number that is in use stays in use. -/
  close_there : ∀ g k because s, stands k s ≠ none → stands k (H.close g because s).2 ≠ none
  /-- What has ended stays so, whatever is closed. -/
  close_lasting : ∀ g k because s, stands k s = some .ended →
    stands k (H.close g because s).2 = some .ended
  /-- Making an exception moves nothing. -/
  fresh : ∀ g s, stands g (H.fresh s).2 = stands g s

namespace Host.Bodies

variable {σ S : Type} {H : Host σ} (B : H.Bodies S)

/-- The place at which a computation is suspended. -/
def place (g : Nat) (s : σ) : Option S :=
  match B.stands g s with
  | some (.suspended p) => some p
  | _ => none

theorem place_of_ended {g : Nat} {s : σ} (h : B.stands g s = some .ended) :
    B.place g s = none := by
  simp [place, h]

/-- Cleanup keeps to itself: it leaves other computations suspended where they are. -/
def Apart : Prop :=
  ∀ g k because s, k ≠ g → B.place k (H.close g because s).2 = B.place k s

/-- The computations that receive a closing exception in a transcript that begins in a state,
and the places at which they receive it. -/
def exits : List Act → σ → List (Nat × S)
  | [], _ => []
  | .closed g because _ :: acts, s =>
    (B.place g s).toList.map (Prod.mk g) ++ exits acts (H.close g because s).2
  | _ :: acts, s => exits acts s

/-- A computation that is closed quietly, or with a verdict, has ended. -/
theorem ended_of_close {g : Nat} {because : Exn} {s : σ} (h : B.stands g s ≠ none)
    (hx : ∀ x, (H.close g because s).1 = some x → x.isVerdict = true) :
    B.stands g (H.close g because s).2 = some .ended := by
  cases hs : B.stands g s with
  | none => exact absurd hs h
  | some standing =>
    cases standing with
    | unstarted p => exact (B.close_unstarted g because s p hs).2
    | ended => exact B.close_lasting g g because s hs
    | suspended p =>
      obtain ⟨x, s', -, hsame, hcloses, hstands⟩ := B.close_suspended g because s p hs
      have hended := B.resume_ended g (.throw x) s' (by rw [hsame, hs]; simp)
      rw [hstands]
      generalize (H.resume g (.throw x) s').1 = reply at hcloses hended
      generalize (H.close g because s).1 = raised at hcloses hx
      cases hcloses with
      | returned | left | failed => exact hended (fun _ => Reply.noConfusion)
      | ignored item he =>
        -- The complaint about a computation that goes on is no verdict.
        have hverdict := hx _ rfl
        simp only [ExnOf.isVerdict, ExnOf.kind, he] at hverdict
        cases hverdict

/-- Nothing is suspended under the number of a computation that was closed quietly, or with a
verdict. -/
theorem place_of_close {g : Nat} {because : Exn} {s : σ}
    (hx : ∀ x, (H.close g because s).1 = some x → x.isVerdict = true) :
    B.place g (H.close g because s).2 = none := by
  by_cases h : B.stands g s = none
  · rw [B.close_idle g because s (.inl h)]
    simp [place, h]
  · exact B.place_of_ended (B.ended_of_close h hx)

end Host.Bodies

/-! ### The bodies of a behaviour -/

namespace Behaviour

variable {S W : Type} (B : Behaviour S) (V : World W)

/-- A move leaves other computations where they stand, and at most makes another one. -/
theorem standings_answer {g k : Nat} (hk : k ≠ g) (c : Computations S) (m : Move S) :
    (answer g c m).2.standings[k]? = c.standings[k]? ∨
      k = c.standings.length ∧ ∃ p, (answer g c m).2.standings[k]? = some (.unstarted p) := by
  cases m with
  | returned v => exact .inl (List.getElem?_set_ne (Ne.symm hk))
  | raised e _ => exact .inl (List.getElem?_set_ne (Ne.symm hk))
  | yielded item _ next => exact .inl (List.getElem?_set_ne (Ne.symm hk))
  | nested inner next =>
    by_cases hlast : k = c.standings.length
    · exact .inr ⟨hlast, inner, by simp [answer, Computations.make, Computations.stand, hlast]⟩
    · refine .inl ?_
      show ((c.standings.set g (.suspended next)) ++ [.unstarted inner])[k]? = _
      rcases Nat.lt_or_gt_of_ne hlast with h | h
      · rw [List.getElem?_append_left (by simpa using h), List.getElem?_set_ne (Ne.symm hk)]
      · rw [List.getElem?_eq_none (by simpa using Nat.succ_le_of_lt h),
          List.getElem?_eq_none (Nat.le_of_lt h)]

@[simp] theorem standings_afterClosing (c : Computations S) (r : Reply × Computations S) :
    (afterClosing c r).2.standings = r.2.standings := by
  rcases r with ⟨_ | _ | _, d⟩ <;> rfl

theorem closeAt_of_suspended {g : Nat} {c : Computations S} {p : S} (because : Exn)
    (h : c.standings[g]? = some (.suspended p)) :
    B.closeAt g because c = afterClosing c (answer g { c with exceptions := c.exceptions + 1 }
      (B.resume p (.throw ⟨c.exceptions, .plain .closing []⟩))) := by
  simp [closeAt, h]

/-- Closing a computation moves no other one. -/
theorem standings_closeAt {g k : Nat} (hk : k ≠ g) (because : Exn) (c : Computations S) :
    (B.closeAt g because c).2.standings[k]? = c.standings[k]? ∨
      c.standings[k]? = none ∧
        ∃ p, (B.closeAt g because c).2.standings[k]? = some (.unstarted p) := by
  cases hs : c.standings[g]? with
  | none => exact .inl (by simp [closeAt, hs])
  | some standing =>
    cases standing with
    | unstarted p =>
      refine .inl ?_
      simp [closeAt, hs, Computations.stand, List.getElem?_set_ne (Ne.symm hk)]
    | ended => exact .inl (by simp [closeAt, hs])
    | suspended p =>
      rw [B.closeAt_of_suspended because hs, standings_afterClosing]
      rcases standings_answer hk { c with exceptions := c.exceptions + 1 }
        (B.resume p (.throw ⟨c.exceptions, .plain .closing []⟩)) with h | ⟨hlast, h⟩
      · exact .inl h
      · exact .inr ⟨List.getElem?_eq_none (Nat.le_of_eq hlast.symm), h⟩

/-- Numbers stay in use. -/
theorem length_answer (g : Nat) (c : Computations S) (m : Move S) :
    c.standings.length ≤ (answer g c m).2.standings.length := by
  cases m <;> simp [answer, Computations.make, Computations.stand]

theorem length_resumeAt (g : Nat) (signal : Signal) (c : Computations S) :
    c.standings.length ≤ (B.resumeAt g signal c).2.standings.length := by
  unfold resumeAt
  split
  · exact length_answer ..
  · exact length_answer ..
  · simp [Computations.stand]
  · exact Nat.le_refl _
  · exact Nat.le_refl _

theorem length_closeAt (g : Nat) (because : Exn) (c : Computations S) :
    c.standings.length ≤ (B.closeAt g because c).2.standings.length := by
  unfold closeAt
  split
  · rw [standings_afterClosing]
    exact length_answer g { c with exceptions := c.exceptions + 1 } _
  · simp [Computations.stand]
  · exact Nat.le_refl _

theorem closesWith_afterClosing (c : Computations S) (r : Reply × Computations S) :
    ClosesWith r.1 (afterClosing c r).1 := by
  rcases r with ⟨item | v | e, d⟩
  · exact .ignored item rfl
  · exact .returned v
  · cases h : e.kind.isA .closing || e.isExhausted with
    | true => simpa [afterClosing, h] using ClosesWith.left h
    | false => simpa [afterClosing, h] using ClosesWith.failed h

/-- A number that is in use stays in use while no fewer are. -/
theorem in_use_of_length {g : Nat} {c d : Computations S} (h : c.standings[g]? ≠ none)
    (hl : c.standings.length ≤ d.standings.length) : d.standings[g]? ≠ none := fun hnone =>
  h (List.getElem?_eq_none_iff.2 (hl.trans (List.getElem?_eq_none_iff.1 hnone)))

/-- The computations of a behaviour have bodies. -/
def bodies : (B.programs.host V).Bodies S where
  stands g s := s.1.standings[g]?
  resume_ended g signal s h hnone :=
    (B.resumeAt_ended (c := s.1) hnone).resolve_right
      (in_use_of_length h (B.length_resumeAt g signal s.1))
  close_idle g because s h := by
    have hclose : B.closeAt g because s.1 = (none, s.1) := by
      rcases h with h | h <;> simp [closeAt, h]
    simp [Programs.host, programs, hclose]
  close_unstarted g because s p h := by
    have hclose : B.closeAt g because s.1 = (none, s.1.stand g .ended) := by
      simp [closeAt, h]
    have hg : g < s.1.standings.length := (List.getElem?_eq_some_iff.1 h).1
    simp [Programs.host, programs, hclose, Computations.stand, hg]
  close_suspended g because s p h := by
    have hresume : B.resumeAt g (.throw ⟨s.1.exceptions, .plain .closing []⟩)
          { s.1 with exceptions := s.1.exceptions + 1 } =
        answer g { s.1 with exceptions := s.1.exceptions + 1 }
          (B.resume p (.throw ⟨s.1.exceptions, .plain .closing []⟩)) := by
      simp [resumeAt, h]
    refine ⟨⟨s.1.exceptions, .plain .closing []⟩,
      ({ s.1 with exceptions := s.1.exceptions + 1 }, s.2), rfl, fun _ => rfl, ?_, fun k => ?_⟩
    · simp only [Programs.host, programs, B.closeAt_of_suspended because h, hresume]
      exact closesWith_afterClosing ..
    · simp only [Programs.host, programs, B.closeAt_of_suspended because h, hresume,
        standings_afterClosing]
  close_there g k because s h := in_use_of_length h (B.length_closeAt g because s.1)
  close_lasting g k because s h := by
    by_cases hk : k = g
    · subst hk
      simp [Programs.host, programs, closeAt, h]
    · rcases B.standings_closeAt hk because s.1 with hsame | ⟨hnone, -⟩
      · exact hsame.trans h
      · rw [hnone] at h
        cases h
  fresh _ _ := rfl

/-- The computations of a behaviour keep to themselves. -/
theorem bodies_apart : (B.bodies V).Apart := by
  intro g k because s hk
  have hplace : ∀ s, (B.bodies V).place k s =
      match s.1.standings[k]? with
      | some (.suspended p) => some p
      | _ => none := fun _ => rfl
  rw [hplace, hplace]
  rcases B.standings_closeAt hk because s.1 with hsame | ⟨hnone, p, hmade⟩
  · rw [show ((B.programs.host V).close g because s).2.1.standings[k]? = _ from hsame]
  · rw [show ((B.programs.host V).close g because s).2.1.standings[k]? = _ from hmade, hnone]

end Behaviour

/-- Keeping the first of equal elements and keeping those with a property can be done in
either order. -/
theorem eraseDups_filter {α : Type} [BEq α] [LawfulBEq α] (p : α → Bool) :
    ∀ l : List α, (l.filter p).eraseDups = l.eraseDups.filter p
  | [] => rfl
  | a :: l => by
    have ih := eraseDups_filter p (l.filter fun b => !b == a)
    rw [List.eraseDups_cons, List.filter_cons, List.filter_cons, ← ih]
    cases hp : p a with
    | true =>
      rw [if_pos rfl, if_pos rfl, List.eraseDups_cons, List.filter_filter, List.filter_filter]
      simp only [Bool.and_comm]
    | false =>
      rw [if_neg Bool.false_ne_true, if_neg Bool.false_ne_true, List.filter_filter]
      congr 1
      refine List.filter_congr fun b _ => ?_
      by_cases hb : b = a
      · simp [hb, hp]
      · simp [hb]
termination_by l => l.length
decreasing_by exact Nat.lt_succ_of_le (List.length_filter_le _ l)

namespace Harness

variable {σ S : Type} {H : Host σ} {matchArgs : Bool} (B : H.Bodies S)

/-! ## Unwinding, computation by computation -/

/-- What an unwinding ends with tells what it began with. -/
theorem isVerdict_of_unwinding {e e' : Exn} {stack : List Nat} {host host' : σ}
    (h : unwinding H e stack host = some (e', host')) (he' : e'.isVerdict = true) :
    e.isVerdict = true := by
  cases stack with
  | nil =>
    cases h
    exact he'
  | cons g outer =>
    by_contra he
    rw [unwinding_of_not_verdict (Bool.eq_false_iff.2 he)] at h
    cases h

/-- The act of closing a computation. -/
def Closes (g : Nat) (a : Act) : Prop := ∃ because raised, a = .closed g because raised

theorem isClosing_of_closes {stack : List Nat} {closings : List Act}
    (h : List.Forall₂ Closes stack closings) : ∀ a ∈ closings, a.isClosing = true := by
  induction h with
  | nil => simp
  | cons hc _ ih =>
    obtain ⟨because, raised, rfl⟩ := hc
    simpa [Act.isClosing] using ih

/-- An unwinding that ends with a verdict closes the computations one after the other, from
the innermost to the outermost, and all of them have ended then. -/
theorem closings_of_unwinding {e e' : Exn} {stack : List Nat} {host host' : σ}
    {acts acts' : List Act}
    (h : unwinding H.recorded e stack (host, acts) = some (e', host', acts'))
    (he' : e'.isVerdict = true) :
    ∃ closings, acts' = acts ++ closings ∧ List.Forall₂ Closes stack closings ∧
      (∀ k, B.stands k host = some .ended → B.stands k host' = some .ended) ∧
      (∀ g ∈ stack, B.stands g host ≠ none → B.stands g host' = some .ended) ∧
      (B.Apart → B.exits closings host =
        stack.eraseDups.filterMap fun g => (B.place g host).map (Prod.mk g)) := by
  induction stack generalizing e host acts with
  | nil =>
    cases h
    exact ⟨[], by simp, .nil, fun _ hk => hk, by simp, fun _ => rfl⟩
  | cons g outer ih =>
    rw [unwinding_cons (isVerdict_of_unwinding h he')] at h
    have hx : ∀ x, (H.close g e host).1 = some x → x.isVerdict = true := by
      intro x hx
      have hnext := isVerdict_of_unwinding h he'
      simpa [Host.recorded, hx] using hnext
    obtain ⟨closings, hacts, hall, hlasting, hended, hexits⟩ := ih h
    refine ⟨.closed g e (H.close g e host).1 :: closings, ?_, .cons ⟨_, _, rfl⟩ hall,
      fun k hk => hlasting k (B.close_lasting g k e host hk), fun k hk hthere => ?_,
      fun hapart => ?_⟩
    · rw [hacts]
      simp
    · rcases List.mem_cons.1 hk with rfl | hk
      · exact hlasting k (B.ended_of_close hthere hx)
      · exact hended k hk (B.close_there g k e host hthere)
    · -- The computation that was closed is gone; the others are where they were.
      have hplace : ∀ k, B.place k (H.close g e host).2 =
          if (!k == g) = true then B.place k host else none := by
        intro k
        by_cases hk : k = g
        · subst hk
          simpa using B.place_of_close hx
        · simpa [hk] using hapart g k e host hk
      have hrest : B.exits closings (H.close g e host).2 =
          (outer.eraseDups.filter fun k => !k == g).filterMap
            fun k => (B.place k host).map (Prod.mk k) := by
        rw [List.filterMap_filter]
        refine (hexits hapart).trans (List.filterMap_congr fun k _ => ?_)
        show (B.place k (H.close g e host).2).map _ = _
        rw [hplace]
        split <;> rfl
      show (B.place g host).toList.map (Prod.mk g) ++ B.exits closings (H.close g e host).2 = _
      rw [hrest, List.eraseDups_cons, List.filterMap_cons, eraseDups_filter]
      cases B.place g host <;> rfl

/-! ## What a test leaves behind -/

section

variable {s : State (σ × List Act)}

/-- After a mismatch the test closed everything that was active, and left nothing behind. -/
structure LeavesNothing (m : Mismatch H.recorded matchArgs s) (r : Ending (σ × List Act)) :
    Prop where
  /-- The active computations are closed, from the innermost to the outermost, nothing else is
  done to any computation, and each of those that are suspended receives one closing exception
  where it is suspended. -/
  closed : ∃ closings, r.host.2 = m.verdict.2.2 ++ closings ∧
    List.Forall₂ Closes s.active closings ∧
    (B.Apart → B.exits closings m.verdict.2.1 =
      s.active.eraseDups.filterMap fun g => (B.place g m.host.1).map (Prod.mk g))
  /-- The active computations have ended. -/
  ended : ∀ g ∈ s.active, B.stands g m.host.1 ≠ none → B.stands g r.host.1 = some .ended

/-- A test that does anything but closing after the mismatch has not left it at that. -/
theorem not_leavesNothing_of_act {m : Mismatch H.recorded matchArgs s}
    {r : Ending (σ × List Act)} {acts : List Act} (hacts : r.host.2 = m.verdict.2.2 ++ acts)
    {a : Act} (ha : a ∈ acts) (hclosing : a.isClosing = false) : ¬ LeavesNothing B m r := by
  rintro ⟨⟨closings, hclosings, hall, -⟩, -⟩
  obtain rfl := List.append_cancel_left (hacts.symm.trans hclosings)
  rw [isClosing_of_closes hall a ha] at hclosing
  cases hclosing

variable {expectations : Value} {program : Nat} {strict : Bool} {host₀ : σ}
  {host' : σ × List Act} {xs : List Expectation}

/-- **What a mismatch leaves behind.**  A test that ends with the verdict on a mismatch closes
the computations that were active, from the innermost to the outermost, each of them once at
the place where it was suspended, and leaves none that has not ended, exactly when the unwinding
of them ends with that very verdict. -/
theorem mismatch_closes_stack_iff
    (gathered : Gathers H.recorded expectations (host₀, []) xs host')
    (reached : Transition.Reaches (step H.recorded matchArgs) (start host' program xs) s)
    (m : Mismatch H.recorded matchArgs s) {fuel : Nat} {r : Ending (σ × List Act)}
    (run : runTest H.recorded fuel expectations (.computation program) strict matchArgs
      (host₀, []) = some r) (raised : r.outcome = .error m.verdict.1) :
    LeavesNothing B m r ↔
      (unwinding H m.verdict.1 s.active m.verdict.2.1).map Prod.fst = some m.verdict.1 := by
  have hfresh : ∀ g, B.stands g m.verdict.2.1 = B.stands g m.host.1 := fun g =>
    B.fresh g m.host.1
  have hplain := (unwinding_recorded H m.verdict.1 s.active m.verdict.2.1 m.verdict.2.2).1
  rw [← hplain]
  constructor
  · rintro ⟨⟨closings, hacts, hall, -⟩, -⟩
    rw [unwinding_of_closings gathered reached m run raised
      ⟨closings, hacts, isClosing_of_closes hall⟩]
    rfl
  · intro h
    obtain ⟨q, hseen, hq⟩ := Option.map_eq_some_iff.1 h
    obtain ⟨p, hu, rfl⟩ := Option.map_eq_some_iff.1 hseen
    have hverdict : p.1 = m.verdict.1 := hq
    obtain ⟨fuel', hrun⟩ := runTest_of_unwinding gathered reached m hu
    obtain rfl := runTest_unique hrun run
    obtain ⟨closings, hacts, hall, -, hended, hexits⟩ :=
      closings_of_unwinding B hu (hverdict ▸ m.isVerdict)
    refine ⟨⟨closings, hacts, hall, fun hapart => ?_⟩, fun g hg hthere => ?_⟩
    · rw [hexits hapart]
      simp only [Host.Bodies.place, hfresh]
    · exact hended g hg (by rwa [hfresh])

end

/-- The end of a test whose cleanup is quiet: the inner computation is closed, then the outer
one. -/
def guardedEnding : Ending ((Computations Guarded × Site Unit) × List Act) where
  outcome := .error (guardedMismatch false).verdict.1
  host := ((⟨[.ended, .ended], 2⟩, ⟨(), 1, 1⟩),
    [.resumed 0 (.send .null) (.yielded (.computation 1)),
      .resumed 1 (.send .null) (.yielded (.list [.text "b"])),
      .closed 1 (guardedMismatch false).verdict.1 none,
      .closed 0 (guardedMismatch false).verdict.1 none])
  pending := []
  consumed := 0
  notes := []

/-- A quiet cleanup leaves nothing behind.  The inner computation receives a closing exception
where it waits for its effect, and then the outer one where it waits for the inner one. -/
theorem quiet_cleanup_leaves_nothing :
    runTest (guardedHost false).recorded 5 (.list []) (.computation 0) true true
        (guardedStart, []) = some guardedEnding ∧
      LeavesNothing ((guarded false).bodies World.barren) (guardedMismatch false) guardedEnding ∧
      ∃ closings, guardedEnding.host.2 = (guardedMismatch false).verdict.2.2 ++ closings ∧
        ((guarded false).bodies World.barren).exits closings (guardedMismatch false).verdict.2.1 =
          [(1, .effect), (0, .waiting)] := by
  have hrun : runTest (guardedHost false).recorded 5 (.list []) (.computation 0) true true
      (guardedStart, []) = some guardedEnding := rfl
  have hleaves : LeavesNothing ((guarded false).bodies World.barren) (guardedMismatch false)
      guardedEnding :=
    (mismatch_closes_stack_iff ((guarded false).bodies World.barren)
      (gathers_list _ rfl) (.head rfl (.refl guardedState)) (guardedMismatch false) hrun rfl).2 rfl
  obtain ⟨closings, hacts, -, hexits⟩ := hleaves.closed
  exact ⟨hrun, hleaves, closings, hacts, hexits ((guarded false).bodies_apart _)⟩

/-! ## A verdict that comes back -/

/-- The verdict on the effect `["b"]` that nobody expects. -/
def unexpectedB : Exn :=
  ⟨Nat.pair 1 0, .unexpected (.descriptor ⟨.direct, [.text "b"], [], none⟩) .null (.int 0)⟩

/-- The cleanup of the inner computation fails, and the outer one, which has got hold of the
verdict, raises it in place of that failure. -/
def relentless : Behaviour Guarded where
  resume
    | .outer, .send _ => .nested .inner .waiting
    | .inner, .send _ => .listed [.text "b"] .effect
    | .effect, .throw _ => .raised ⟨7, .plain .value [.text "cleanup"]⟩ (by decide)
    | .waiting, .throw _ => .raised unexpectedB (by decide)
    | _, _ => .returned .null

/-- The mismatch of the inner computation. -/
def relentlessMismatch :
    Mismatch (relentless.programs.host World.barren).recorded true guardedState :=
  .guarded rfl

/-- What the harness does after the mismatch. -/
def relentlessActs : List Act :=
  [.closed 1 unexpectedB (some ⟨7, .plain .value [.text "cleanup"]⟩),
    .resumed 0 (.throw ⟨7, .plain .value [.text "cleanup"]⟩) (.raised unexpectedB),
    .closed 0 unexpectedB none]

/-- **A verdict that comes back.**  The test ends with the verdict on its only effect.  The
outer computation, which was active and suspended, receives no closing exception: the failure
of the inner cleanup is thrown into it, and it has ended when it is closed. -/
theorem verdict_raised_again :
    Transition.Reaches (step (relentless.programs.host World.barren).recorded true)
        (start (guardedStart, []) 0 []) guardedState ∧
      ∃ r, runTest (relentless.programs.host World.barren).recorded 5 (.list [])
          (.computation 0) true true (guardedStart, []) = some r ∧
        r.outcome = .error relentlessMismatch.verdict.1 ∧
        r.host.2 = relentlessMismatch.verdict.2.2 ++ relentlessActs ∧
        ¬ LeavesNothing (relentless.bodies World.barren) relentlessMismatch r := by
  have hthrown : Act.resumed 0 (.throw ⟨7, .plain .value [.text "cleanup"]⟩)
      (.raised unexpectedB) ∈ relentlessActs := List.mem_cons_of_mem _ (List.mem_cons_self ..)
  exact ⟨.head rfl (.refl guardedState), _, rfl, rfl, rfl,
    not_leavesNothing_of_act _ rfl hthrown rfl⟩

end Harness
end DescribedEffects
