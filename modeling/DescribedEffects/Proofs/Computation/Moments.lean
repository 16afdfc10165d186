import DescribedEffects.Proofs.Computation.Bodies

/-!
# How a run goes from one turn to the next

A driver resumes the innermost of the active computations, looks at what comes of it, and
resumes the next.  A `Moment` is where it is about to do so.  `Bodies.Takes` says what the body of
the innermost computation does then, and the three relations after it say what a driver may make
of that.

* `Follows` relates a moment to the next one.  A computation hears of the end of the one inside it
  once, and hears how it ended: what is sent to it was returned, and what is thrown into it was
  raised.
* `Unwinds` is for a driver that gives computations up.  They are not told anything, and those
  around them are told by throwing; only a turn that raises something of a special kind, or that
  yields, can be given up.
* `Concludes` relates the last moment to the outcome of the run.

`resumed_of_lined` is what a driver has to know of bodies to keep to this.
-/

namespace DescribedEffects

/-- The innermost of the active computations is about to be resumed. -/
structure Moment (S σ : Type) where
  /-- The active computations, innermost first. -/
  active : List Nat
  signal : Signal
  host : Running S σ

/-- A driver may be left with something that it does not throw into the next computation: what
the performing of an effect comes to, or an exception that is not for computations to handle. -/
def Turn.letsEscape {S : Type} : Turn S → Bool
  | .yielded .. => true
  | .raised e => e.isVerdict || !e.isOrdinary
  | .returned _ | .nested .. => false

/-- What surfaces and is not for computations to handle was raised as it is. -/
theorem Surfaces.letsEscape {S : Type} {sentence : String} {e surfaced : Exn}
    {causes : List (Nat × Exn)} (h : Surfaces sentence e surfaced causes)
    (escapes : (surfaced.isVerdict || !surfaced.isOrdinary) = true) :
    (Turn.raised e : Turn S).letsEscape = true := by
  unfold Surfaces at h
  split at h
  · have hkind : surfaced.kind = .runtime := congrArg ExnBody.kind h.1
    unfold ExnOf.isVerdict ExnOf.isOrdinary at escapes
    rw [hkind] at escapes
    cases escapes
  · rwa [h] at escapes

namespace Bodies

variable {S σ : Type} (B : Bodies S σ)

/-- The innermost computation can take what it is resumed with, and its body takes this turn. -/
inductive Takes (m : Moment S σ) : Turn S → Prop
  | intro {g : Nat} {outer : List Nat} {x : S} (active : m.active = g :: outer)
      (poised : Poised m.host.made g x m.signal) : Takes m (B.run x m.signal m.host.world).1

/-- What comes next when a turn is not given up. -/
inductive Follows (m next : Moment S σ) : Prop
  /-- A computation that is yielded is begun. -/
  | begun {inner y : S} {g : Nat} (takes : B.Takes m (.nested inner y))
      (active : next.active = g :: m.active) (signal : next.signal = .send .null)
      (fresh : next.host.made.standings[g]? = some (.unstarted inner))
  /-- A computation that yields anything else gets the answer. -/
  | answered {item : Value} {plain : item.isComputation = false} {y : S}
      (takes : B.Takes m (.yielded item plain y)) (active : next.active = m.active)
  | returned {v : Value} (takes : B.Takes m (.returned v)) (active : next.active = m.active.tail)
      (signal : next.signal = .send v)
  | raised {e surfaced : Exn} (takes : B.Takes m (.raised e))
      (active : next.active = m.active.tail)
      (surfaces : Surfaces "generator raised StopIteration" e surfaced next.host.causes)
      (signal : next.signal = .throw surfaced)

/-- What comes next when computations are given up. -/
inductive Unwinds (m next : Moment S σ) : Prop
  | intro {turn : Turn S} {gone : List Nat} {e : Exn} (takes : B.Takes m turn)
      (escapes : turn.letsEscape = true) (given : gone ≠ [])
      (active : m.active = gone ++ next.active) (signal : next.signal = .throw e)

/-- How a run of a computation ends after its last turn. -/
inductive Concludes (program : Nat) (m : Moment S σ) (causes : List (Nat × Exn)) : Outcome → Prop
  | returned {v : Value} (takes : B.Takes m (.returned v)) (alone : m.active = [program]) :
      Concludes program m causes (.ok v)
  | raised {e surfaced : Exn} (takes : B.Takes m (.raised e)) (alone : m.active = [program])
      (surfaces : Surfaces "generator raised StopIteration" e surfaced causes) :
      Concludes program m causes (.error surfaced)
  | escaped {turn : Turn S} {e : Exn} (takes : B.Takes m turn)
      (escapes : turn.letsEscape = true) : Concludes program m causes (.error e)

/-- What the innermost computation has replied, as a driver takes it, and what it has left. -/
inductive Resumed (m : Moment S σ) (g : Nat) (outer : List Nat) : Reply → Running S σ → Prop
  | returned {v : Value} {s : Running S σ} (takes : B.Takes m (.returned v))
      (rests : Resting s.made outer) : Resumed m g outer (.returned v) s
  | raised {e surfaced : Exn} {s : Running S σ} (takes : B.Takes m (.raised e))
      (surfaces : Surfaces "generator raised StopIteration" e surfaced s.causes)
      (ended : s.made.standings[g]? = some .ended) (rests : Resting s.made outer) :
      Resumed m g outer (.raised surfaced) s
  | yielded {item : Value} {plain : item.isComputation = false} {y : S} {s : Running S σ}
      (takes : B.Takes m (.yielded item plain y)) (rests : Resting s.made (g :: outer)) :
      Resumed m g outer (.yielded item) s
  | nested {inner y : S} {n : Nat} {s : Running S σ} (takes : B.Takes m (.nested inner y))
      (lined : Lined s.made (n :: g :: outer) (.send .null))
      (fresh : s.made.standings[n]? = some (.unstarted inner)) :
      Resumed m g outer (.yielded (.computation n)) s

variable {B} {K : Host σ} {m : Moment S σ} {g : Nat} {outer : List Nat}

theorem Concludes.mono {program : Nat} {causes causes' : List (Nat × Exn)} {o : Outcome}
    (h : B.Concludes program m causes o) (kept : ∀ cause ∈ causes, cause ∈ causes') :
    B.Concludes program m causes' o := by
  cases h with
  | returned takes alone => exact .returned takes alone
  | raised takes alone surfaces => exact .raised takes alone (surfaces.mono kept)
  | escaped takes escapes => exact .escaped takes escapes

/-- What moves no computation and forgets no cause makes no difference. -/
theorem Resumed.later {reply : Reply} {s u : Running S σ} (h : B.Resumed m g outer reply s)
    (made : u.made = s.made) (causes : ∀ cause ∈ s.causes, cause ∈ u.causes) :
    B.Resumed m g outer reply u := by
  cases h with
  | returned takes rests => exact .returned takes (made ▸ rests)
  | raised takes surfaces ended rests =>
    exact .raised takes (surfaces.mono causes) (made ▸ ended) (made ▸ rests)
  | yielded takes rests => exact .yielded takes (made ▸ rests)
  | nested takes lined fresh => exact .nested takes (made ▸ lined) (made ▸ fresh)

variable (K) in
/-- **What comes of resuming the innermost computation.** -/
theorem resumed_of_lined (active : m.active = g :: outer)
    (lined : Lined m.host.made (g :: outer) m.signal) :
    B.Resumed m g outer (Host.settle ((B.host K).resume g m.signal m.host).1)
      ((B.host K).resume g m.signal m.host).2 := by
  cases lined with
  | @intro g outer x signal poised inner rests =>
    have htakes : B.Takes m (B.run x m.signal m.host.world).1 := .intro active poised
    -- Whatever the turn is, only the innermost computation is moved, and one may be made.
    rw [resume_of_poised poised]
    rcases hturn : B.run x m.signal m.host.world with ⟨turn, world⟩
    rw [hturn] at htakes
    cases turn with
    | returned v => exact .returned htakes (rests.untouched inner (untouched_stand ..))
    | raised e =>
      obtain ⟨surfaced, -, hsettle, hsurfaces, hmade⟩ :=
        answer_raised (K := K) g m.host e world
      rw [hsettle]
      refine .raised htakes hsurfaces ?_ ?_
      · rw [hmade]
        exact List.getElem?_set_self poised.lt
      · rw [hmade]
        exact rests.untouched inner (untouched_stand ..)
    | yielded item plain y => exact .yielded htakes (rests.suspend inner poised.lt y)
    | nested y z =>
      refine .nested htakes ((rests.suspend inner poised.lt z).make y) ?_
      exact List.getElem?_concat_length

/-- The program is the outermost of the computations; so one that is alone is the program. -/
theorem alone_of_bottom {program : Nat} {active : List Nat} (h : active = [g])
    (bottom : active.getLast? = some program) : active = [program] := by
  rw [h] at bottom ⊢
  exact congrArg (fun g => [g]) (Option.some.inj bottom)

end Bodies
end DescribedEffects
