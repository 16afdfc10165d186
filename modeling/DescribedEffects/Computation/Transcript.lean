import DescribedEffects.Computation.Host

/-!
# Transcripts

What a driver does to the programs it drives is what it asks of their host.
`Host.recorded` is a host that answers like another one and writes down every
question about a program together with its answer: the *transcript*.  A statement
such as "nothing is resumed after that" or "each function is called once" is a
statement about the transcript of a run.

Writing it down must not change the run.  `Host.View` says when the states of one
host can be looked at as states of another, whatever is asked; the recorded host
is seen as the plain one by forgetting the transcript (`Host.forget`).  A view that
is good only for what is asked about other things than computations is a
`Host.Surroundings`.
-/

namespace DescribedEffects

/-- One question about a program, with its answer. -/
inductive Act where
  | resumed (computation : Nat) (signal : Signal) (reply : Reply)
  | closed (computation : Nat) (because : Exn) (raised : Option Exn)
  | called (f : Value) (args : List Value) (outcome : Outcome)
  | started (coroutine : Nat) (progress : Progress)
  | woken (coroutine : Nat) (progress : Progress)
  | drained (requests : List Request)

namespace Host

variable {σ τ : Type}

/-- A host that answers like another one and keeps a transcript. -/
def recorded (H : Host σ) : Host (σ × List Act) where
  resume g signal s :=
    let (reply, host) := H.resume g signal s.1
    (reply, host, s.2 ++ [.resumed g signal reply])
  close g because s :=
    let (raised, host) := H.close g because s.1
    (raised, host, s.2 ++ [.closed g because raised])
  call f args s :=
    let (outcome, host) := H.call f args s.1
    (outcome, host, s.2 ++ [.called f args outcome])
  start k s :=
    let (progress, host) := H.start k s.1
    (progress, host, s.2 ++ [.started k progress])
  wake k s :=
    let (progress, host) := H.wake k s.1
    (progress, host, s.2 ++ [.woken k progress])
  fresh s :=
    let (id, host) := H.fresh s.1
    (id, host, s.2)
  blame id cause s := (H.blame id cause s.1, s.2)
  drain s :=
    let (requests, host) := H.drain s.1
    (requests, host, s.2 ++ [.drained requests])

/-- The states of the first host, looked at as states of the second by whoever asks
nothing of computations: the answers are the same and the view goes along. -/
structure Surroundings (K : Host τ) (H : Host σ) where
  view : τ → σ
  call : ∀ f args s, H.call f args (view s) = Prod.map id view (K.call f args s)
  start : ∀ k s, H.start k (view s) = Prod.map id view (K.start k s)
  wake : ∀ k s, H.wake k (view s) = Prod.map id view (K.wake k s)
  fresh : ∀ s, H.fresh (view s) = Prod.map id view (K.fresh s)
  blame : ∀ id cause s, H.blame id cause (view s) = view (K.blame id cause s)
  drain : ∀ s, H.drain (view s) = Prod.map id view (K.drain s)

/-- The states of the first host, looked at as states of the second: whatever is
asked, the answers are the same and the view goes along. -/
structure View (K : Host τ) (H : Host σ) extends Surroundings K H where
  resume : ∀ g signal s, H.resume g signal (view s) = Prod.map id view (K.resume g signal s)
  close : ∀ g because s, H.close g because (view s) = Prod.map id view (K.close g because s)

/-- Forgetting the transcript. -/
def forget (H : Host σ) : View H.recorded H where
  view := Prod.fst
  resume _ _ _ := rfl
  close _ _ _ := rfl
  call _ _ _ := rfl
  start _ _ := rfl
  wake _ _ := rfl
  fresh _ := rfl
  blame _ _ _ := rfl
  drain _ := rfl

namespace Surroundings

variable {K : Host τ} {H : Host σ} (V : Surroundings K H)

theorem raise (body : ExnBody Value) (s : τ) :
    H.raise body (V.view s) = Prod.map id V.view (K.raise body s) := by
  simp only [Host.raise, V.fresh]
  rfl

theorem raiseFrom (body : ExnBody Value) (cause : Exn) (s : τ) :
    H.raiseFrom body cause (V.view s) = Prod.map id V.view (K.raiseFrom body cause s) := by
  simp only [Host.raiseFrom, V.raise, Prod.map_fst, Prod.map_snd, id_eq, V.blame]
  rfl

theorem complain (c : Complaint) (s : τ) :
    H.complain c (V.view s) = Prod.map id V.view (K.complain c s) := by
  cases c with
  | make body => exact V.raise body s
  | pass e => rfl

theorem shield (sentence : String) (e : Exn) (s : τ) :
    H.shield sentence e (V.view s) = Prod.map id V.view (K.shield sentence e s) := by
  unfold Host.shield
  by_cases h : e.isExhausted = true
  · rw [if_pos h, if_pos h]
    exact V.raiseFrom _ e s
  · rw [if_neg h, if_neg h]
    rfl

end Surroundings
end Host
end DescribedEffects
