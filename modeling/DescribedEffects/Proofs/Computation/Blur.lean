import DescribedEffects.Computation.Transcript
import DescribedEffects.Proofs.Descriptor.Gist

/-!
# Hosts whose programs spell in their own ways

Two hosts whose programs differ only in how they spell items and in where their descriptors were
created are a `Host.Respelling`: a relation between their states that every question keeps, if
it is asked alike, and that makes the answers alike.  What is told to a program is alike if it is
equal up to creation sites, so a program that looks at creation sites is in no respelling.  What a
program yields is alike if it has the same gist; everything else that it answers is alike if it
is equal up to creation sites.

A statement about two runs becomes a statement about one by looking at both hosts through a
third.  A `Host.Blur` shows the states of one host as states of another one, which is told and
tells only what is left without spellings and creation sites.  The host in the middle need not
be made up for every pair of programs: the pairs of states that are alike, with those put
together that have a state in common, are its states (`Respelling.common`), and both hosts blur
into it.

The two hosts run side by side on such pairs, `Respelling.left` with the answers of the first
and `Respelling.right` with those of the second.  Each is a `Host.View` of the host it stands for.
-/

namespace DescribedEffects

/-! ## Questions and answers without spellings -/

/-- What a computation is resumed with, without creation sites. -/
def Signal.unsited : Signal → Signal
  | .send v => .send v.unsited
  | .throw e => .throw e.unsited

/-- What a reply comes to, when neither spellings nor creation sites matter. -/
def Reply.gist : Reply → Reply
  | .yielded item => .yielded item.gist
  | .returned v => .returned v.unsited
  | .raised e => .raised e.unsited

/-- How far a coroutine gets, without creation sites. -/
def Progress.unsited : Progress → Progress
  | .finished o => .finished (unsitedOutcome o)
  | .asleep units => .asleep units

/-- A request without creation sites. -/
def Request.unsited : Request → Request
  | .complete run effect error value => .complete run effect error.unsited value.unsited
  | .callLater delay f args => .callLater delay f.unsited (args.map Value.unsited)
  | .future id outcome delay => .future id (outcome.map unsitedOutcome) delay

/-- An entry of a transcript, when neither spellings nor creation sites matter. -/
def Act.gist : Act → Act
  | .resumed g signal reply => .resumed g signal.unsited reply.gist
  | .closed g because raised => .closed g because.unsited (raised.map ExnOf.unsited)
  | .called f args outcome =>
    .called f.unsited (args.map Value.unsited) (unsitedOutcome outcome)
  | .started k progress => .started k progress.unsited
  | .woken k progress => .woken k progress.unsited
  | .drained requests => .drained (requests.map Request.unsited)

@[simp] theorem Signal.unsited_unsited (signal : Signal) :
    signal.unsited.unsited = signal.unsited := by
  cases signal with
  | send v => exact congrArg Signal.send v.unsited_unsited
  | throw e => exact congrArg Signal.throw e.unsited_unsited

/-- What a computation does to the one that resumed it is told by the gist of its reply. -/
theorem Host.settle_gist (reply : Reply) : Host.settle reply.gist = (Host.settle reply).gist := by
  cases reply with
  | raised e =>
    simp only [Reply.gist, Host.settle, ExnOf.isExhausted_unsited, ExnOf.returned_unsited]
    split <;> rfl
  | _ => rfl

namespace Host

variable {σ τ ρ : Type}

/-- The refusal of what is no computation shows it without creation sites. -/
theorem notComputation_unsited (v : Value) :
    Host.notComputation v.unsited = (Host.notComputation v).unsited := by
  unfold Host.notComputation
  rw [Value.display_unsited]
  rfl

/-! ## Blurs -/

/-- The states of the first host, looked at as states of the second one, which is told and tells
only what is left without spellings and creation sites. -/
structure Blur (K : Host τ) (B : Host ρ) where
  view : τ → ρ
  resume : ∀ g signal s,
    B.resume g signal.unsited (view s) = Prod.map Reply.gist view (K.resume g signal s)
  close : ∀ g because s, B.close g because.unsited (view s) =
    Prod.map (Option.map ExnOf.unsited) view (K.close g because s)
  call : ∀ f args s, B.call f.unsited (args.map Value.unsited) (view s) =
    Prod.map unsitedOutcome view (K.call f args s)
  start : ∀ k s, B.start k (view s) = Prod.map Progress.unsited view (K.start k s)
  wake : ∀ k s, B.wake k (view s) = Prod.map Progress.unsited view (K.wake k s)
  fresh : ∀ s, B.fresh (view s) = Prod.map id view (K.fresh s)
  blame : ∀ id cause s, B.blame id cause.unsited (view s) = view (K.blame id cause s)
  drain : ∀ s, B.drain (view s) = Prod.map (List.map Request.unsited) view (K.drain s)

namespace Blur

variable {K : Host τ} {B : Host ρ} (V : K.Blur B)

theorem raise (body : ExnBody Value) (s : τ) :
    B.raise body.unsited (V.view s) = Prod.map ExnOf.unsited V.view (K.raise body s) := by
  simp only [Host.raise, V.fresh]
  rfl

theorem raiseFrom (body : ExnBody Value) (cause : Exn) (s : τ) :
    B.raiseFrom body.unsited cause.unsited (V.view s) =
      Prod.map ExnOf.unsited V.view (K.raiseFrom body cause s) := by
  simp only [Host.raiseFrom, V.raise, Prod.map_fst, Prod.map_snd, ExnOf.id_unsited, V.blame]
  rfl

theorem complain (c : Complaint) (s : τ) :
    B.complain c.unsited (V.view s) = Prod.map ExnOf.unsited V.view (K.complain c s) := by
  cases c with
  | make body => exact V.raise body s
  | pass e => rfl

theorem shield (sentence : String) (e : Exn) (s : τ) :
    B.shield sentence e.unsited (V.view s) =
      Prod.map ExnOf.unsited V.view (K.shield sentence e s) := by
  unfold Host.shield
  rw [ExnOf.isExhausted_unsited]
  by_cases h : e.isExhausted = true
  · rw [if_pos h, if_pos h]
    exact V.raiseFrom (ValueFault.saying .runtime sentence) e s
  · rw [if_neg h, if_neg h]
    rfl

/-- Hosts that keep transcripts blur as the hosts do, and the transcripts with them. -/
def recorded : K.recorded.Blur B.recorded where
  view := Prod.map V.view (List.map Act.gist)
  resume g signal s := by simp [Host.recorded, V.resume, Act.gist]
  close g because s := by simp [Host.recorded, V.close, Act.gist]
  call f args s := by simp [Host.recorded, V.call, Act.gist]
  start k s := by simp [Host.recorded, V.start, Act.gist]
  wake k s := by simp [Host.recorded, V.wake, Act.gist]
  fresh s := by simp [Host.recorded, V.fresh]
  blame id cause s := by simp [Host.recorded, V.blame]
  drain s := by simp [Host.recorded, V.drain, Act.gist]

end Blur

/-- Hosts that keep transcripts are looked at as the hosts are, and the transcripts stay. -/
def View.recorded {K : Host τ} {H : Host σ} (V : K.View H) : K.recorded.View H.recorded where
  view := Prod.map V.view id
  resume g signal s := by simp [Host.recorded, V.resume]
  close g because s := by simp [Host.recorded, V.close]
  call f args s := by simp [Host.recorded, V.call]
  start k s := by simp [Host.recorded, V.start]
  wake k s := by simp [Host.recorded, V.wake]
  fresh s := by simp [Host.recorded, V.fresh]
  blame id cause s := by simp [Host.recorded, V.blame]
  drain s := by simp [Host.recorded, V.drain]

/-! ## Hosts that answer alike -/

/-- Two ways of answering a question are alike: asked alike in states that are alike, they answer
alike and leave states that are alike. -/
def AnswersAlike {I O : Type} (alike : σ → τ → Prop) (asked : I → I) (heard : O → O)
    (f : I → σ → O × σ) (g : I → τ → O × τ) : Prop :=
  ∀ s t x y, alike s t → asked x = asked y →
    heard (f x s).1 = heard (g y t).1 ∧ alike (f x s).2 (g y t).2

/-- **The programs of two hosts differ in nothing but spelling.**  Asked alike, in states that are
alike, they yield items with the same gist, and otherwise answer the same up to creation
sites; and they cannot tell what they are asked from anything that is equal up to creation
sites. -/
structure Respelling (H : Host σ) (K : Host τ) where
  alike : σ → τ → Prop
  resume : ∀ g, AnswersAlike alike Signal.unsited Reply.gist (H.resume g) (K.resume g)
  close : ∀ g, AnswersAlike alike ExnOf.unsited (Option.map ExnOf.unsited) (H.close g) (K.close g)
  call : AnswersAlike alike (Prod.map Value.unsited (List.map Value.unsited)) unsitedOutcome
    (fun q => H.call q.1 q.2) fun q => K.call q.1 q.2
  start : ∀ k, AnswersAlike alike (@id Unit) Progress.unsited (fun _ => H.start k)
    fun _ => K.start k
  wake : ∀ k, AnswersAlike alike (@id Unit) Progress.unsited (fun _ => H.wake k) fun _ => K.wake k
  fresh : AnswersAlike alike (@id Unit) id (fun _ => H.fresh) fun _ => K.fresh
  blame : ∀ i, AnswersAlike alike ExnOf.unsited (@id Unit) (fun cause s => ((), H.blame i cause s))
    fun cause t => ((), K.blame i cause t)
  drain : AnswersAlike alike (@id Unit) (List.map Request.unsited) (fun _ => H.drain)
    fun _ => K.drain

/-- Two states that are alike. -/
abbrev Pair (alike : σ → τ → Prop) : Type := {p : σ × τ // alike p.1 p.2}

/-- Two pairs have a state in common. -/
def Pair.Touches {alike : σ → τ → Prop} (p q : Pair alike) : Prop :=
  p.1.1 = q.1.1 ∨ p.1.2 = q.1.2

/-- What pairs of states are when those that have a state in common are put together. -/
def Blurred (alike : σ → τ → Prop) : Type := Quot (@Pair.Touches σ τ alike)

/-- What a pair of states is among these. -/
def Pair.blurred {alike : σ → τ → Prop} (p : Pair alike) : Blurred alike := Quot.mk _ p

namespace AnswersAlike

variable {I O : Type} {alike : σ → τ → Prop} {asked : I → I} {heard : O → O}
  {f : I → σ → O × σ} {g : I → τ → O × τ} (h : AnswersAlike alike asked heard f g)

/-- The pair of states that both leave. -/
def next (x : I) (p : Pair alike) : Pair alike :=
  ⟨((f x p.1.1).2, (g x p.1.2).2), (h p.1.1 p.1.2 x x p.2 rfl).2⟩

/-- What the first answers, on a pair of states. -/
def left (x : I) (p : Pair alike) : O × Pair alike := ((f x p.1.1).1, h.next x p)

/-- What the second answers, on a pair of states. -/
def right (x : I) (p : Pair alike) : O × Pair alike := ((g x p.1.2).1, h.next x p)

/-- Pairs that have a state in common are answered alike. -/
theorem answer_of_touches (x : I) {p q : Pair alike} (touches : p.Touches q) :
    (heard (f x p.1.1).1, (h.next x p).blurred) = (heard (f x q.1.1).1, (h.next x q).blurred) := by
  rcases touches with hfirst | hsecond
  · have hnext : (h.next x p).Touches (h.next x q) := .inl (congrArg (fun s => (f x s).2) hfirst)
    rw [hfirst]
    exact congrArg (Prod.mk _) (Quot.sound hnext)
  · have hnext : (h.next x p).Touches (h.next x q) := .inr (congrArg (fun t => (g x t).2) hsecond)
    rw [(h _ _ x x p.2 rfl).1, (h _ _ x x q.2 rfl).1, hsecond]
    exact congrArg (Prod.mk _) (Quot.sound hnext)

/-- What both answer, as far as it is heard. -/
def common (x : I) : Blurred alike → O × Blurred alike :=
  Quot.lift (fun p => (heard (f x p.1.1).1, (h.next x p).blurred)) fun _ _ touches =>
    h.answer_of_touches x touches

variable (idem : ∀ x, asked (asked x) = asked x)
include idem

/-- It makes no difference to the pair that is left how the question is spelled: in between is
the pair that is left if the first is asked in one way and the second in the other. -/
theorem next_asked (x : I) (p : Pair alike) :
    (h.next (asked x) p).blurred = (h.next x p).blurred := by
  let between : Pair alike :=
    ⟨((f (asked x) p.1.1).2, (g x p.1.2).2), (h _ _ (asked x) x p.2 (idem x)).2⟩
  have hfirst : (h.next (asked x) p).Touches between := .inl rfl
  have hsecond : between.Touches (h.next x p) := .inr rfl
  exact (Quot.sound hfirst).trans (Quot.sound hsecond)

theorem common_left (x : I) (p : Pair alike) :
    h.common (asked x) p.blurred = Prod.map heard Pair.blurred (h.left x p) := by
  have hheard : heard (f (asked x) p.1.1).1 = heard (f x p.1.1).1 :=
    ((h _ _ (asked x) x p.2 (idem x)).1).trans ((h _ _ x x p.2 rfl).1).symm
  exact Prod.ext hheard (h.next_asked idem x p)

theorem common_right (x : I) (p : Pair alike) :
    h.common (asked x) p.blurred = Prod.map heard Pair.blurred (h.right x p) :=
  Prod.ext (h _ _ (asked x) x p.2 (idem x)).1 (h.next_asked idem x p)

end AnswersAlike

namespace Respelling

variable {H : Host σ} {K : Host τ} (R : H.Respelling K)

/-- The two hosts side by side, with the answers of the first. -/
def left : Host (Pair R.alike) where
  resume g := (R.resume g).left
  close g := (R.close g).left
  call f args := R.call.left (f, args)
  start k := (R.start k).left ()
  wake k := (R.wake k).left ()
  fresh := R.fresh.left ()
  blame i cause p := ((R.blame i).left cause p).2
  drain := R.drain.left ()

/-- The two hosts side by side, with the answers of the second. -/
def right : Host (Pair R.alike) where
  resume g := (R.resume g).right
  close g := (R.close g).right
  call f args := R.call.right (f, args)
  start k := (R.start k).right ()
  wake k := (R.wake k).right ()
  fresh := R.fresh.right ()
  blame i cause p := ((R.blame i).right cause p).2
  drain := R.drain.right ()

/-- What both hosts come to, when neither spellings nor creation sites matter. -/
def common : Host (Blurred R.alike) where
  resume g := (R.resume g).common
  close g := (R.close g).common
  call f args := R.call.common (f, args)
  start k := (R.start k).common ()
  wake k := (R.wake k).common ()
  fresh := R.fresh.common ()
  blame i cause b := ((R.blame i).common cause b).2
  drain := R.drain.common ()

/-- The first host. -/
def leftView : R.left.View H where
  view p := p.1.1
  resume _ _ _ := rfl
  close _ _ _ := rfl
  call _ _ _ := rfl
  start _ _ := rfl
  wake _ _ := rfl
  fresh _ := rfl
  blame _ _ _ := rfl
  drain _ := rfl

/-- The second host. -/
def rightView : R.right.View K where
  view p := p.1.2
  resume _ _ _ := rfl
  close _ _ _ := rfl
  call _ _ _ := rfl
  start _ _ := rfl
  wake _ _ := rfl
  fresh _ := rfl
  blame _ _ _ := rfl
  drain _ := rfl

theorem asked_call (q : Value × List Value) :
    Prod.map Value.unsited (List.map Value.unsited)
        (Prod.map Value.unsited (List.map Value.unsited) q) =
      Prod.map Value.unsited (List.map Value.unsited) q := by
  obtain ⟨f, args⟩ := q
  simp [Function.comp_def]

/-- **The first host blurs into what both come to.** -/
def leftBlur : R.left.Blur R.common where
  view := Pair.blurred
  resume g := (R.resume g).common_left Signal.unsited_unsited
  close g := (R.close g).common_left ExnOf.unsited_unsited
  call f args := R.call.common_left asked_call (f, args)
  start k := (R.start k).common_left (fun _ => rfl) ()
  wake k := (R.wake k).common_left (fun _ => rfl) ()
  fresh := R.fresh.common_left (fun _ => rfl) ()
  blame i cause p := congrArg Prod.snd ((R.blame i).common_left ExnOf.unsited_unsited cause p)
  drain := R.drain.common_left (fun _ => rfl) ()

/-- **So does the second.** -/
def rightBlur : R.right.Blur R.common where
  view := Pair.blurred
  resume g := (R.resume g).common_right Signal.unsited_unsited
  close g := (R.close g).common_right ExnOf.unsited_unsited
  call f args := R.call.common_right asked_call (f, args)
  start k := (R.start k).common_right (fun _ => rfl) ()
  wake k := (R.wake k).common_right (fun _ => rfl) ()
  fresh := R.fresh.common_right (fun _ => rfl) ()
  blame i cause p := congrArg Prod.snd ((R.blame i).common_right ExnOf.unsited_unsited cause p)
  drain := R.drain.common_right (fun _ => rfl) ()

end Respelling
end Host
end DescribedEffects
