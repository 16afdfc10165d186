import DescribedEffects.Computation.Host

/-!
# What questions keep

`Host.Keeps` says that a property of the states of a host is kept by every question that
is not about a computation: by calling a function, by starting or waking a coroutine, by
making an exception and by taking out requests.
-/

namespace DescribedEffects

/-- A property of host states that is kept by every question but those that resume or
close a computation. -/
structure Host.Keeps {σ : Type} (H : Host σ) (I : σ → Prop) : Prop where
  call : ∀ f args s, I s → I (H.call f args s).2
  start : ∀ k s, I s → I (H.start k s).2
  wake : ∀ k s, I s → I (H.wake k s).2
  fresh : ∀ s, I s → I (H.fresh s).2
  blame : ∀ id cause s, I s → I (H.blame id cause s)
  drain : ∀ s, I s → I (H.drain s).2

namespace Host.Keeps

variable {σ : Type} {H : Host σ} {I : σ → Prop} (K : H.Keeps I)

include K

theorem raise (body : ExnBody Value) (s : σ) (h : I s) : I (H.raise body s).2 := K.fresh s h

theorem raiseFrom (body : ExnBody Value) (cause : Exn) (s : σ) (h : I s) :
    I (H.raiseFrom body cause s).2 :=
  K.blame _ cause _ (K.raise body s h)

theorem complain (c : Complaint) (s : σ) (h : I s) : I (H.complain c s).2 := by
  cases c with
  | make body => exact K.raise body s h
  | pass e => exact h

theorem shield (sentence : String) (e : Exn) (s : σ) (h : I s) :
    I (H.shield sentence e s).2 := by
  unfold Host.shield
  split
  · exact K.raiseFrom _ e s h
  · exact h

end Host.Keeps

end DescribedEffects
