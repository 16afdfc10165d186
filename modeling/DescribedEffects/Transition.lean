/-!
# Machines that go on or end

Every process of this library is a machine: a function that takes a state either
to the next state or to a result.  `runFor` runs a machine for a bounded number
of steps and says nothing if that was not enough; `Reaches` is the relation
"after finitely many steps".  The two agree: a machine ends with a result for
some number of steps exactly when a state is reached that ends with it
(`exists_runFor_iff`), and a result once found does not change when more steps
are allowed (`runFor_mono`).  A machine whose steps are the images of another
one's steps has the images of its results (`runFor_map`).
-/

namespace DescribedEffects

/-- What a machine does in a state. -/
inductive Transition (S R : Type) where
  | next (s : S)
  | done (r : R)

namespace Transition

variable {S R : Type}

/-- Runs a machine for at most the given number of steps. -/
def runFor (step : S → Transition S R) : Nat → S → Option R
  | 0, _ => none
  | n + 1, s =>
    match step s with
    | .next t => runFor step n t
    | .done r => some r

/-- The second state is reached from the first in finitely many steps. -/
inductive Reaches (step : S → Transition S R) : S → S → Prop
  | refl (s : S) : Reaches step s s
  | head {s t u : S} (first : step s = .next t) (rest : Reaches step t u) : Reaches step s u

theorem Reaches.tail {step : S → Transition S R} {s t u : S} (h : Reaches step s t)
    (last : step t = .next u) : Reaches step s u := by
  induction h with
  | refl s => exact .head last (.refl _)
  | head first _ ih => exact .head first (ih last)

theorem Reaches.trans {step : S → Transition S R} {s t u : S} (h : Reaches step s t)
    (k : Reaches step t u) : Reaches step s u := by
  induction h with
  | refl _ => exact k
  | head first _ ih => exact .head first (ih k)

/-- What holds at the start and is kept by every step holds in every state that is
reached. -/
theorem Reaches.invariant {step : S → Transition S R} {P : S → Prop}
    (keep : ∀ s t, P s → step s = .next t → P t) {s t : S} (h : Reaches step s t) :
    P s → P t := by
  induction h with
  | refl _ => exact id
  | head first _ ih => exact fun p => ih (keep _ _ p first)

theorem runFor_succ_of_next {step : S → Transition S R} {s t : S} (h : step s = .next t)
    (n : Nat) : runFor step (n + 1) s = runFor step n t := by
  simp [runFor, h]

theorem runFor_succ_of_done {step : S → Transition S R} {s : S} {r : R}
    (h : step s = .done r) (n : Nat) : runFor step (n + 1) s = some r := by
  simp [runFor, h]

/-- A result does not change when more steps are allowed. -/
theorem runFor_mono {step : S → Transition S R} {m n : Nat} (hmn : m ≤ n) {s : S} {r : R}
    (h : runFor step m s = some r) : runFor step n s = some r := by
  induction m generalizing n s with
  | zero => simp [runFor] at h
  | succ m ih =>
    obtain ⟨n, rfl⟩ : ∃ k, n = k + 1 := ⟨n - 1, by omega⟩
    cases hs : step s with
    | next t =>
      rw [runFor_succ_of_next hs] at h ⊢
      exact ih (by omega) h
    | done q =>
      rw [runFor_succ_of_done hs] at h ⊢
      exact h

/-- A machine ends with a result exactly when it reaches a state that ends with
it. -/
theorem exists_runFor_iff {step : S → Transition S R} {s : S} {r : R} :
    (∃ n, runFor step n s = some r) ↔ ∃ t, Reaches step s t ∧ step t = .done r := by
  constructor
  · rintro ⟨n, h⟩
    induction n generalizing s with
    | zero => simp [runFor] at h
    | succ n ih =>
      cases hs : step s with
      | next t =>
        rw [runFor_succ_of_next hs] at h
        obtain ⟨u, hu, hr⟩ := ih h
        exact ⟨u, .head hs hu, hr⟩
      | done q =>
        rw [runFor_succ_of_done hs] at h
        cases h
        exact ⟨s, .refl s, hs⟩
  · rintro ⟨t, h, hr⟩
    induction h with
    | refl s => exact ⟨1, runFor_succ_of_done hr 0⟩
    | head first _ ih =>
      obtain ⟨n, hn⟩ := ih hr
      exact ⟨n + 1, by rw [runFor_succ_of_next first]; exact hn⟩

/-- Applies functions to the state or the result. -/
def map {T Q : Type} (f : S → T) (g : R → Q) : Transition S R → Transition T Q
  | .next s => .next (f s)
  | .done r => .done (g r)

/-- A machine that is the image of another one ends with the image of its result. -/
theorem runFor_map {T Q : Type} {f : S → T} {g : R → Q} {step : S → Transition S R}
    {step' : T → Transition T Q} (h : ∀ s, step' (f s) = (step s).map f g) (n : Nat) (s : S) :
    runFor step' n (f s) = (runFor step n s).map g := by
  induction n generalizing s with
  | zero => rfl
  | succ n ih =>
    unfold runFor
    rw [h]
    cases step s with
    | next t => exact ih t
    | done r => rfl

end Transition
end DescribedEffects
