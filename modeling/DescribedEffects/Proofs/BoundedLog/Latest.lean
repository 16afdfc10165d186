import DescribedEffects.BoundedLog
import Mathlib.Data.List.Infix

/-!
# The latest entries of a history

A log does not know its history: it trims what it holds, which may be less than was ever put in,
and it may hold more than its bound allows until it is trimmed.  `Retains` is what can be said
of such a log all the time, whether it has just been trimmed or not: it holds an end of its
history, and at least the latest entries, as many as the bound allows.

Trimming a log like that is as good as trimming the history (`Retains.keepLast_eq`), so trimming
on the way makes no difference to what is kept in the end (`keepLast_append`).  And a log that
fits its bound holds exactly the latest entries (`Retains.fits_iff`).
-/

namespace DescribedEffects

variable {α : Type} {b : Option Int} {history entries : List α}

/-- There are no more entries than the bound allows. -/
def Fits (b : Option Int) (entries : List α) : Prop :=
  ∀ n, b = some n → (entries.length : Int) ≤ max 0 n

theorem fits_none : Fits none entries := fun _ h => (by cases h)

theorem fits_some {n : Int} : Fits (some n) entries ↔ entries.length ≤ n.toNat := by
  constructor
  · intro h
    have := h n rfl
    omega
  · rintro h m ⟨⟩
    omega

theorem length_keepLast (n : Int) (xs : List α) :
    (keepLast (some n) xs).length = min n.toNat xs.length := by
  rw [BoundedLog.keepLast_some, List.length_drop]
  omega

/-- What is kept fits. -/
theorem fits_keepLast (b : Option Int) (xs : List α) : Fits b (keepLast b xs) := by
  cases b with
  | none => exact fits_none
  | some n =>
    rw [fits_some, length_keepLast]
    exact min_le_left _ _

/-- What fits is kept. -/
theorem keepLast_of_fits (h : Fits b entries) : keepLast b entries = entries := by
  cases b with
  | none => rfl
  | some n => rw [BoundedLog.keepLast_some, Nat.sub_eq_zero_of_le (fits_some.1 h), List.drop_zero]

/-- The entries are the end of a history, and none of its latest is missing. -/
structure Retains (b : Option Int) (history entries : List α) : Prop where
  latest : keepLast b history <:+ entries
  suffix : entries <:+ history

theorem retains_self (b : Option Int) (history : List α) : Retains b history history :=
  ⟨BoundedLog.keepLast_suffix b history, List.suffix_refl history⟩

/-- **What is kept of such entries is what is kept of the history.** -/
theorem Retains.keepLast_eq (h : Retains b history entries) :
    keepLast b entries = keepLast b history := by
  cases b with
  | none => exact h.suffix.eq_of_length_le h.latest.length_le
  | some n =>
    have hshort := h.suffix.length_le
    have hlong := h.latest.length_le
    rw [length_keepLast] at hlong
    have hkept : keepLast (some n) entries <:+ history :=
      (BoundedLog.keepLast_suffix _ _).trans h.suffix
    refine (List.suffix_of_suffix_length_le hkept (BoundedLog.keepLast_suffix _ _) ?_).eq_of_length ?_
    all_goals rw [length_keepLast, length_keepLast]; omega

/-- It stays so when entries are added to both. -/
theorem Retains.append (h : Retains b history entries) (added : List α) :
    Retains b (history ++ added) (entries ++ added) where
  latest := by
    cases b with
    | none =>
      rw [h.suffix.eq_of_length_le h.latest.length_le]
      exact BoundedLog.keepLast_suffix _ _
    | some n =>
      have hlong := h.latest.length_le
      rw [length_keepLast] at hlong
      refine List.suffix_of_suffix_length_le (BoundedLog.keepLast_suffix _ _)
        (List.suffix_append_self_iff.2 h.suffix) ?_
      rw [length_keepLast, List.length_append, List.length_append]
      omega
  suffix := List.suffix_append_self_iff.2 h.suffix

/-- It stays so when the entries are trimmed. -/
theorem Retains.trim (h : Retains b history entries) :
    Retains b history (keepLast b entries) := by
  rw [h.keepLast_eq]
  exact ⟨List.suffix_refl _, BoundedLog.keepLast_suffix _ _⟩

/-- **Trimming on the way makes no difference in the end.** -/
theorem keepLast_append (b : Option Int) (xs added : List α) :
    keepLast b (keepLast b xs ++ added) = keepLast b (xs ++ added) :=
  ((retains_self b xs).trim.append added).keepLast_eq

/-- **Such entries fit exactly when they are the latest.** -/
theorem Retains.fits_iff (h : Retains b history entries) :
    Fits b entries ↔ entries = keepLast b history := by
  constructor
  · intro hfits
    rw [← h.keepLast_eq, keepLast_of_fits hfits]
  · rintro rfl
    exact fits_keepLast b history

end DescribedEffects
