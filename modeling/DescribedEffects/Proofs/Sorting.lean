import DescribedEffects.Sorting.Blocks
import DescribedEffects.Value.Order

/-!
# A sort fails as a comparison

A sort asks a question about two of its elements that can fail, and it is left by the first
failure.  Nothing else in it can fail: whatever the failures of the comparison have in common,
the failure of the sort has too (`failsOnly_sort`).  This says less than which comparison it was
that failed, but it is all that a caller needs who turns every failure into one sort of error.

So values that cannot be sorted are values without an order (`Value.failsOnly_sorted`).

`FailsOnly` is a statement about an answer; it goes through a sequence of questions
(`FailsOnly.bind`), and then through each function of the sort along its own recursion.
-/

namespace DescribedEffects
namespace Sorting

variable {α β ε : Type} {P : ε → Prop}

/-- If an answer is a failure, it is of a certain sort. -/
def FailsOnly (P : ε → Prop) (answer : Except ε α) : Prop := ∀ e, answer = .error e → P e

theorem failsOnly_ok (a : α) : FailsOnly P (.ok a : Except ε α) := nofun

theorem FailsOnly.bind {answer : Except ε α} {f : α → Except ε β} (h : FailsOnly P answer)
    (then_ : ∀ a, FailsOnly P (f a)) : FailsOnly P (answer >>= f) := by
  intro e he
  cases answer with
  | ok a => exact then_ a e he
  | error e' =>
    cases he
    exact h _ rfl

/-- A question whose answer decides between two ways to go on. -/
theorem FailsOnly.ite {test : Except ε Bool} {f : Bool → Except ε β} (h : FailsOnly P test)
    (holds : FailsOnly P (f true)) (fails : FailsOnly P (f false)) :
    FailsOnly P (test >>= f) :=
  h.bind fun b => by cases b <;> assumption

/-! ## Searching -/

section

variable {test : Nat → Except ε Bool} (h : ∀ i, FailsOnly P (test i))

include h

theorem failsOnly_bisect (lo hi : Nat) : FailsOnly P (bisect test lo hi) := by
  fun_induction bisect test lo hi with
  | case1 lo hi lt mid up down => exact (h mid).ite up down
  | case2 lo hi ge => exact failsOnly_ok lo

theorem failsOnly_stride (limit last next : Nat) :
    FailsOnly P (stride test limit last next) := by
  fun_induction stride test limit last next with
  | case1 last next lt further => exact (h next).ite further (failsOnly_ok _)
  | case2 last next ge => exact failsOnly_ok _

theorem failsOnly_gallop (size hint : Nat) : FailsOnly P (gallop test size hint) := by
  refine (h hint).ite ?upward ?downward
  case upward =>
    have hstride := failsOnly_stride (fun i => h (hint + i)) (size - hint) 0 1
    exact hstride.bind fun _ => failsOnly_bisect h _ _
  case downward =>
    have hnot (i : Nat) : FailsOnly P (do pure !(← test (hint - i))) :=
      (h (hint - i)).bind fun _ => failsOnly_ok _
    exact (failsOnly_stride hnot (hint + 1) 0 1).bind fun _ => failsOnly_bisect h _ _

end

variable {less : α → α → Except ε Bool} (h : ∀ a b, FailsOnly P (less a b))

include h

theorem failsOnly_countUpTo (v : α) (block : List α) (hint : Nat) :
    FailsOnly P (countUpTo less v block hint) := by
  unfold countUpTo
  refine failsOnly_gallop (fun i => ?_) _ _
  split
  · exact (h v _).bind fun _ => failsOnly_ok _
  · exact failsOnly_ok _

theorem failsOnly_countBelow (v : α) (block : List α) (hint : Nat) :
    FailsOnly P (countBelow less v block hint) := by
  unfold countBelow
  refine failsOnly_gallop (fun i => ?_) _ _
  split
  · exact h _ v
  · exact failsOnly_ok _

/-! ## Merging -/

mutual

theorem failsOnly_takeFront (eagerness wonLeft wonRight : Nat) (out : List α) :
    (left right : List α) → FailsOnly P (takeFront less eagerness wonLeft wonRight out left right)
  | left, [] => by
    rw [takeFront]
    exact failsOnly_ok _
  | [], b :: right => by
    rw [takeFront]
    · exact failsOnly_ok _
    · simp
  | [a], b :: right => by
    rw [takeFront]
    · exact failsOnly_ok _
    · simp
  | a :: a₁ :: left, b :: right => by
    rw [takeFront]
    refine (h b a).bind fun below => ?_
    split
    · split
      · exact failsOnly_ok _
      split
      · exact failsOnly_gallopFront _ _ _ _
      · exact failsOnly_takeFront _ _ _ _ _ _
    · split
      · exact failsOnly_ok _
      split
      · exact failsOnly_gallopFront _ _ _ _
      · exact failsOnly_takeFront _ _ _ _ _ _
termination_by left right => left.length + right.length

theorem failsOnly_gallopFront (eagerness : Nat) (out : List α) :
    (left right : List α) → FailsOnly P (gallopFront less eagerness out left right)
  | left, [] => by
    rw [gallopFront]
    exact failsOnly_ok _
  | left, b :: right => by
    rw [gallopFront]
    refine (failsOnly_countUpTo h b left 0).bind fun k => ?_
    split
    · exact failsOnly_ok _
    · exact failsOnly_ok _
    · next a a₁ left' hleft =>
      refine (failsOnly_countBelow h a right 0).bind fun j => ?_
      split
      · exact failsOnly_ok _
      · next b₁ right' hright =>
        have short := congrArg List.length hleft
        have shorter := congrArg List.length hright
        split
        · exact failsOnly_ok _
        split
        · exact failsOnly_gallopFront _ _ _ _
        · exact failsOnly_takeFront _ _ _ _ _ _
termination_by left right => left.length + right.length
decreasing_by
  all_goals
    simp only [List.length_drop, List.length_cons] at short shorter ⊢
    omega

end

mutual

theorem failsOnly_takeBack (eagerness wonLeft wonRight : Nat) (out : List α) :
    (left right : List α) → FailsOnly P (takeBack less eagerness wonLeft wonRight out left right)
  | [], right => by
    rw [takeBack]
    exact failsOnly_ok _
  | a :: left, [] => by
    rw [takeBack]
    · exact failsOnly_ok _
    · simp
  | a :: left, [b] => by
    rw [takeBack]
    · exact failsOnly_ok _
    · simp
  | a :: left, b :: b₁ :: right => by
    rw [takeBack]
    refine (h b a).bind fun below => ?_
    split
    · split
      · exact failsOnly_ok _
      split
      · exact failsOnly_gallopBack _ _ _ _
      · exact failsOnly_takeBack _ _ _ _ _ _
    · split
      · exact failsOnly_ok _
      split
      · exact failsOnly_gallopBack _ _ _ _
      · exact failsOnly_takeBack _ _ _ _ _ _
termination_by left right => left.length + right.length

theorem failsOnly_gallopBack (eagerness : Nat) (out : List α) :
    (left right : List α) → FailsOnly P (gallopBack less eagerness out left right)
  | left, [] => by
    rw [gallopBack]
    exact failsOnly_ok _
  | left, [b] => by
    rw [gallopBack]
    refine (failsOnly_countUpTo h b left.reverse _).bind fun k => ?_
    dsimp only
    split <;> exact failsOnly_ok _
  | left, [b, b₁] => by
    rw [gallopBack]
    refine (failsOnly_countUpTo h b left.reverse _).bind fun k => ?_
    dsimp only
    split <;> exact failsOnly_ok _
  | left, b :: b₁ :: b₂ :: right => by
    rw [gallopBack]
    refine (failsOnly_countUpTo h b left.reverse _).bind fun k => ?_
    dsimp only
    split
    · exact failsOnly_ok _
    · next a left' hleft =>
      refine (failsOnly_countBelow h a _ _).bind fun j => ?_
      split
      · exact failsOnly_ok _
      · exact failsOnly_ok _
      · next b₃ b₄ right' hright =>
        have short := congrArg List.length hleft
        have shorter := congrArg List.length hright
        split
        · exact failsOnly_ok _
        split
        · exact failsOnly_gallopBack _ _ _ _
        · exact failsOnly_takeBack _ _ _ _ _ _
termination_by left right => left.length + right.length
decreasing_by
  all_goals
    simp only [List.length_drop, List.length_cons] at short shorter ⊢
    omega

end

theorem failsOnly_mergeOverlap (eagerness : Nat) (left right : List α) :
    FailsOnly P (mergeOverlap less eagerness left right) := by
  unfold mergeOverlap
  split
  · split
    · exact failsOnly_ok _
    · exact failsOnly_takeFront h _ _ _ _ _ _
  · split
    · exact failsOnly_ok _
    · exact failsOnly_takeBack h _ _ _ _ _ _

theorem failsOnly_merge (eagerness : Nat) (left right : List α) :
    FailsOnly P (merge less eagerness left right) := by
  unfold merge
  split
  · exact failsOnly_ok _
  · refine (failsOnly_countUpTo h _ _ _).bind fun k => ?_
    dsimp only
    split
    · exact failsOnly_ok _
    · refine (failsOnly_countBelow h _ _ _).bind fun n => ?_
      split
      · exact failsOnly_ok _
      · exact (failsOnly_mergeOverlap h _ _ _).bind fun _ => failsOnly_ok _

/-! ## Blocks -/

theorem failsOnly_splitRun (falling : Bool) (last : α) (run vs : List α) :
    FailsOnly P (splitRun less falling last run vs) := by
  induction vs generalizing last run with
  | nil => exact failsOnly_ok _
  | cons v vs ih =>
    refine (h v last).bind fun below => ?_
    split
    · exact ih _ _
    · exact failsOnly_ok _

theorem failsOnly_firstRun (xs : List α) : FailsOnly P (firstRun less xs) := by
  match xs with
  | [] => exact failsOnly_ok _
  | [v] => exact failsOnly_ok _
  | v :: w :: vs => exact (h w v).bind fun falling => failsOnly_splitRun h falling w [w, v] vs

theorem failsOnly_insertAll (block vs : List α) : FailsOnly P (insertAll less block vs) := by
  induction vs generalizing block with
  | nil => exact failsOnly_ok _
  | cons v vs ih =>
    refine (failsOnly_bisect (fun i => ?_) _ _).bind fun i => ih _
    split
    · exact (h v _).bind fun _ => failsOnly_ok _
    · exact failsOnly_ok _

theorem failsOnly_firstBlock (least : Nat) (xs : List α) :
    FailsOnly P (firstBlock less least xs) :=
  (failsOnly_firstRun h xs).bind fun _ =>
    (failsOnly_insertAll h _ _).bind fun _ => failsOnly_ok _

theorem failsOnly_collapse (newPower : Nat) (newest : Merged α) (pending : List (Pending α)) :
    FailsOnly P (collapse less newPower newest pending) := by
  induction pending generalizing newest with
  | nil => exact failsOnly_ok _
  | cons p pending ih =>
    unfold collapse
    split
    · exact (failsOnly_merge h _ _ _).bind fun merged => ih merged
    · exact failsOnly_ok _

theorem failsOnly_finish (newest : Merged α) (pending : List (Pending α)) :
    FailsOnly P (finish less newest pending) := by
  fun_induction finish less newest pending with
  | case1 newest => exact failsOnly_ok _
  | case2 newest p => exact (failsOnly_merge h _ _ _).bind fun _ => failsOnly_ok _
  | case3 newest p q pending shorter ih => exact (failsOnly_merge h _ _ _).bind fun _ => ih _
  | case4 newest p q pending longer ih => exact (failsOnly_merge h _ _ _).bind fun _ => ih _

theorem failsOnly_mergeBlocks (length least fuel start : Nat) (newest : Merged α)
    (pending : List (Pending α)) (rest : List α) :
    FailsOnly P (mergeBlocks less length least fuel start newest pending rest) := by
  induction fuel generalizing start newest pending rest with
  | zero => exact (failsOnly_finish h _ _).bind fun _ => failsOnly_ok _
  | succ fuel ih =>
    cases rest with
    | nil => exact failsOnly_finish h _ _
    | cons v rest =>
      exact (failsOnly_firstBlock h _ _).bind fun _ =>
        (failsOnly_collapse h _ _ _).bind fun _ => ih _ _ _ _

/-- **A sort fails as a comparison does.** -/
theorem failsOnly_sort (xs : List α) : FailsOnly P (sort less xs) :=
  (failsOnly_firstBlock h _ _).bind fun _ => failsOnly_mergeBlocks h _ _ _ _ _ _ _

end Sorting

/-! ## Sorting values -/

/-- Two values have no order. -/
def ValueFault.IsUnordered (f : ValueFault) : Prop := ∃ o l r, f = .unordered o l r

namespace Value

open Sorting

theorem isUnordered_unordered (a b : Value) : (unordered a b).IsUnordered := by
  unfold unordered
  split <;> exact ⟨_, _, _, rfl⟩

theorem failsOnly_lessAtom (a b : Value) : FailsOnly ValueFault.IsUnordered (lessAtom a b) := by
  unfold lessAtom
  split
  · exact failsOnly_ok _
  · exact failsOnly_ok _
  · split
    · exact failsOnly_ok _
    · intro f hf
      cases hf
      exact isUnordered_unordered a b

mutual

theorem failsOnly_less : (a b : Value) → FailsOnly ValueFault.IsUnordered (less a b)
  | .list as, b => by
    unfold less
    split
    · exact failsOnly_lessAll as _
    · exact failsOnly_lessAtom _ _
  | .tuple as, b => by
    unfold less
    split
    · exact failsOnly_lessAll as _
    · exact failsOnly_lessAtom _ _
  | .null, b | .truth _, b | .int _, b | .real _, b | .nan _, b | .text _, b | .bytes _, b
  | .record _, b | .view _, b | .faulty _, b | .mode _, b | .descriptor _, b
  | .expectation _, b | .ok _, b | .err _, b | .exn _, b | .kind _, b | .function _, b
  | .computation _, b | .coroutine _, b | .future _, b | .done _ _, b | .settled _ _, b
  | .broken _ _, b => by
    unfold less
    exact failsOnly_lessAtom _ b

theorem failsOnly_lessAll :
    (as bs : List Value) → FailsOnly ValueFault.IsUnordered (lessAll as bs)
  | [], bs => failsOnly_ok _
  | a :: as, bs => by
    unfold lessAll
    split
    · exact failsOnly_ok _
    split
    · exact failsOnly_lessAll as _
    · exact failsOnly_less a _

end

/-- **Values that cannot be sorted have no order.** -/
theorem failsOnly_sorted (vs : List Value) : FailsOnly ValueFault.IsUnordered (sorted vs) :=
  failsOnly_sort failsOnly_less vs

end Value
end DescribedEffects
