import DescribedEffects.Context
import DescribedEffects.Proofs.Computation.Joint
import DescribedEffects.Proofs.Descriptor.Grammar
import Mathlib.Algebra.GroupWithZero.Nat
import Mathlib.Algebra.Order.BigOperators.Group.List
import Mathlib.Algebra.Order.Group.Nat

/-!
# What an item amounts to

An item is performed by reading it and then looking things up and calling functions, for one
effect or for the members of a group.  `Plan` is the tree of what there is to do, with one leaf
for each effect and for each member that cannot be read.  It depends on the item alone.

When every function has one outcome for the same arguments (`Callables`), every plan has one
outcome as well, and the exceptions that the library makes on the way are the only ones that
are not known beforehand.  `Plan.expects` says what outcome that is for an item with a given
number, and whether its exception is one of those.  The list of a group's results and the first
failure of its members *in order* stand for the outcome of a group; for a group with more than
one failing leaf this is just one of the outcomes that it can have, and so `Plan.failures`
counts them.
-/

namespace DescribedEffects

/-- The value is a completion callback. -/
def Value.isDone : Value → Bool
  | .done .. => true
  | _ => false

/-- What there is to do for an item. -/
inductive Plan where
  /-- The item cannot be read. -/
  | refused (m : Malformed)
  | single (d : Descriptor)
  | group (members : List Plan)

namespace Plan

/-! ## The plan of an item -/

mutual

/-- The plan of an item. -/
def ofValue : Value → Plan
  | .descriptor d => ofDescriptor d
  | .list items => ofItems (.list items) items
  | .tuple items => ofItems (.tuple items) items
  | raw => .refused ⟨raw, .notList⟩
termination_by structural raw => raw

/-- The plan of a descriptor. -/
def ofDescriptor : Descriptor → Plan
  | ⟨m, p, args, site⟩ =>
    if m = .parallel then .group (ofValues args) else .single ⟨m, p, args, site⟩
termination_by structural d => d

/-- The plan of the items of a list or tuple. -/
def ofItems (raw : Value) : List Value → Plan
  | .mode .parallel :: members =>
    match parseMembers members with
    | .error m => .refused m
    | .ok _ => .group (ofValues members)
  | items =>
    match parseItems raw items with
    | .error m => .refused m
    | .ok d => .single d
termination_by structural items => items

/-- The plans of the members of a group. -/
def ofValues : List Value → List Plan
  | [] => []
  | v :: vs => ofValue v :: ofValues vs
termination_by structural vs => vs

end

theorem ofValues_eq_map (vs : List Value) : ofValues vs = vs.map ofValue := by
  induction vs with
  | nil => rfl
  | cons v vs ih => rw [ofValues, ih, List.map_cons]

theorem ofDescriptor_of_parallel {d : Descriptor} (h : d.mode = .parallel) :
    ofDescriptor d = .group (d.args.map ofValue) := by
  obtain ⟨m, p, args, site⟩ := d
  rw [ofDescriptor, if_pos h, ofValues_eq_map]

theorem ofDescriptor_of_single {d : Descriptor} (h : d.mode ≠ .parallel) :
    ofDescriptor d = .single d := by
  obtain ⟨m, p, args, site⟩ := d
  rw [ofDescriptor, if_neg h]

/-- Items that are not those of a group and can be read are a single effect. -/
theorem mode_of_parseItems {raw : Value} {items : List Value} {d : Descriptor}
    (h : ∀ members, items ≠ .mode .parallel :: members)
    (hparse : parseItems raw items = .ok d) : d.mode ≠ .parallel := by
  unfold parseItems at hparse
  split at hparse
  · cases hparse
  · exact absurd rfl (h _)
  · next m rest hm =>
    obtain ⟨path, args, p, -, -, rfl⟩ := readCall_eq_ok.1 hparse
    rintro rfl
    exact hm rfl
  · obtain ⟨path, args, p, -, -, rfl⟩ := readCall_eq_ok.1 hparse
    simp

mutual

/-- **An item that can be read has the plan of what is read.** -/
theorem ofValue_of_parse : (v : Value) → (d : Descriptor) → parseValue v = .ok d →
    ofValue v = ofDescriptor d
  | .descriptor _, _, h => by cases h; rfl
  | .list items, d, h => ofItems_of_parse (.list items) items d h
  | .tuple items, d, h => ofItems_of_parse (.tuple items) items d h
  | .null, _, h | .truth _, _, h | .int _, _, h | .real _, _, h | .nan _, _, h | .text _, _, h
  | .bytes _, _, h | .record _, _, h | .view _, _, h | .faulty _, _, h | .mode _, _, h
  | .expectation _, _, h | .ok _, _, h | .err _, _, h | .exn _, _, h | .kind _, _, h
  | .function _, _, h | .computation _, _, h | .coroutine _, _, h | .future _, _, h
  | .done .., _, h | .settled .., _, h | .broken .., _, h => by cases h
termination_by structural v => v

theorem ofItems_of_parse (raw : Value) : (items : List Value) → (d : Descriptor) →
    parseItems raw items = .ok d → ofItems raw items = ofDescriptor d
  | [], _, h => by cases h
  | v :: vs, d, h => by
    by_cases hv : v = .mode .parallel
    · subst hv
      cases hms : parseMembers vs with
      | error m =>
        simp only [parseItems, hms] at h
        cases h
      | ok ms =>
        simp only [parseItems, hms] at h
        cases h
        rw [ofDescriptor, if_pos rfl, ← ofValues_of_parse vs ms hms]
        simp only [ofItems, hms]
    · have hplain : ∀ members, v :: vs ≠ .mode .parallel :: members :=
        fun members heq => hv (List.cons.inj heq).1
      rw [ofDescriptor_of_single (mode_of_parseItems hplain h), ofItems, h]
      exact hplain
termination_by structural items => items

theorem ofValues_of_parse : (vs ds : List Value) → parseMembers vs = .ok ds →
    ofValues vs = ofValues ds
  | [], _, h => by cases h; rfl
  | v :: vs, ds, h => by
    obtain ⟨w, ws, ⟨d, hd, rfl⟩, hws, rfl⟩ := List.forall₂_cons_left_iff.1 (parseMembers_eq_ok.1 h)
    rw [ofValues, ofValues, ofValue_of_parse v d hd,
      ofValues_of_parse vs ws (parseMembers_eq_ok.2 hws)]
    rfl
termination_by structural vs => vs

end

/-- An item that cannot be read is refused. -/
theorem ofValue_of_error {v : Value} {m : Malformed} (h : parseValue v = .error m) :
    ofValue v = .refused m := by
  have hitems : ∀ raw items, parseItems raw items = .error m → ofItems raw items = .refused m := by
    intro raw items hitems
    unfold ofItems
    split
    · next members =>
      simp only [parseItems] at hitems
      cases hms : parseMembers members with
      | error m' => rw [hms] at hitems; cases hitems; rfl
      | ok ms => rw [hms] at hitems; cases hitems
    · rw [hitems]
  cases v with
  | list items => exact hitems _ items h
  | tuple items => exact hitems _ items h
  | descriptor d => cases h
  | _ => cases h; rfl

/-! ## Trees of what there is to do -/

/-- What holds of a plan holds of it because of its members. -/
@[elab_as_elim, induction_eliminator]
theorem members_induction {motive : Plan → Prop} (refused : ∀ m, motive (.refused m))
    (single : ∀ d, motive (.single d))
    (group : ∀ members, (∀ x ∈ members, motive x) → motive (.group members)) :
    (x : Plan) → motive x :=
  @Plan.rec motive (fun members => ∀ x ∈ members, motive x)
    refused single group (fun _ h => by cases h)
    fun x members hx hmembers y hy => by
      rcases List.mem_cons.1 hy with rfl | hy
      · exact hx
      · exact hmembers y hy

section

variable {α : Type} (refused : Malformed → α) (single : Descriptor → α) (group : List α → α)

mutual

/-- What comes of a plan when it is known what comes of its leaves. -/
def fold : Plan → α
  | .refused m => refused m
  | .single d => single d
  | .group members => group (folds members)
termination_by structural x => x

/-- What comes of several plans. -/
def folds : List Plan → List α
  | [] => []
  | x :: xs => fold x :: folds xs
termination_by structural xs => xs

end

theorem fold_group (members : List Plan) :
    fold refused single group (.group members) =
      group (members.map (fold refused single group)) := by
  have hfolds : ∀ xs, folds refused single group xs = xs.map (fold refused single group) := by
    intro xs
    induction xs with
    | nil => rfl
    | cons x xs ih => rw [folds, ih, List.map_cons]
  rw [fold, hfolds]

end

/-- How much there is to do. -/
def size : Plan → Nat := fold (fun _ => 1) (fun _ => 1) fun ns => ns.sum + 1

@[simp] theorem size_refused (m : Malformed) : (refused m).size = 1 := rfl

@[simp] theorem size_single (d : Descriptor) : (single d).size = 1 := rfl

@[simp] theorem size_group (members : List Plan) :
    (group members).size = (members.map size).sum + 1 := fold_group ..

end Plan

/-! ## Functions with one outcome -/

/-- Functions of which each has one outcome for the same arguments: a value that is not to be
awaited, or an ordinary exception that does not mark the end of a computation. -/
structure Callables where
  outcome : Value → List Value → Outcome
  plain : ∀ {f args v}, outcome f args = .ok v → v.isAwaitable = false
  ordinary : ∀ {f args e}, outcome f args = .error e → e.isOrdinary = true
  lasting : ∀ {f args e}, outcome f args = .error e → e.isExhausted = false

/-- An outcome that is known beforehand. -/
structure Expected where
  outcome : Outcome
  /-- The number of the item on whose account the library makes the exception, if it does. -/
  minted : Option Nat

/-- The library makes an exception of its own. -/
def Complaint.isMade : Complaint → Bool
  | .make _ => true
  | .pass e => e.isExhausted

/-- What comes of an effect that is not found. -/
def Complaint.expected (n : Nat) (c : Complaint) : Expected :=
  let (e, s) := World.barren.still.complain c ⟨(), n, 0⟩
  let (e, _) := World.barren.still.shield "coroutine raised StopIteration" e s
  ⟨.error e, if c.isMade then some n else none⟩

/-- What comes of a member that cannot be read. -/
def Malformed.expected (n : Nat) (m : Malformed) : Expected :=
  ⟨.error ⟨Nat.pair n 0, m.body⟩, some n⟩

/-- What comes of a group: all results, or the first failure. -/
def Expected.together (xs : List Expected) : Expected :=
  ⟨(xs.mapM Expected.outcome).map .list, xs.findSome? Expected.minted⟩

/-- The outcome fails. -/
def Expected.fails (x : Expected) : Bool := !x.outcome.isOk

namespace Callables

variable (K : Callables) (context : Value)

/-- What is found for an effect: the outcome, unless there is a complaint. -/
def find (d : Descriptor) : Except Complaint Outcome :=
  match Context.lookup context d.path with
  | .error fault => .error (fault.complaint (.tuple d.path) d.path)
  | .ok v =>
    match Context.classify v d.mode with
    | .value => .ok (.ok v)
    | _ => .ok (K.outcome v d.args)

/-- What comes of an effect. -/
def leaf (n : Nat) (d : Descriptor) : Expected :=
  match K.find context d with
  | .error c => c.expected n
  | .ok o => ⟨o, none⟩

/-- How many exceptions the library makes for an effect. -/
def mints (d : Descriptor) : Nat :=
  match K.find context d with
  | .error c => if c.isMade then 1 else 0
  | .ok _ => 0

end Callables

namespace Plan

variable (K : Callables) (context : Value)

/-- **The outcome of an item** with a given number. -/
def expects (n : Nat) : Plan → Expected :=
  fold (Malformed.expected n) (K.leaf context n) Expected.together

/-- How many leaves fail. -/
def failures : Plan → Nat :=
  fold (fun _ => 1) (fun d => if (K.leaf context 0 d).fails then 1 else 0) List.sum

/-- For how many leaves the library makes an exception. -/
def mints : Plan → Nat :=
  fold (fun _ => 1) (K.mints context) List.sum

/-- What is found for every leaf is no completion callback, and neither is the last argument
of a direct call: that is how a function would be told from a callback-style one. -/
def IsRegular : Plan → Prop :=
  fold (fun _ => True)
    (fun d => ∀ v, Context.lookup context d.path = .ok v →
      v.isDone = false ∧ (d.mode = .direct → ∀ w ∈ d.args.getLast?, w.isDone = false))
    fun ps => ∀ p ∈ ps, p

/-- There is at most one leaf that fails, and no completion callback is misused. -/
structure Modest (x : Plan) : Prop where
  failures : x.failures K context ≤ 1
  regular : x.IsRegular context

end Plan

/-! ## What is known of outcomes -/

variable {K : Callables} {context : Value}

@[simp] theorem Malformed.fails_expected (n : Nat) (m : Malformed) : (m.expected n).fails = true :=
  rfl

@[simp] theorem Complaint.fails_expected (n : Nat) (c : Complaint) : (c.expected n).fails = true :=
  rfl

/-- Whether an effect fails does not depend on its number. -/
theorem Callables.fails_leaf (n : Nat) (d : Descriptor) :
    (K.leaf context n d).fails = (K.leaf context 0 d).fails := by
  unfold leaf
  cases K.find context d <;> rfl

theorem Callables.minted_leaf (n : Nat) (d : Descriptor) :
    (K.leaf context n d).minted = if 0 < K.mints context d then some n else none := by
  unfold leaf mints
  cases K.find context d with
  | error c =>
    show (if c.isMade then some n else none) =
      if 0 < if c.isMade then 1 else 0 then some n else none
    split <;> rfl
  | ok o => rfl

theorem Callables.mints_le (d : Descriptor) :
    K.mints context d ≤ if (K.leaf context 0 d).fails then 1 else 0 := by
  unfold leaf mints
  cases K.find context d with
  | error c =>
    rw [if_pos (c.fails_expected 0)]
    dsimp only
    split <;> omega
  | ok o => exact Nat.zero_le _

namespace Expected

/-- The results of a group, when every member has one. -/
theorem outcome_together_of_results {xs : List Expected} {vs : List Value}
    (h : xs.map outcome = vs.map .ok) : (together xs).outcome = .ok (.list vs) := by
  have hresults : xs.mapM outcome = .ok vs := by
    induction xs generalizing vs with
    | nil =>
      obtain rfl := List.map_eq_nil_iff.1 h.symm
      rfl
    | cons x xs ih =>
      cases vs with
      | nil => cases h
      | cons v vs =>
        obtain ⟨hx, hxs⟩ := List.cons.inj h
        rw [List.mapM_cons, hx, ih hxs]
        rfl
  simp only [together, hresults]
  rfl

/-- A group fails when the members before a failing one do not. -/
theorem outcome_together_of_failure {before after : List Expected} {x : Expected} {e : Exn}
    (h : ∀ y ∈ before, y.fails = false) (hx : x.outcome = .error e) :
    (together (before ++ x :: after)).outcome = .error e := by
  have hfailure : (before ++ x :: after).mapM outcome = .error e := by
    induction before with
    | nil =>
      rw [List.nil_append, List.mapM_cons, hx]
      rfl
    | cons y before ih =>
      have hy := h y (List.mem_cons_self ..)
      cases hyo : y.outcome with
      | error e' => simp [fails, hyo, Except.isOk, Except.toBool] at hy
      | ok v =>
        rw [List.cons_append, List.mapM_cons, hyo, ih fun z hz => h z (List.mem_cons_of_mem y hz)]
        rfl
  simp only [together, hfailure]
  rfl

theorem fails_iff {x : Expected} : x.fails = true ↔ ∃ e, x.outcome = .error e := by
  unfold fails
  cases x.outcome <;> simp [Except.isOk, Except.toBool]

theorem fails_eq_false_iff {x : Expected} : x.fails = false ↔ ∃ v, x.outcome = .ok v := by
  unfold fails
  cases x.outcome <;> simp [Except.isOk, Except.toBool]

/-- A group fails when one of its members does. -/
theorem fails_together (xs : List Expected) : (together xs).fails = xs.any fails := by
  cases hany : xs.any fails with
  | false =>
    have hall : ∀ x ∈ xs, ∃ v, x.outcome = .ok v := fun x hx =>
      fails_eq_false_iff.1 (by simpa using List.any_eq_false.1 hany x hx)
    obtain ⟨vs, hvs⟩ : ∃ vs : List Value, xs.map outcome = vs.map .ok := by
      clear hany
      induction xs with
      | nil => exact ⟨[], rfl⟩
      | cons x xs ih =>
        obtain ⟨v, hv⟩ := hall x (List.mem_cons_self ..)
        obtain ⟨vs, hvs⟩ := ih fun y hy => hall y (List.mem_cons_of_mem x hy)
        exact ⟨v :: vs, by rw [List.map_cons, List.map_cons, hv, hvs]⟩
    exact fails_eq_false_iff.2 ⟨_, outcome_together_of_results hvs⟩
  | true =>
    obtain ⟨x, hfind⟩ := Option.isSome_iff_exists.1 (List.find?_isSome.2 (List.any_eq_true.1 hany))
    obtain ⟨hx, before, after, rfl, hbefore⟩ := List.find?_eq_some_iff_append.1 hfind
    obtain ⟨e, he⟩ := fails_iff.1 hx
    exact fails_iff.2 ⟨e, outcome_together_of_failure (by simpa using hbefore) he⟩

end Expected

namespace Plan

section

variable {members : List Plan}

@[simp] theorem expects_group (n : Nat) :
    (group members).expects K context n =
      Expected.together (members.map (expects K context n)) := fold_group ..

@[simp] theorem failures_group :
    (group members).failures K context = (members.map (failures K context)).sum := fold_group ..

@[simp] theorem mints_group :
    (group members).mints K context = (members.map (mints K context)).sum := fold_group ..

theorem isRegular_group :
    (group members).IsRegular context ↔ ∀ x ∈ members, x.IsRegular context := by
  unfold IsRegular
  rw [fold_group]
  exact List.forall_mem_map

end

/-- A sum has something in it because one of the summands has. -/
theorem sum_map_pos_iff {xs : List Plan} {f : Plan → Nat} :
    0 < (xs.map f).sum ↔ ∃ x ∈ xs, 0 < f x := by
  rw [Nat.pos_iff_ne_zero, Ne, List.sum_eq_zero_iff]
  simp [Nat.pos_iff_ne_zero]

/-- **A plan fails when one of its leaves does.** -/
theorem fails_expects (n : Nat) (x : Plan) :
    (x.expects K context n).fails = decide (0 < x.failures K context) := by
  induction x with
  | refused m => rfl
  | single d =>
    show (K.leaf context n d).fails = decide (0 < if (K.leaf context 0 d).fails then 1 else 0)
    rw [Callables.fails_leaf]
    split
    · next h => rw [h]; rfl
    · next h => rw [Bool.eq_false_of_not_eq_true h]; rfl
  | group members ih =>
    rw [expects_group, failures_group, Expected.fails_together, List.any_map, Bool.eq_iff_iff,
      List.any_eq_true, decide_eq_true_iff, sum_map_pos_iff]
    refine exists_congr fun x => and_congr_right fun hx => ?_
    rw [Function.comp_apply, ih x hx, decide_eq_true_iff]

/-- **The library makes the exception of a plan** when it makes one for a leaf. -/
theorem minted_expects (n : Nat) (x : Plan) :
    (x.expects K context n).minted = if 0 < x.mints K context then some n else none := by
  induction x with
  | refused m => rfl
  | single d => exact Callables.minted_leaf n d
  | group members ih =>
    rw [expects_group, mints_group]
    show (members.map (expects K context n)).findSome? Expected.minted = _
    rw [List.findSome?_map]
    cases hfind : members.findSome? (Expected.minted ∘ expects K context n) with
    | none =>
      rw [if_neg]
      rw [sum_map_pos_iff]
      rintro ⟨x, hx, hpos⟩
      have hnone := List.findSome?_eq_none_iff.1 hfind x hx
      rw [Function.comp_apply, ih x hx, if_pos hpos] at hnone
      cases hnone
    | some k =>
      obtain ⟨x, hx, hk⟩ := List.exists_of_findSome?_eq_some hfind
      rw [Function.comp_apply, ih x hx] at hk
      split at hk
      · next hpos => rw [if_pos (sum_map_pos_iff.2 ⟨x, hx, hpos⟩), hk]
      · cases hk

/-- The library makes exceptions for leaves that fail. -/
theorem mints_le_failures (x : Plan) : x.mints K context ≤ x.failures K context := by
  induction x with
  | refused m => exact Nat.le_refl 1
  | single d => exact Callables.mints_le d
  | group members ih =>
    rw [mints_group, failures_group]
    exact List.sum_le_sum ih

/-- A member of a modest group is modest. -/
theorem Modest.member {members : List Plan} (h : (group members).Modest K context) {x : Plan}
    (hx : x ∈ members) : x.Modest K context where
  failures := by
    have hall := h.failures
    rw [failures_group] at hall
    exact Nat.le_trans (List.le_sum_of_mem (List.mem_map_of_mem hx)) hall
  regular := isRegular_group.1 h.regular x hx

/-- Only one summand of a sum that is at most one has anything in it. -/
theorem eq_of_sum_map_le_one {xs : List Plan} {f : Plan → Nat} (h : (xs.map f).sum ≤ 1)
    {i j : Nat} {x y : Plan} (hi : xs[i]? = some x) (hj : xs[j]? = some y) (hx : 0 < f x)
    (hy : 0 < f y) : i = j := by
  induction xs generalizing i j with
  | nil => cases hi
  | cons z xs ih =>
    rw [List.map_cons, List.sum_cons] at h
    have hrest : ∀ {k w}, xs[k]? = some w → f w ≤ (xs.map f).sum := fun hk =>
      List.le_sum_of_mem (List.mem_map_of_mem (List.mem_of_getElem? hk))
    cases i with
    | zero =>
      obtain rfl : z = x := Option.some.inj hi
      cases j with
      | zero => rfl
      | succ j =>
        have hle := hrest (k := j) hj
        omega
    | succ i =>
      have hle := hrest (k := i) hi
      cases j with
      | zero =>
        obtain rfl : z = y := Option.some.inj hj
        omega
      | succ j => rw [ih (by omega) hi hj]

/-- **Two members of a modest group do not both fail.** -/
theorem Modest.unique {members : List Plan} (h : (group members).Modest K context) {n i j : Nat}
    {x y : Plan} (hi : members[i]? = some x) (hj : members[j]? = some y)
    (hx : (x.expects K context n).fails = true) (hy : (y.expects K context n).fails = true) :
    i = j := by
  rw [fails_expects, decide_eq_true_iff] at hx hy
  have hsum := h.failures
  rw [failures_group] at hsum
  exact eq_of_sum_map_le_one hsum hi hj hx hy

end Plan
end DescribedEffects
