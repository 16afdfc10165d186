import DescribedEffects.Transition
import Mathlib.Data.List.Chain

/-!
# What a run shows

A machine shows something at each of its states: the effects it answers, the
completions it hears of, nothing at all.  A *trail* is a stretch of a run with
everything shown on the way, in order, the last state excluded; `Ends` is a whole run,
from a state to its result, with everything it shows.

Machines are deterministic.  So a run has one result and shows one thing
(`Ends.unique`), and every trail from the start of a run is a beginning of that run
(`Trail.rest`).  The relation to bounded runs is `exists_ends_iff`: there is a result for
some number of steps exactly when the run ends with it.

## Catching up

`Ends.of_matching` is the induction that every simulation of this library uses.  Two
machines are compared state by state; a step of the first is matched by finitely many
steps of the second that show as much.  Then a run of the first that ends is a run of
the second that ends, with a matching result.
-/

namespace DescribedEffects
namespace Transition

variable {S R T Q L : Type} {step : S → Transition S R} {shows : S → List L}

/-- What a transition leads to, a state or a result, has a property. -/
def Leads (P : S → Prop) (Z : R → Prop) : Transition S R → Prop
  | .next s => P s
  | .done r => Z r

theorem Leads.imp {P P' : S → Prop} {Z Z' : R → Prop} (hP : ∀ s, P s → P' s)
    (hZ : ∀ r, Z r → Z' r) {t : Transition S R} (h : t.Leads P Z) : t.Leads P' Z' := by
  cases t with
  | next s => exact hP s h
  | done r => exact hZ r h

theorem leads_trivial (t : Transition S R) : t.Leads (fun _ => True) fun _ => True := by
  cases t <;> trivial

/-- A stretch of a run, with what its states show, the last one excluded. -/
inductive Trail (step : S → Transition S R) (shows : S → List L) : S → List L → S → Prop
  | refl (s : S) : Trail step shows s [] s
  | head {s t u : S} {ls : List L} (first : step s = .next t)
      (rest : Trail step shows t ls u) : Trail step shows s (shows s ++ ls) u

/-- A run to its result, with what its states show. -/
inductive Ends (step : S → Transition S R) (shows : S → List L) : S → List L → R → Prop
  | last {s : S} {r : R} (final : step s = .done r) : Ends step shows s (shows s) r
  | more {s t : S} {ls : List L} {r : R} (first : step s = .next t)
      (rest : Ends step shows t ls r) : Ends step shows s (shows s ++ ls) r

/-! ## Trails -/

theorem Trail.single {s t : S} (h : step s = .next t) : Trail step shows s (shows s) t := by
  have hs : Trail step shows s (shows s ++ []) t := .head h (.refl t)
  rwa [List.append_nil] at hs

theorem Trail.trans {s t u : S} {ls ms : List L} (h : Trail step shows s ls t)
    (k : Trail step shows t ms u) : Trail step shows s (ls ++ ms) u := by
  induction h with
  | refl s => exact k
  | head first _ ih =>
    rw [List.append_assoc]
    exact .head first (ih k)

theorem Trail.tail {s t u : S} {ls : List L} (h : Trail step shows s ls t)
    (last : step t = .next u) : Trail step shows s (ls ++ shows t) u :=
  h.trans (.single last)

theorem Trail.reaches {s t : S} {ls : List L} (h : Trail step shows s ls t) :
    Reaches step s t := by
  induction h with
  | refl s => exact .refl s
  | head first _ ih => exact .head first ih

/-- Whatever the states show, a reached state is reached along a trail. -/
theorem Reaches.exists_trail (shows : S → List L) {s t : S} (h : Reaches step s t) :
    ∃ ls, Trail step shows s ls t := by
  induction h with
  | refl s => exact ⟨[], .refl s⟩
  | head first _ ih =>
    obtain ⟨ls, hls⟩ := ih
    exact ⟨_, .head first hls⟩

/-- A reached state is the first one or is reached from the second. -/
theorem Reaches.cases_of_next {s t u : S} (h : Reaches step s u) (hs : step s = .next t) :
    u = s ∨ Reaches step t u := by
  cases h with
  | refl => exact .inl rfl
  | head first rest =>
    rw [hs] at first
    cases first
    exact .inr rest

/-- Nothing is reached from a last state but itself. -/
theorem Reaches.eq_of_done {s u : S} {r : R} (h : Reaches step s u) (hs : step s = .done r) :
    u = s := by
  cases h with
  | refl => rfl
  | head first rest => rw [hs] at first; cases first

/-- A trail goes nowhere or begins with the first step. -/
theorem Trail.cases_of_next {s t u : S} {ls : List L} (h : Trail step shows s ls u)
    (hs : step s = .next t) :
    u = s ∧ ls = [] ∨ ∃ ms, ls = shows s ++ ms ∧ Trail step shows t ms u := by
  cases h with
  | refl => exact .inl ⟨rfl, rfl⟩
  | head first rest =>
    rw [hs] at first
    cases first
    exact .inr ⟨_, rfl, rest⟩

/-- What holds at the start and is kept by every step holds at the end of a trail. -/
theorem Trail.invariant {P : S → Prop} (keep : ∀ s t, P s → step s = .next t → P t)
    {s t : S} {ls : List L} (h : Trail step shows s ls t) (hs : P s) : P t :=
  h.reaches.invariant keep hs

/-! ## Whole runs -/

/-- A run that begins with a trail. -/
theorem Trail.ends {s t : S} {ls ms : List L} {r : R} (h : Trail step shows s ls t)
    (k : Ends step shows t ms r) : Ends step shows s (ls ++ ms) r := by
  induction h with
  | refl s => exact k
  | head first _ ih =>
    rw [List.append_assoc]
    exact .more first (ih k)

/-- **A trail from the start of a run is a beginning of it.** -/
theorem Trail.rest {s t : S} {ls ns : List L} {r : R} (h : Trail step shows s ls t)
    (k : Ends step shows s ns r) : ∃ ms, ns = ls ++ ms ∧ Ends step shows t ms r := by
  induction h generalizing ns with
  | refl s => exact ⟨ns, rfl, k⟩
  | @head s s' t ls first rest ih =>
    cases k with
    | last final => rw [first] at final; cases final
    | @more _ s'' ks _ first' rest' =>
      have hs : s'' = s' := Transition.next.inj (first'.symm.trans first)
      subst hs
      obtain ⟨ms, hk, ht⟩ := ih rest'
      exact ⟨ms, by rw [hk, List.append_assoc], ht⟩

/-- A run has one result and shows one thing. -/
theorem Ends.unique {s : S} {ls ms : List L} {r q : R} (h : Ends step shows s ls r)
    (k : Ends step shows s ms q) : ls = ms ∧ r = q := by
  induction h generalizing ms with
  | last final =>
    cases k with
    | last final' => exact ⟨rfl, Transition.done.inj (final.symm.trans final')⟩
    | more first' _ => rw [final] at first'; cases first'
  | more first _ ih =>
    cases k with
    | last final' => rw [first] at final'; cases final'
    | more first' rest' =>
      rw [first] at first'
      cases first'
      obtain ⟨rfl, rfl⟩ := ih rest'
      exact ⟨rfl, rfl⟩

/-- A run shows whatever is shown on the way. -/
theorem Ends.mem_of_reaches {s u : S} {ls : List L} {r : R} (h : Ends step shows s ls r)
    (hu : Reaches step s u) {l : L} (hl : l ∈ shows u) : l ∈ ls := by
  obtain ⟨ms, hms⟩ := hu.exists_trail shows
  obtain ⟨ns, rfl, hns⟩ := hms.rest h
  refine List.mem_append_right _ ?_
  cases hns with
  | last => exact hl
  | more => exact List.mem_append_left _ hl

/-- A run comes to a last state, along a trail. -/
theorem Ends.exists_trail {s : S} {ls : List L} {r : R} (h : Ends step shows s ls r) :
    ∃ t ms, Trail step shows s ms t ∧ step t = .done r ∧ ls = ms ++ shows t := by
  induction h with
  | @last s r final => exact ⟨s, [], .refl s, final, rfl⟩
  | more first _ ih =>
    obtain ⟨t, ms, ht, hr, hl⟩ := ih
    exact ⟨t, _, .head first ht, hr, by rw [hl, List.append_assoc]⟩

/-- A machine has a result for some number of steps exactly when its run ends with
it. -/
theorem exists_ends_iff (shows : S → List L) {s : S} {r : R} :
    (∃ n, runFor step n s = some r) ↔ ∃ ls, Ends step shows s ls r := by
  rw [exists_runFor_iff]
  constructor
  · rintro ⟨t, h, hr⟩
    obtain ⟨ls, hls⟩ := h.exists_trail shows
    exact ⟨_, hls.ends (.last hr)⟩
  · rintro ⟨ls, h⟩
    obtain ⟨t, ms, ht, hr, -⟩ := h.exists_trail
    exact ⟨t, ht.reaches, hr⟩

/-- Runs a machine for at most the given number of steps, with everything it shows. -/
def watchFor (step : S → Transition S R) (shows : S → List L) : Nat → S → Option (List L × R)
  | 0, _ => none
  | n + 1, s =>
    match step s with
    | .next t => (watchFor step shows n t).map (Prod.map (shows s ++ ·) id)
    | .done r => some (shows s, r)

/-- **Watching a machine for some number of steps shows its whole run**, if it is a run that
comes to an end. -/
theorem exists_watchFor_iff {s : S} {ls : List L} {r : R} :
    (∃ n, watchFor step shows n s = some (ls, r)) ↔ Ends step shows s ls r := by
  constructor
  · rintro ⟨n, h⟩
    induction n generalizing s ls with
    | zero => cases h
    | succ n ih =>
      unfold watchFor at h
      split at h
      · next t first =>
        obtain ⟨⟨ms, q⟩, hms, heq⟩ := Option.map_eq_some_iff.1 h
        cases heq
        exact .more first (ih hms)
      · next q final =>
        cases h
        exact .last final
  · intro h
    induction h with
    | @last s r final => exact ⟨1, by simp only [watchFor, final]⟩
    | @more s t ms r first _ ih =>
      obtain ⟨n, hn⟩ := ih
      exact ⟨n + 1, by simp only [watchFor, first, hn]; rfl⟩

/-- Results that are found with different numbers of steps are the same. -/
theorem runFor_unique {m n : Nat} {s : S} {r q : R} (h : runFor step m s = some r)
    (k : runFor step n s = some q) : r = q := by
  have hr := runFor_mono (Nat.le_max_left m n) h
  have hq := runFor_mono (Nat.le_max_right m n) k
  rw [hr] at hq
  exact Option.some.inj hq

/-- A run has the results of the states it comes to. -/
theorem exists_runFor_iff_of_reaches {s t : S} (h : Reaches step s t) {r : R} :
    (∃ n, runFor step n s = some r) ↔ ∃ n, runFor step n t = some r := by
  induction h with
  | refl s => exact Iff.rfl
  | @head s t u first _ ih =>
    rw [← ih]
    constructor
    · rintro ⟨n, hn⟩
      cases n with
      | zero => cases hn
      | succ n => exact ⟨n, by rwa [runFor_succ_of_next first] at hn⟩
    · rintro ⟨n, hn⟩
      exact ⟨n + 1, by rwa [runFor_succ_of_next first]⟩

/-- A trail shows part of what it shows. -/
theorem Trail.filter (p : L → Bool) {s t : S} {ls : List L} (h : Trail step shows s ls t) :
    Trail step (fun s => (shows s).filter p) s (ls.filter p) t := by
  induction h with
  | refl s => exact .refl s
  | head first _ ih =>
    rw [List.filter_append]
    exact .head first ih

/-- A run shows part of what it shows. -/
theorem Ends.filter (p : L → Bool) {s : S} {ls : List L} {r : R} (h : Ends step shows s ls r) :
    Ends step (fun s => (shows s).filter p) s (ls.filter p) r := by
  induction h with
  | last final => exact .last final
  | more first _ ih =>
    rw [List.filter_append]
    exact .more first ih

/-- A run that shows part of something shows all of it. -/
theorem Ends.of_filter {p : L → Bool} {s : S} {ls : List L} {r : R}
    (h : Ends step (fun s => (shows s).filter p) s ls r) :
    ∃ ms, Ends step shows s ms r ∧ ms.filter p = ls := by
  induction h with
  | last final => exact ⟨_, .last final, rfl⟩
  | more first _ ih =>
    obtain ⟨ms, hms, hfilter⟩ := ih
    exact ⟨_, .more first hms, by rw [List.filter_append, hfilter]⟩

/-- What holds of a state if it holds of all later ones holds of a state from which the run
comes to an end. -/
theorem Ends.later_induction {P : S → Prop}
    (keep : ∀ s, (∀ t u, step s = .next t → Reaches step t u → P u) → P s) {s : S} {ls : List L}
    {r : R} (h : Ends step shows s ls r) : P s := by
  suffices hall : ∀ u, Reaches step s u → P u from hall s (.refl s)
  induction h with
  | @last s r final =>
    intro u hu
    obtain rfl := hu.eq_of_done final
    exact keep u fun t v ht _ => by rw [final] at ht; cases ht
  | @more s t ls r first _ ih =>
    intro u hu
    rcases hu.cases_of_next first with rfl | hu
    · refine keep u fun t' v ht hv => ?_
      obtain rfl : t' = t := Transition.next.inj (ht.symm.trans first)
      exact ih v hv
    · exact ih u hu

/-- A machine whose steps are the images of another one's steps, wherever that one can come
to, ends with the image of its result. -/
theorem runFor_map_of_kept {P : S → Prop} {f : S → T} {g : R → Q}
    {step' : T → Transition T Q}
    (keep : ∀ s t, P s → step s = .next t → P t)
    (h : ∀ s, P s → step' (f s) = (step s).map f g) (n : Nat) {s : S} (hs : P s) :
    runFor step' n (f s) = (runFor step n s).map g := by
  induction n generalizing s with
  | zero => rfl
  | succ n ih =>
    unfold runFor
    rw [h s hs]
    cases hstep : step s with
    | next t => exact ih (keep s t hs hstep)
    | done r => rfl

/-! ## Chains -/

/-- The invariant is told, of a state, what was shown last on the way to it.  What the state
shows itself, at most one thing, follows that; and what was shown last on the way to a result
accounts for it. -/
def Linked (step : S → Transition S R) (shows : S → List L) (I : Option L → S → Prop)
    (F : L → L → Prop) (Z : L → R → Prop) : Prop :=
  ∀ last s, I last s →
    shows s = [] ∧ (step s).Leads (I last) (fun r => ∃ k, last = some k ∧ Z k r) ∨
      ∃ l, shows s = [l] ∧ (∀ k ∈ last, F k l) ∧ (step s).Leads (I (some l)) (Z l)

/-- **What a trail shows is a chain.** -/
theorem Trail.chain {I : Option L → S → Prop} {F : L → L → Prop} {Z : L → R → Prop}
    (linked : Linked step shows I F Z) {s t : S} {ls : List L} (h : Trail step shows s ls t)
    {last : Option L} (hs : I last s) :
    (last.toList ++ ls).IsChain F ∧ I (last.toList ++ ls).getLast? t := by
  induction h generalizing last with
  | refl s =>
    cases last with
    | none => exact ⟨.nil, hs⟩
    | some k => exact ⟨.singleton k, hs⟩
  | head first _ ih =>
    have hlinked := linked last _ hs
    rw [first] at hlinked
    rcases hlinked with ⟨hshows, ht⟩ | ⟨l, hshows, hfollows, ht⟩
    · rw [hshows, List.nil_append]
      exact ih ht
    · rw [hshows]
      have hrest := ih ht
      cases last with
      | none => exact hrest
      | some k =>
        refine ⟨List.isChain_cons_cons.2 ⟨hfollows k rfl, hrest.1⟩, ?_⟩
        exact (congrArg (I · _) List.getLast?_cons_cons).mpr hrest.2

/-- **What a run shows is a chain**, and its last link accounts for the result. -/
theorem Ends.chain {I : Option L → S → Prop} {F : L → L → Prop} {Z : L → R → Prop}
    (linked : Linked step shows I F Z) {s : S} {ls : List L} {r : R} (h : Ends step shows s ls r)
    {last : Option L} (hs : I last s) :
    (last.toList ++ ls).IsChain F ∧ ∃ k, (last.toList ++ ls).getLast? = some k ∧ Z k r := by
  obtain ⟨t, ms, htrail, final, rfl⟩ := h.exists_trail
  obtain ⟨hchain, ht⟩ := htrail.chain linked hs
  rw [← List.append_assoc]
  have hlinked := linked _ t ht
  rw [final] at hlinked
  rcases hlinked with ⟨hshows, k, hlast, hk⟩ | ⟨l, hshows, hfollows, hl⟩
  · rw [hshows, List.append_nil]
    exact ⟨hchain, k, hlast, hk⟩
  · rw [hshows]
    refine ⟨List.isChain_append.2 ⟨hchain, .singleton l, fun k hk l' hl' => ?_⟩, l,
      List.getLast?_concat, hl⟩
    obtain rfl := Option.some.inj hl'
    exact hfollows k hk

/-! ## The same steps -/

/-- A machine that makes the steps of another one wherever that one can come to comes to the
same states. -/
theorem reaches_congr {step' : S → Transition S R} {s : S}
    (h : ∀ t, Reaches step s t → step' t = step t) {t : S} :
    Reaches step' s t ↔ Reaches step s t := by
  constructor
  · intro ht
    exact ht.invariant (P := Reaches step s)
      (fun u v hu hv => hu.tail ((h u hu).symm.trans hv)) (.refl s)
  · intro ht
    have hboth : Reaches step s t ∧ Reaches step' s t :=
      ht.invariant (P := fun u => Reaches step s u ∧ Reaches step' s u)
        (fun u v hu hv => ⟨hu.1.tail hv, hu.2.tail ((h u hu.1).trans hv)⟩) ⟨.refl s, .refl s⟩
    exact hboth.2

/-- Such a machine has the same results. -/
theorem runFor_congr {step' : S → Transition S R} {s : S}
    (h : ∀ t, Reaches step s t → step' t = step t) (n : Nat) :
    runFor step' n s = runFor step n s := by
  have hmap : runFor step' n s = (runFor step n s).map id :=
    runFor_map_of_kept (P := Reaches step s) (f := id) (g := id)
      (fun _ _ ht hnext => ht.tail hnext)
      (fun t ht => by rw [id, h t ht]; cases step t <;> rfl) n (.refl s)
  rw [hmap, Option.map_id, id]

/-! ## Catching up -/

/-- **Runs of matching machines.**  Let every step of the first machine from a matched
state be matched by a trail of the second that shows as much, and every ending by an
ending.  Then the second ends whenever the first does. -/
theorem Ends.of_matching {step' : T → Transition T Q} {shows' : T → List L}
    {M : S → T → Prop} {N : R → Q → Prop}
    (go : ∀ s t u, M s t → step s = .next u → ∃ v, Trail step' shows' t (shows s) v ∧ M u v)
    (stop : ∀ s t r, M s t → step s = .done r → ∃ q, Ends step' shows' t (shows s) q ∧ N r q)
    {s : S} {t : T} {ls : List L} {r : R} (h : Ends step shows s ls r) (hst : M s t) :
    ∃ q, Ends step' shows' t ls q ∧ N r q := by
  induction h generalizing t with
  | last final => exact stop _ _ _ hst final
  | more first _ ih =>
    obtain ⟨v, hv, huv⟩ := go _ _ _ hst first
    obtain ⟨q, hq, hrq⟩ := ih huv
    exact ⟨q, hv.ends hq, hrq⟩

end Transition
end DescribedEffects
