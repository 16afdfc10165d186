import DescribedEffects.Proofs.Harness.Mismatch
import DescribedEffects.Proofs.Sorting
import Mathlib.Data.List.Forall2

/-!
# The entries of a test

A test is given a list of entries, and each of them is another way to write an expectation: the
object itself, a pair, or a mapping.  `Spells` says which effect, which answer and which failure
an entry is a spelling of, and `Valid` what is asked of these three, whichever way they are
written.

Three checks stand between an entry and the test: the shape of the entry, the failure, and the
effect down to the last member of the last group.  Together they let the valid entries pass and
no others (`coerce_of_spells`, `exists_coerce_iff`), and all that they complain of is an error of
the type of what was given (`isA_type_of_coerce`).  One of them makes a list of keys that it has
to sort first, and fails if there is no order; that is such an error as well.

The entries are read before the machine starts (`gather`).  So the first that is not valid is
all that is ever heard of the test, and a test without one begins by resuming its program: from
the transcript one can tell which of the two it was (`bad_entries_come_first`).
-/

namespace DescribedEffects

namespace ExpectationOf

/-! ## Spellings -/

/-- An entry is a spelling of an effect, an answer and a failure, in this order. -/
inductive Spells : Value → Value → Value → Value → Prop
  /-- An expectation already. -/
  | object (x : Expectation) :
    Spells (.expectation x) x.effect x.yields ((x.raises.map .exn).getD .null)
  | list (effect yields : Value) : Spells (.list [effect, yields]) effect yields .null
  | tuple (effect yields : Value) : Spells (.tuple [effect, yields]) effect yields .null
  /-- A mapping with the effect and no other keys; what it does not say is nothing. -/
  | mapping {entry effect : Value} {es : List (Value × Value)}
      (shows : entry = .record es ∨ entry = .view es)
      (keys : ∀ k ∈ es.map (·.1), k = .text "effect" ∨ k = .text "yields" ∨ k = .text "raises")
      (there : Value.find? (.text "effect") es = some effect) :
    Spells entry effect ((Value.find? (.text "yields") es).getD .null)
      ((Value.find? (.text "raises") es).getD .null)

/-- The failure of an expectation is nothing or an ordinary exception. -/
def IsFailure (v : Value) : Prop := v = .null ∨ ∃ e : Exn, v = .exn e ∧ e.isOrdinary = true

/-- An entry is valid: it is a spelling, its effect can be read, and its failure is one. -/
def Valid (entry : Value) : Prop :=
  ∃ effect yields raises, Spells entry effect yields raises ∧
    (∃ d, Descriptor.parse effect = .ok d) ∧ IsFailure raises

/-- Two entries are spellings of the same. -/
def Synonyms (entry entry' : Value) : Prop :=
  ∃ effect yields raises, Spells entry effect yields raises ∧ Spells entry' effect yields raises

/-- An entry is an ordinary value: it is no mapping that raises exceptions of its own, and if it
is an expectation already, then one that was made. -/
structure Written (entry : Value) : Prop where
  quiet : ∀ e, entry ≠ .faulty e
  made : ∀ x, entry = .expectation x → ∃ raises, make x.effect x.yields raises = .ok x

/-! ## The checks -/

/-- The failure is nothing or an ordinary exception, and it is taken as it is. -/
theorem failureOf_eq_ok_iff {v : Value} {f : Option Exn} :
    failureOf v = .ok f ↔
      v = (f.map Value.exn).getD .null ∧ ∀ e, f = some e → e.isOrdinary = true := by
  constructor
  · intro h
    unfold failureOf at h
    split at h
    · cases h
      exact ⟨rfl, nofun⟩
    · next e =>
      split at h
      · next ordinary =>
        cases h
        exact ⟨rfl, fun _ he => Option.some.inj he ▸ ordinary⟩
      · cases h
    · cases h
  · rintro ⟨rfl, ordinary⟩
    cases f with
    | none => rfl
    | some e => exact if_pos (ordinary e rfl)

theorem isFailure_iff {v : Value} : IsFailure v ↔ ∃ f, failureOf v = .ok f := by
  simp only [failureOf_eq_ok_iff]
  constructor
  · rintro (rfl | ⟨e, rfl, ordinary⟩)
    · exact ⟨none, rfl, nofun⟩
    · exact ⟨some e, rfl, fun _ he => Option.some.inj he ▸ ordinary⟩
  · rintro ⟨_ | e, rfl, ordinary⟩
    · exact .inl rfl
    · exact .inr ⟨e, rfl, ordinary e rfl⟩

/-- An expectation is made of an effect that can be read and a failure that is one. -/
theorem make_eq_ok_iff {effect yields raises : Value} {x : Expectation} :
    make effect yields raises = .ok x ↔ (∃ d, Descriptor.parse effect = .ok d) ∧
      ∃ f, failureOf raises = .ok f ∧ x = ⟨effect, yields, f⟩ := by
  unfold make
  cases Descriptor.parse effect with
  | error m => exact ⟨nofun, fun h => nomatch h.1⟩
  | ok d =>
    cases failureOf raises with
    | error fault => exact ⟨nofun, fun ⟨_, _, hf, _⟩ => nomatch hf⟩
    | ok f =>
      constructor
      · intro h
        exact ⟨⟨d, rfl⟩, f, rfl, (Except.ok.inj h).symm⟩
      · rintro ⟨-, f', hf, rfl⟩
        cases hf
        rfl

theorem exists_make_iff {effect yields raises : Value} :
    (∃ x, make effect yields raises = .ok x) ↔
      (∃ d, Descriptor.parse effect = .ok d) ∧ IsFailure raises := by
  rw [isFailure_iff]
  constructor
  · rintro ⟨x, hx⟩
    obtain ⟨hread, f, hf, -⟩ := make_eq_ok_iff.1 hx
    exact ⟨hread, f, hf⟩
  · rintro ⟨hread, f, hf⟩
    exact ⟨_, make_eq_ok_iff.2 ⟨hread, f, hf, rfl⟩⟩

/-! ## Mappings -/

/-- The keys that are allowed are these three texts and nothing that is equal to one. -/
theorem isAllowed_iff {k : Value} :
    isAllowed k = true ↔ k = .text "effect" ∨ k = .text "yields" ∨ k = .text "raises" := by
  have hsame (s : String) : Value.same (.text s) k = true ↔ k = .text s := by
    cases k with
    | text t =>
      show (s == t) = true ↔ _
      rw [beq_iff_eq, Value.text.injEq]
      exact eq_comm
    | _ => exact iff_of_false nofun nofun
  simp only [isAllowed, allowedKeys, List.any_cons, List.any_nil, Bool.or_false, Bool.or_eq_true,
    hsame]

theorem hasEffect_of_shows {entry : Value} {es : List (Value × Value)}
    (shows : entry = .record es ∨ entry = .view es) :
    hasEffect entry = .ok (Value.find? (.text "effect") es).isSome := by
  rcases shows with rfl | rfl <;> unfold hasEffect Value.atKey <;>
    cases hfind : Value.find? (.text "effect") es <;>
    simp [Value.unhashable?, Value.entries, hfind]

/-- A mapping with the effect and no other keys is an expectation of what it says. -/
theorem coerce_of_mapping {entry effect : Value} {es : List (Value × Value)}
    (shows : entry = .record es ∨ entry = .view es)
    (keys : ∀ k ∈ es.map (·.1), k = .text "effect" ∨ k = .text "yields" ∨ k = .text "raises")
    (there : Value.find? (.text "effect") es = some effect) :
    coerce entry = make effect ((Value.find? (.text "yields") es).getD .null)
      ((Value.find? (.text "raises") es).getD .null) := by
  have hentries : entry.entries = es := by rcases shows with rfl | rfl <;> rfl
  have hmapping : coerce entry = ofMapping entry := by rcases shows with rfl | rfl <;> rfl
  have hkeys : (es.map (·.1)).any (fun k => !isAllowed k) = false := by
    rw [List.any_eq_false]
    intro k hk
    simp [isAllowed_iff.2 (keys k hk)]
  rw [hmapping, ofMapping, hasEffect_of_shows shows, there, hentries, hkeys]
  simp [bind, Except.bind, there]

/-- Any other mapping is turned down for its keys, or because they cannot be sorted. -/
theorem coerce_of_bad_mapping {entry : Value} {es : List (Value × Value)}
    (shows : entry = .record es ∨ entry = .view es)
    (bad : Value.find? (.text "effect") es = none ∨ ∃ k ∈ es.map (·.1), isAllowed k = false) :
    ∃ fault, coerce entry = .error fault ∧
      ((∃ keys, fault = .badKeys keys) ∨ ∃ f : ValueFault, fault = .fault f ∧ f.IsUnordered) := by
  have hentries : entry.entries = es := by rcases shows with rfl | rfl <;> rfl
  have hmapping : coerce entry = ofMapping entry := by rcases shows with rfl | rfl <;> rfl
  have hbad : (!(Value.find? (.text "effect") es).isSome ||
      (es.map (·.1)).any (fun k => !isAllowed k)) = true := by
    rcases bad with hnone | ⟨k, hk, hallowed⟩
    · simp [hnone]
    · rw [Bool.or_eq_true, List.any_eq_true]
      exact .inr ⟨k, hk, by simp [hallowed]⟩
  rw [hmapping, ofMapping, hasEffect_of_shows shows, hentries]
  simp only [bind, Except.bind, hbad, if_true]
  cases hsorted : Value.sorted (es.map (·.1)) with
  | ok keys => exact ⟨_, rfl, .inl ⟨keys, rfl⟩⟩
  | error f => exact ⟨_, rfl, .inr ⟨f, rfl, Value.failsOnly_sorted _ f hsorted⟩⟩

/-! ## Entries -/

/-- **All spellings are made into the same expectation.** -/
theorem coerce_of_spells {entry effect yields raises : Value} (written : Written entry)
    (h : Spells entry effect yields raises) : coerce entry = make effect yields raises := by
  cases h with
  | object x =>
    obtain ⟨raises, hmade⟩ := written.made x rfl
    obtain ⟨hread, f, hf, hx⟩ := make_eq_ok_iff.1 hmade
    have hraises : x.raises = f := congrArg ExpectationOf.raises hx
    have hsame : raises = (x.raises.map .exn).getD .null :=
      hraises ▸ (failureOf_eq_ok_iff.1 hf).1
    rw [← hsame, hmade]
    rfl
  | list => rfl
  | tuple => rfl
  | mapping shows keys there => exact coerce_of_mapping shows keys there

/-- What makes a mapping no spelling. -/
theorem bad_of_not_spells {entry : Value} {es : List (Value × Value)}
    (shows : entry = .record es ∨ entry = .view es)
    (h : ∀ effect yields raises, ¬Spells entry effect yields raises) :
    Value.find? (.text "effect") es = none ∨ ∃ k ∈ es.map (·.1), isAllowed k = false := by
  by_contra hgood
  simp only [not_or, not_exists, not_and, Bool.not_eq_false] at hgood
  obtain ⟨hthere, hkeys⟩ := hgood
  obtain ⟨effect, heffect⟩ := Option.ne_none_iff_exists'.1 hthere
  exact h _ _ _ (.mapping shows (fun k hk => isAllowed_iff.1 (hkeys k hk)) heffect)

/-- A mapping that raises nothing of its own shows its entries. -/
theorem shows_of_isMapping {entry : Value} (h : entry.isMapping = true)
    (quiet : ∀ e, entry ≠ .faulty e) : ∃ es, entry = .record es ∨ entry = .view es := by
  cases entry with
  | record es => exact ⟨es, .inl rfl⟩
  | view es => exact ⟨es, .inr rfl⟩
  | faulty e => exact absurd rfl (quiet e)
  | _ => cases h

/-- An entry that is no spelling is turned down for its shape. -/
theorem coerce_of_not_spells {entry : Value} (written : Written entry)
    (h : ∀ effect yields raises, ¬Spells entry effect yields raises) :
    ∃ fault, coerce entry = .error fault ∧ ((∃ keys, fault = .badKeys keys) ∨
      (∃ f : ValueFault, fault = .fault f ∧ f.IsUnordered) ∨ ∃ found, fault = .badEntry found) := by
  by_cases hmapping : entry.isMapping = true
  · obtain ⟨es, shows⟩ := shows_of_isMapping hmapping written.quiet
    obtain ⟨fault, hfault, hcause⟩ := coerce_of_bad_mapping shows (bad_of_not_spells shows h)
    exact ⟨fault, hfault, hcause.imp_right .inl⟩
  · unfold coerce
    split
    · exact absurd (.object _) (h _ _ _)
    · exact absurd (.list _ _) (h _ _ _)
    · exact absurd (.tuple _ _) (h _ _ _)
    · rw [if_neg hmapping]
      exact ⟨_, rfl, .inr (.inr ⟨_, rfl⟩)⟩

/-- **An entry is read exactly if it is valid.** -/
theorem exists_coerce_iff {entry : Value} (written : Written entry) :
    (∃ x, coerce entry = .ok x) ↔ Valid entry := by
  constructor
  · rintro ⟨x, hx⟩
    by_contra hinvalid
    by_cases h : ∃ effect yields raises, Spells entry effect yields raises
    · obtain ⟨effect, yields, raises, hspells⟩ := h
      rw [coerce_of_spells written hspells] at hx
      exact hinvalid ⟨effect, yields, raises, hspells, exists_make_iff.1 ⟨x, hx⟩⟩
    · simp only [not_exists] at h
      obtain ⟨fault, hfault, -⟩ := coerce_of_not_spells written h
      rw [hx] at hfault
      cases hfault
  · rintro ⟨effect, yields, raises, hspells, hchecked⟩
    rw [coerce_of_spells written hspells]
    exact exists_make_iff.2 hchecked

/-- What is not made into an expectation is malformed or has a failure that is none. -/
theorem make_eq_error {effect yields raises : Value} {fault : EntryFault}
    (h : make effect yields raises = .error fault) :
    (∃ m, fault = .malformed m) ∨ ∃ found, fault = .badFailure found := by
  unfold make at h
  cases hread : Descriptor.parse effect with
  | error m =>
    rw [hread] at h
    cases h
    exact .inl ⟨m, rfl⟩
  | ok d =>
    rw [hread] at h
    cases hf : failureOf raises with
    | ok f => rw [hf] at h; cases h
    | error fault' =>
      rw [hf] at h
      cases h
      refine .inr ?_
      unfold failureOf at hf
      split at hf
      · cases hf
      · split at hf
        · cases hf
        · cases hf
          exact ⟨_, rfl⟩
      · cases hf
        exact ⟨_, rfl⟩

/-- **Whatever is wrong with an entry, the complaint is an error of its type.** -/
theorem isA_type_of_coerce {entry : Value} {fault : EntryFault} (written : Written entry)
    (h : coerce entry = .error fault) :
    ∃ body, fault.complaint = .make body ∧ body.kind.isA .type = true := by
  by_cases hspells : ∃ effect yields raises, Spells entry effect yields raises
  · obtain ⟨effect, yields, raises, hspells⟩ := hspells
    rw [coerce_of_spells written hspells] at h
    rcases make_eq_error h with ⟨m, rfl⟩ | ⟨found, rfl⟩
    · exact ⟨_, rfl, rfl⟩
    · exact ⟨_, rfl, rfl⟩
  · simp only [not_exists] at hspells
    obtain ⟨fault', hfault, hcause⟩ := coerce_of_not_spells written hspells
    obtain rfl := Except.error.inj (hfault.symm.trans h)
    rcases hcause with ⟨keys, rfl⟩ | ⟨f, rfl, o, l, r, rfl⟩ | ⟨found, rfl⟩
    · exact ⟨_, rfl, rfl⟩
    · exact ⟨_, rfl, rfl⟩
    · exact ⟨_, rfl, rfl⟩

/-- Synonyms are read alike. -/
theorem Synonyms.coerce_eq {entry entry' : Value} (h : Synonyms entry entry')
    (written : Written entry) (written' : Written entry') : coerce entry = coerce entry' := by
  obtain ⟨effect, yields, raises, hspells, hspells'⟩ := h
  rw [coerce_of_spells written hspells, coerce_of_spells written' hspells']

end ExpectationOf

namespace Harness

open ExpectationOf

variable {σ : Type} {H : Host σ} {matchArgs : Bool}

/-! ## Reading the entries -/

/-- An entry that is read is taken. -/
theorem gather_of_read {entry : Value} {x : Expectation} (h : coerce entry = .ok x)
    {rest : List Value} {host : σ} {taken : List Expectation} :
    gather H ⟨host, .items (entry :: rest), taken⟩ =
      .next ⟨host, .items rest, taken ++ [x]⟩ := by
  simp only [gather, readEntry, h]

/-- An entry that is not read is complained of. -/
theorem gather_of_fault {entry : Value} {fault : EntryFault} (h : coerce entry = .error fault)
    {rest : List Value} {host : σ} {taken : List Expectation} :
    gather H ⟨host, .items (entry :: rest), taken⟩ =
      .done ((H.shield "generator raised StopIteration" (H.complain fault.complaint host).1
        (H.complain fault.complaint host).2).map .error id) := by
  simp only [gather, readEntry, h]
  rfl

/-- Entries that are read alike are gathered alike. -/
theorem gather_of_alike {es es' : List Value}
    (h : List.Forall₂ (fun e e' => coerce e = coerce e') es es') (n : Nat) (host : σ)
    (taken : List Expectation) :
    Transition.runFor (gather H) n ⟨host, .items es, taken⟩ =
      Transition.runFor (gather H) n ⟨host, .items es', taken⟩ := by
  induction n generalizing es es' taken with
  | zero => rfl
  | succ n ih =>
    cases h with
    | nil => rfl
    | @cons e e' es es' first rest =>
      cases hcoerce : coerce e with
      | ok x =>
        rw [Transition.runFor_succ_of_next (gather_of_read hcoerce),
          Transition.runFor_succ_of_next (gather_of_read (first ▸ hcoerce))]
        exact ih rest _
      | error fault =>
        rw [Transition.runFor_succ_of_done (gather_of_fault hcoerce),
          Transition.runFor_succ_of_done (gather_of_fault (first ▸ hcoerce))]

/-- An error of the type of what was given does not mark the end of a computation. -/
theorem isExhausted_of_isA_type {body : ExnBody Value} (h : body.kind.isA .type = true) (id : Nat) :
    (⟨id, body⟩ : Exn).isExhausted = false := by
  show body.kind.isA .exhausted = false
  revert h
  generalize body.kind = kind
  cases kind with
  | condition c => cases c <;> decide
  | _ => decide

/-- **The first entry that is not read ends the reading.** -/
theorem gather_of_first {before after : List Value} {entry : Value} {fault : EntryFault}
    {body : ExnBody Value} (good : ∀ e ∈ before, ∃ x, coerce e = .ok x)
    (bad : coerce entry = .error fault) (complaint : fault.complaint = .make body)
    (type : body.kind.isA .type = true) {n : Nat} (enough : before.length < n) (host : σ)
    (taken : List Expectation) :
    Transition.runFor (gather H) n ⟨host, .items (before ++ entry :: after), taken⟩ =
      some (.error (H.raise body host).1, (H.raise body host).2) := by
  induction before generalizing n taken with
  | nil =>
    obtain ⟨n, rfl⟩ := Nat.exists_eq_succ_of_ne_zero (Nat.ne_of_gt enough)
    rw [List.nil_append, Transition.runFor_succ_of_done (gather_of_fault bad), complaint]
    have hpass : (H.raise body host).1.isExhausted = false := isExhausted_of_isA_type type _
    simp only [Host.complain, Host.shield, hpass, Bool.false_eq_true, if_false, Prod.map, id_eq]
  | cons e before ih =>
    obtain ⟨n, rfl⟩ := Nat.exists_eq_succ_of_ne_zero (Nat.ne_of_gt (Nat.zero_lt_of_lt enough))
    obtain ⟨x, hx⟩ := good e (List.mem_cons_self ..)
    rw [List.cons_append, Transition.runFor_succ_of_next (gather_of_read hx)]
    exact ih (fun e he => good e (List.mem_cons_of_mem _ he)) (Nat.lt_of_succ_lt_succ enough) _

/-- Entries that can be read one by one can be read together. -/
theorem exists_mapM_coerce {es : List Value} (h : ∀ e ∈ es, ∃ x, coerce e = .ok x) :
    ∃ xs, es.mapM coerce = .ok xs := by
  induction es with
  | nil => exact ⟨[], rfl⟩
  | cons e es ih =>
    obtain ⟨x, hx⟩ := h e (List.mem_cons_self ..)
    obtain ⟨xs, hxs⟩ := ih fun e he => h e (List.mem_cons_of_mem _ he)
    refine ⟨x :: xs, ?_⟩
    rw [List.mapM_cons, hx, hxs]
    rfl

/-! ## Whole tests -/

/-- A test of entries that are all read begins by resuming its program. -/
theorem resumed_of_runTest {entries : Value} {es : List Value} (items : entries.items = .ok es)
    (good : ∀ e ∈ es, ∃ x, coerce e = .ok x) {program fuel : Nat} {strict : Bool} {host : σ}
    {r : Ending (σ × List Act)}
    (h : runTest H.recorded fuel entries (.computation program) strict matchArgs (host, []) =
      some r) :
    .resumed program (.send .null) (H.resume program (.send .null) host).1 ∈ r.host.2 := by
  obtain ⟨xs, hxs⟩ := exists_mapM_coerce good
  obtain ⟨n, r₀, hr₀, rfl⟩ := (exists_runTest_iff (gathers_items (host, []) items hxs)).1 ⟨fuel, h⟩
  have hjudge : (judge H.recorded strict r₀).host.2 = r₀.host.2 := by
    unfold judge
    split
    · rfl
    · split <;> rfl
  rw [hjudge]
  exact (resumed_next hr₀).subset (List.mem_singleton_self _)

/-- A test stops at the first entry that is not read. -/
theorem runTest_of_first {entries : Value} {before after : List Value} {entry : Value}
    (items : entries.items = .ok (before ++ entry :: after)) {fault : EntryFault}
    {body : ExnBody Value} (good : ∀ e ∈ before, ∃ x, coerce e = .ok x)
    (bad : coerce entry = .error fault) (complaint : fault.complaint = .make body)
    (type : body.kind.isA .type = true) (program : Nat) (strict : Bool) {fuel : Nat}
    (enough : before.length < fuel) (host : σ) :
    runTest H.recorded fuel entries (.computation program) strict matchArgs (host, []) =
      some (refuse (H.raise body host).1 ((H.raise body host).2, [])) := by
  simp only [runTest, sourceOf_of_items items,
    gather_of_first good bad complaint type enough (host, []) []]
  rfl

/-- Tests of synonyms are one test. -/
theorem runTest_of_synonyms {entries entries' : Value} {es es' : List Value}
    (items : entries.items = .ok es) (items' : entries'.items = .ok es')
    (written : ∀ e ∈ es, Written e) (written' : ∀ e ∈ es', Written e)
    (synonyms : List.Forall₂ Synonyms es es') (program fuel : Nat) (strict : Bool) (host : σ) :
    runTest H fuel entries (.computation program) strict matchArgs host =
      runTest H fuel entries' (.computation program) strict matchArgs host := by
  have halike : List.Forall₂ (fun e e' => coerce e = coerce e') es es' := by
    clear items items'
    induction synonyms with
    | nil => exact .nil
    | @cons e e' es es' first _ ih =>
      refine .cons ?_ (ih (fun e he => written e (List.mem_cons_of_mem _ he))
        fun e he => written' e (List.mem_cons_of_mem _ he))
      exact first.coerce_eq (written e (List.mem_cons_self ..)) (written' e' (List.mem_cons_self ..))
  simp only [runTest, sourceOf_of_items items, sourceOf_of_items items',
    gather_of_alike halike fuel host []]

/-- The act runs a program: it resumes a computation or calls a function. -/
def runs : Act → Bool
  | .resumed .. | .called .. => true
  | _ => false

/-- **Bad entries come before everything else.**  A test is given the entries of a finite value.

* It fails with an error of the type of what was given, and without having resumed a computation
  or called a function, exactly if one of the entries is not valid.
* The error is what the first entry that is not valid is turned down for, whatever comes after
  it, and nothing is asked of the host but a number for it.
* If all entries are valid they can be written in any other way: the test is the same, step by
  step and to the last act. -/
theorem bad_entries_come_first (H : Host σ) (entries : Value) (es : List Value)
    (items : entries.items = .ok es) (written : ∀ e ∈ es, Written e) (program : Nat)
    (strict matchArgs : Bool) (host : σ) :
    ((∃ fuel r e,
        runTest H.recorded fuel entries (.computation program) strict matchArgs (host, []) =
          some r ∧
        r.outcome = .error e ∧ e.kind.isA .type = true ∧ ∀ a ∈ r.host.2, runs a = false) ↔
      ∃ entry ∈ es, ¬Valid entry) ∧
    (∀ before entry after, es = before ++ entry :: after → (∀ e ∈ before, Valid e) →
      ¬Valid entry → ∃ fault body, coerce entry = .error fault ∧ fault.complaint = .make body ∧
        body.kind.isA .type = true ∧ ∀ fuel, before.length < fuel →
          runTest H.recorded fuel entries (.computation program) strict matchArgs (host, []) =
            some (refuse (H.raise body host).1 ((H.raise body host).2, []))) ∧
    ((∀ e ∈ es, Valid e) → ∀ entries' es', entries'.items = .ok es' → (∀ e ∈ es', Written e) →
      List.Forall₂ Synonyms es es' → ∀ fuel,
        runTest H.recorded fuel entries' (.computation program) strict matchArgs (host, []) =
          runTest H.recorded fuel entries (.computation program) strict matchArgs (host, [])) := by
  have hfirst : ∀ before entry after, es = before ++ entry :: after → (∀ e ∈ before, Valid e) →
      ¬Valid entry → ∃ fault body, coerce entry = .error fault ∧ fault.complaint = .make body ∧
        body.kind.isA .type = true ∧ ∀ fuel, before.length < fuel →
          runTest H.recorded fuel entries (.computation program) strict matchArgs (host, []) =
            some (refuse (H.raise body host).1 ((H.raise body host).2, [])) := by
    rintro before entry after rfl hbefore hentry
    have hwritten := written entry (by simp)
    have hgood : ∀ e ∈ before, ∃ x, coerce e = .ok x := fun e he =>
      (exists_coerce_iff (written e (List.mem_append_left _ he))).2 (hbefore e he)
    cases hcoerce : coerce entry with
    | ok x => exact absurd ((exists_coerce_iff hwritten).1 ⟨x, hcoerce⟩) hentry
    | error fault =>
      obtain ⟨body, hcomplaint, htype⟩ := isA_type_of_coerce hwritten hcoerce
      exact ⟨fault, body, rfl, hcomplaint, htype, fun fuel enough =>
        runTest_of_first items hgood hcoerce hcomplaint htype program strict enough host⟩
  refine ⟨⟨?_, ?_⟩, hfirst, ?_⟩
  · rintro ⟨fuel, r, e, hr, -, -, hquiet⟩
    by_contra hvalid
    have hgood : ∀ e ∈ es, ∃ x, coerce e = .ok x := by
      intro e he
      refine (exists_coerce_iff (written e he)).2 ?_
      by_contra hinvalid
      exact hvalid ⟨e, he, hinvalid⟩
    cases hquiet _ (resumed_of_runTest items hgood hr)
  · rintro ⟨entry, hentry, hinvalid⟩
    classical
    have hsome : (es.find? fun e => decide (¬Valid e)).isSome :=
      List.find?_isSome.2 ⟨entry, hentry, decide_eq_true hinvalid⟩
    obtain ⟨first, hfound⟩ := Option.isSome_iff_exists.1 hsome
    obtain ⟨hbad, before, after, hes, hbefore⟩ := List.find?_eq_some_iff_append.1 hfound
    obtain ⟨-, body, -, -, htype, hrun⟩ := hfirst before first after hes
      (fun e he => by simpa using hbefore e he) (of_decide_eq_true hbad)
    exact ⟨_, refuse _ _, _, hrun _ (Nat.lt_succ_self _), rfl, htype, List.forall_mem_nil _⟩
  · intro _ entries' es' items' written' synonyms fuel
    exact (runTest_of_synonyms items items' written written' synonyms program fuel strict _).symm

/-- An expectation, and a mapping that lacks the effect and has keys without an order. -/
def mixedEntries : List Value :=
  [.expectation ⟨.list [.text "a"], .int 1, none⟩,
    .record [(.text "yields", .int 2), (.int 3, .null)]]

/-- The keys of the mapping are to be listed in order, so it is their order that the test
complains of. -/
theorem unordered_keys_come_first :
    (∀ e ∈ mixedEntries, Written e) ∧
      ∃ fuel r e, runTest (guardedHost false).recorded fuel (.list mixedEntries) (.computation 0)
          true true (guardedStart, []) = some r ∧
        r.outcome = .error e ∧ e.body = (ValueFault.unordered "<" "int" "str").body ∧
        r.host.2 = [] := by
  have hwritten : ∀ e ∈ mixedEntries, Written e := by
    intro e he
    rcases List.mem_cons.1 he with rfl | he
    · exact ⟨nofun, fun x hx => by cases hx; exact ⟨.null, rfl⟩⟩
    · rw [List.mem_singleton.1 he]
      exact ⟨nofun, nofun⟩
  obtain ⟨-, hfirst, -⟩ := bad_entries_come_first (guardedHost false) (.list mixedEntries)
    mixedEntries rfl hwritten 0 true true guardedStart
  have hgood : ∀ e ∈ [Value.expectation ⟨.list [.text "a"], .int 1, none⟩], Valid e := by
    intro e he
    rw [List.mem_singleton.1 he]
    exact ⟨_, _, _, .object _, ⟨_, rfl⟩, .inl rfl⟩
  have hbad : ¬Valid (.record [(.text "yields", .int 2), (.int 3, .null)]) := by
    rintro ⟨effect, yields, raises, hspells, -⟩
    cases hspells with
    | mapping shows _ there =>
      rcases shows with shows | shows
      · cases shows
        cases there
      · cases shows
  obtain ⟨fault, body, hcoerce, hcomplaint, -, hrun⟩ := hfirst _ _ [] rfl hgood hbad
  cases hcoerce
  cases hcomplaint
  exact ⟨hwritten, 2, _, _, hrun 2 (by decide), rfl, rfl, rfl⟩

end Harness
end DescribedEffects
