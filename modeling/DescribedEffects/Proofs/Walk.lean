import DescribedEffects.Context

/-!
# Walks into a context

`Context.lookup` walks along a path and stops at the first segment that leads nowhere.  What it
does is said here without an order of evaluation.  A `Walk` leads from one value to another along
a path: every value that it leaves is a mapping and holds the next one under the segment.  A
segment is `Blocked` at a value that is no mapping, or at a mapping that refuses it; and a refusal
counts as a missing key whenever it is an exception of that kind, whoever made it, while every
other refusal is passed on as it is.

So a path is found exactly if there is a walk along it, and otherwise there is one last value that
a walk leads to and at which the next segment is blocked (`lookup_follows_path`).  The exception
tells of the whole path, however far the walk came.  This is where the composition of walks has to
be said with care: the rest of a path, walked by itself, stops at the same segment for the same
reason (`lookup_append`), but its exception tells of the rest alone.
-/

namespace DescribedEffects

/-- What is raised when a mapping refuses a key. -/
def Refusal.complaint : Refusal → Complaint
  | .fault f => .make f.body
  | .raised e => .pass e

/-- The kind of the exception that is raised. -/
def Complaint.kind : Complaint → ExnKind
  | .make body => body.kind
  | .pass e => e.kind

namespace Context

/-- A walk along a path, from a value to the value that is reached. -/
inductive Walk : Value → List Value → Value → Prop
  | here (c : Value) : Walk c [] c
  | onward {c s w v : Value} {rest : List Value} (mapping : c.isMapping = true)
      (holds : Value.atKey s c = .ok w) (walk : Walk w rest v) : Walk c (s :: rest) v

/-- A segment leads nowhere from a value, and this is what is raised about it on a walk along the
path. -/
inductive Blocked (given : Value) (path : List Value) (w s : Value) : Complaint → Prop
  | nonMapping (plain : w.isMapping = false) : Blocked given path w s
      (.make (.notFound given path s (.text ("below a non-mapping " ++ w.typeName))))
  | missing {r : Refusal} (mapping : w.isMapping = true) (refused : Value.atKey s w = .error r)
      (key : r.complaint.kind.isA .key = true) : Blocked given path w s
      (.make (.notFound given path s (.text "missing")))
  | foreign {r : Refusal} (mapping : w.isMapping = true) (refused : Value.atKey s w = .error r)
      (other : r.complaint.kind.isA .key = false) : Blocked given path w s r.complaint

/-- What comes of asking for the value at a path: the value, or what is raised. -/
def seek (given c : Value) (path : List Value) : Except Complaint Value :=
  (lookup c path).mapError fun f => f.complaint given path

variable {c given s v w : Value} {path p q before after : List Value}

/-! ## Walks -/

theorem Walk.append (h : Walk c p v) (k : Walk v q w) : Walk c (p ++ q) w := by
  induction h with
  | here c => exact k
  | onward mapping holds _ ih => exact .onward mapping holds (ih k)

/-- A walk that goes on from where another one leads. -/
theorem Walk.rest (h : Walk c p v) (k : Walk c (p ++ q) w) : Walk v q w := by
  induction h with
  | here c => exact k
  | onward mapping holds _ ih =>
    cases k with
    | onward mapping' holds' walk' =>
      rw [holds] at holds'
      cases holds'
      exact ih walk'

theorem walk_append_iff (h : Walk c p v) : Walk c (p ++ q) w ↔ Walk v q w :=
  ⟨h.rest, h.append⟩

/-! ## One step -/

/-- A step is made exactly if the value is a mapping that holds the next one. -/
theorem enter_eq_ok_iff :
    enter c s = .ok w ↔ c.isMapping = true ∧ Value.atKey s c = .ok w := by
  unfold enter
  cases hc : c.isMapping with
  | false => simp
  | true =>
    rcases hk : Value.atKey s c with (f | e) | v
    · cases f <;> simp
    · by_cases he : e.kind.isA .key = true <;> simp [he]
    · simp

/-- A mapping refuses a key because it raises, because it lacks the key, or because it is no key
at all. -/
theorem atKey_error_cases {r : Refusal} (h : Value.atKey s w = .error r) :
    (∃ e, r = .raised e) ∨ r = .fault (.missingKey s) ∨ ∃ t, r = .fault (.unhashable t) := by
  unfold Value.atKey at h
  split at h
  · cases h
    exact .inl ⟨_, rfl⟩
  · split at h
    · cases h
      exact .inr (.inr ⟨_, rfl⟩)
    · split at h
      · cases h
      · cases h
        exact .inr (.inl rfl)

variable (given path) in
/-- A refused segment is missing if the refusal is of that kind, and otherwise the refusal is
passed on. -/
theorem enter_of_refused {r : Refusal} (mapping : w.isMapping = true)
    (refused : Value.atKey s w = .error r) :
    ∃ f, enter w s = .error f ∧ f.complaint given path =
      if r.complaint.kind.isA .key = true then .make (.notFound given path s (.text "missing"))
      else r.complaint := by
  unfold enter
  rw [if_pos mapping, refused]
  rcases atKey_error_cases refused with ⟨e, rfl⟩ | rfl | ⟨t, rfl⟩
  · by_cases he : e.kind.isA .key = true
    · exact ⟨.missing s, by simp [he], (if_pos he).symm⟩
    · exact ⟨.raised e, by simp [he], (if_neg he).symm⟩
  · exact ⟨.missing s, rfl, rfl⟩
  · exact ⟨.badKey (.unhashable t), rfl, rfl⟩

/-- **A step that is not made is blocked**, and what is raised says how. -/
theorem enter_error_iff {complaint : Complaint} :
    (∃ f, enter w s = .error f ∧ f.complaint given path = complaint) ↔
      Blocked given path w s complaint := by
  constructor
  · rintro ⟨f, hf, rfl⟩
    cases hw : w.isMapping with
    | false =>
      have hstep : enter w s = .error (.belowNonMapping s w.typeName) := by simp [enter, hw]
      rw [hstep] at hf
      cases hf
      exact .nonMapping hw
    | true =>
      cases hr : Value.atKey s w with
      | ok v => cases hf.symm.trans (enter_eq_ok_iff.2 ⟨hw, hr⟩)
      | error r =>
        obtain ⟨f', hf', hcomplaint⟩ := enter_of_refused given path hw hr
        obtain rfl := Except.error.inj (hf.symm.trans hf')
        rw [hcomplaint]
        split
        · next key => exact .missing hw hr key
        · next other => exact .foreign hw hr (Bool.eq_false_iff.2 other)
  · intro h
    cases h with
    | nonMapping plain => exact ⟨.belowNonMapping s w.typeName, by simp [enter, plain], rfl⟩
    | missing mapping refused key =>
      obtain ⟨f, hf, hcomplaint⟩ := enter_of_refused _ _ mapping refused
      exact ⟨f, hf, hcomplaint.trans (if_pos key)⟩
    | foreign mapping refused other =>
      obtain ⟨f, hf, hcomplaint⟩ := enter_of_refused _ _ mapping refused
      exact ⟨f, hf, hcomplaint.trans (if_neg (Bool.eq_false_iff.1 other))⟩

/-! ## Whole paths -/

/-- **A value is found exactly if there is a walk to it.** -/
theorem lookup_eq_ok_iff : lookup c path = .ok v ↔ Walk c path v := by
  constructor
  · intro h
    induction path generalizing c with
    | nil =>
      cases h
      exact .here _
    | cons s rest ih =>
      rw [lookup_cons] at h
      cases henter : enter c s with
      | error f => rw [henter] at h; cases h
      | ok w =>
        rw [henter] at h
        obtain ⟨mapping, holds⟩ := enter_eq_ok_iff.1 henter
        exact .onward mapping holds (ih h)
  · intro h
    induction h with
    | here c => rfl
    | onward mapping holds _ ih =>
      rw [lookup_cons, enter_eq_ok_iff.2 ⟨mapping, holds⟩]
      exact ih

/-- A walk goes on where its first part leads. -/
theorem lookup_of_walk (h : Walk c p v) : lookup c (p ++ q) = lookup v q := by
  rw [lookup_append, lookup_eq_ok_iff.2 h]
  rfl

/-- A path that is not found has a first segment that leads nowhere. -/
theorem exists_of_lookup_error {f : LookupFault} (h : lookup c path = .error f) :
    ∃ before s after w, path = before ++ s :: after ∧ Walk c before w ∧ enter w s = .error f := by
  induction path generalizing c with
  | nil => cases h
  | cons s rest ih =>
    rw [lookup_cons] at h
    cases henter : enter c s with
    | error f' =>
      rw [henter] at h
      cases h
      exact ⟨[], s, rest, c, rfl, .here c, henter⟩
    | ok w =>
      rw [henter] at h
      obtain ⟨mapping, holds⟩ := enter_eq_ok_iff.1 henter
      obtain ⟨before, s', after, u, rfl, walk, stops⟩ := ih h
      exact ⟨s :: before, s', after, u, rfl, .onward mapping holds walk, stops⟩

/-- **What is raised tells of the first segment that is blocked.** -/
theorem seek_eq_error_iff {complaint : Complaint} :
    seek given c path = .error complaint ↔
      ∃ before s after w, path = before ++ s :: after ∧ Walk c before w ∧
        Blocked given path w s complaint := by
  constructor
  · intro h
    cases hlookup : lookup c path with
    | ok v =>
      rw [seek, hlookup] at h
      cases h
    | error f =>
      rw [seek, hlookup] at h
      obtain ⟨before, s, after, w, hpath, walk, stops⟩ := exists_of_lookup_error hlookup
      exact ⟨before, s, after, w, hpath, walk, enter_error_iff.1 ⟨f, stops, Except.error.inj h⟩⟩
  · rintro ⟨before, s, after, w, hpath, walk, blocked⟩
    obtain ⟨f, stops, hcomplaint⟩ := enter_error_iff.2 blocked
    have hlookup : lookup c path = .error f := by
      rw [hpath, lookup_of_walk walk, lookup_cons, stops]
      rfl
    rw [seek, hlookup, ← hcomplaint]
    rfl

/-- **A path is followed step by step.**

* A value is found exactly if there is a walk to it.
* Something is raised exactly if a segment is blocked at the value that a walk along the segments
  before it leads to.  If that value is no mapping, or refuses the segment with an exception of
  the missing-key kind, then what is raised tells of that segment and of the whole path; any other
  refusal is raised as it is.
* If the first part of a path is found, then the whole path comes to what its second part comes
  to from there: the same value, or a stop at the same segment for the same reason. -/
theorem lookup_follows_path (c given : Value) (path : List Value) :
    (∀ v, seek given c path = .ok v ↔ Walk c path v) ∧
    (∀ complaint, seek given c path = .error complaint ↔
      ∃ before s after w, path = before ++ s :: after ∧ Walk c before w ∧
        Blocked given path w s complaint) ∧
    ∀ p q v, path = p ++ q → lookup c p = .ok v →
      lookup c path = lookup v q ∧ ∀ before w, Walk c (p ++ before) w ↔ Walk v before w := by
  refine ⟨fun v => ?_, fun complaint => seek_eq_error_iff, ?_⟩
  · rw [← lookup_eq_ok_iff, seek]
    cases lookup c path with
    | error fault => exact iff_of_false (by rintro ⟨⟩) (by rintro ⟨⟩)
    | ok w =>
      show Except.ok w = Except.ok v ↔ _
      rw [Except.ok.injEq, Except.ok.injEq]
  · rintro p q v rfl found
    have walk := lookup_eq_ok_iff.1 found
    exact ⟨lookup_of_walk walk, fun before w => walk_append_iff walk⟩

/-- A mapping that refuses every key with an exception that a missing path is reported with. -/
def forgetful : Value := .faulty ⟨0, .notFound .null [] .null .null⟩

/-- A mapping that refuses every key because a number is out of place. -/
def grumpy : Value := .faulty ⟨1, .plain .value []⟩

/-- A context with both of them, one level down. -/
def refusing : Value :=
  .record [(.text "a", .view [(.text "b", .int 7), (.text "forgetful", forgetful),
    (.text "grumpy", grumpy)])]

/-- The path that leads to one of them and one level further. -/
def refusingPath (name : String) : List Value := [.text "a", .text name, .text "x"]

/-- A number is found and cannot be entered; a refusal of the missing-key kind is reported with
the whole path, and another one is passed on. -/
theorem refusals_are_told_apart :
    let given := Value.null
    let unreachable (name reason : String) : Except Complaint Value :=
      .error (.make (.notFound given (refusingPath name) (.text "x") (.text reason)))
    seek given refusing [.text "a", .text "b"] = .ok (.int 7) ∧
      seek given refusing (refusingPath "b") = unreachable "b" "below a non-mapping int" ∧
      seek given refusing (refusingPath "forgetful") = unreachable "forgetful" "missing" ∧
      seek given refusing (refusingPath "grumpy") = .error (.pass ⟨1, .plain .value []⟩) ∧
      lookup refusing (refusingPath "b") = lookup (.int 7) [.text "x"] := by
  have hwalk : ∀ name v, Value.atKey (.text name) (.view [(.text "b", .int 7),
      (.text "forgetful", forgetful), (.text "grumpy", grumpy)]) = .ok v →
      Walk refusing [.text "a", .text name] v := fun name v holds =>
    .onward rfl rfl (.onward rfl holds (.here v))
  have hfollows := lookup_follows_path refusing .null
  have hstops : ∀ name v complaint, Walk refusing [.text "a", .text name] v →
      Blocked .null (refusingPath name) v (.text "x") complaint →
      seek .null refusing (refusingPath name) = .error complaint := fun name v complaint walk h =>
    ((hfollows (refusingPath name)).2.1 complaint).2 ⟨_, _, [], v, rfl, walk, h⟩
  have hnumber := hwalk "b" (.int 7) rfl
  exact ⟨((hfollows [.text "a", .text "b"]).1 _).2 hnumber, hstops _ _ _ hnumber (.nonMapping rfl),
    hstops _ _ _ (hwalk "forgetful" _ rfl) (.missing rfl rfl rfl),
    hstops _ _ _ (hwalk "grumpy" _ rfl) (.foreign (r := .raised ⟨1, .plain .value []⟩) rfl rfl rfl),
    ((hfollows (refusingPath "b")).2.2 [.text "a", .text "b"] _ _ rfl
      (lookup_eq_ok_iff.2 hnumber)).1⟩

end Context
end DescribedEffects
