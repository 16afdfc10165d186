import DescribedEffects.Proofs.BoundedLog.Latest
import DescribedEffects.Script.HeldLog

/-!
# What a log keeps of its history

A program makes a log of something that it iterates over, and goes on to call the log's own
methods: it appends, extends, and changes the bound.  Between two calls anything may happen; a
call is only told what it needs to know, the session that it is made in.

Everything that was ever put in, in order, is the history of the log.  What the log holds is an
end of it, and what it has dropped is gone: a later log holds nothing but an end of what an
earlier one held and what was put in since (`Calls.suffix`).

## Iterables that fail

An extension iterates over something before it trims.  If that fails partway, what had come out
by then has been put in, the exception leaves the call, and nothing is trimmed.  So the log can
be left with more entries than its bound allows, and it stays like this until the next call
trims it.  Nothing else can have that effect: a log fits its bound after every call exactly if
each call that failed had found room for what it put in.  A log that fits holds the latest of its
history, as long as the bound stays what it was (`log_keeps_latest_iff`).
`failed_extension_overfills` is a log that does not.
-/

namespace DescribedEffects
namespace Script

variable {α β : Type}

/-! ## Operations in a session -/

/-- What an operation comes to in a session. -/
def Operation.resultIn (x : Operation α) (s : Session) : Verdict α := (x.run.run s).1

/-- The second operation starts in the session that the first one leaves. -/
theorem Operation.run_bind (x : Operation α) (f : α → Operation β) (s : Session) :
    (x >>= f).run.run s =
      match x.run.run s with
      | (.ok a, s') => (f a).run.run s'
      | (.error halt, s') => (.error halt, s') := by
  show ExceptT.bindCont f (x.run.run s).1 (x.run.run s).2 = _
  rcases x.run.run s with ⟨halt | a, s'⟩ <;> rfl

/-- An ordinary exception becomes a result, and nothing else does. -/
theorem Operation.run_guarded (x : Operation α) (s : Session) :
    x.guarded.run.run s =
      match x.run.run s with
      | (.ok a, s') => (.ok (.ok a), s')
      | (.error (.raised e), s') =>
        if e.isOrdinary then (.ok (.error e), s') else (.error (.raised e), s')
      | (.error halt, s') => (.error halt, s') := by
  unfold guarded
  simp only [tryCatch, tryCatchThe, MonadExceptOf.tryCatch, ExceptT.tryCatch, bind, ExceptT.bind,
    ExceptT.run, ExceptT.mk, ExceptT.bindCont, StateT.run, StateT.bind]
  rcases x s with ⟨(e | _ | _) | a, s'⟩
  · show (if e.isOrdinary = true then (pure (.error e) : Operation (Except Exn α))
      else throw (.raised e)).run.run s' =
        if e.isOrdinary = true then (.ok (.error e), s') else (.error (.raised e), s')
    cases e.isOrdinary <;> rfl
  · rfl
  · rfl
  · rfl

/-- What comes out of iterating over a value in a session.  A value that cannot be iterated over
fails before anything comes out. -/
def Session.yields (s : Session) (xs : Value) : Verdict Harvest :=
  match (Session.harvest xs).resultIn s with
  | .error (.raised e) => .ok ⟨[], some e⟩
  | harvest => harvest

/-- The items that come out, up to a failure. -/
def Session.iterated (s : Session) (xs : Value) : List Value :=
  match s.yields xs with
  | .ok g => g.items
  | .error _ => []

/-- Iterating over the value does not fail. -/
def Session.Delivers (s : Session) (xs : Value) : Prop :=
  ∃ items, s.yields xs = .ok ⟨items, none⟩

theorem Session.harvest_of_yields {s : Session} {xs : Value} {items : List Value}
    (h : s.yields xs = .ok ⟨items, none⟩) :
    (Session.harvest xs).resultIn s = .ok ⟨items, none⟩ := by
  unfold yields at h
  split at h
  · cases h
  · exact h

/-- What a request puts into a log. -/
def LogRequest.brings (h : HeldLog) (s : Session) : LogRequest → List Value
  | .append x => [x]
  | .extend xs => s.iterated xs
  | .double => h.entries
  | _ => []

/-- The value is nothing or an integer, and stands for this bound. -/
inductive IsBound : Value → Option Int → Prop
  | unbounded : IsBound .null none
  | whole {v : Value} {n : Int} (integer : v.integer? = some n) : IsBound v (some n)

/-- A call of one of the methods that a log has of its own. -/
inductive LogRequest.Own : LogRequest → Prop
  | append (x : Value) : Own (.append x)
  | extend (xs : Value) : Own (.extend xs)
  /-- The log is extended with itself. -/
  | double : Own .double
  | setBound {v : Value} {b : Option Int} (bound : IsBound v b) : Own (.setBound v)

/-- Nothing that the request iterates over fails. -/
def LogRequest.Delivers (s : Session) : LogRequest → Prop
  | .extend xs => s.Delivers xs
  | _ => True

theorem isBound_some_iff {v : Value} {n : Int} : IsBound v (some n) ↔ v.integer? = some n := by
  constructor
  · intro h
    cases h with
    | whole integer => exact integer
  · exact .whole

/-- A value stands for one bound only. -/
theorem IsBound.unique {v : Value} {b c : Option Int} (h : IsBound v b) (k : IsBound v c) :
    b = c := by
  cases h with
  | unbounded =>
    cases k with
    | unbounded => rfl
    | whole integer => cases integer
  | whole integer =>
    cases k with
    | unbounded => cases integer
    | whole integer' => rw [← integer, ← integer']

theorem boundOf_of_isBound {v : Value} {b : Option Int} (h : IsBound v b) (size : Nat) :
    boundOf size v = .ok b := by
  cases h with
  | unbounded => rfl
  | whole integer =>
    unfold boundOf
    rw [integer]

namespace HeldLog

variable {h h' : HeldLog} {b : Option Int} {s : Session}

/-- A log is trimmed if its bound is one. -/
theorem trim_eq (bound : IsBound h.bound b) :
    h.trim = .ok { h with entries := keepLast b h.entries } := by
  rw [trim, boundOf_of_isBound bound]
  rfl

/-- A request after which the log is trimmed succeeds. -/
theorem settleTrimmed_eq (bound : IsBound h.bound b) (s : Session) :
    h.settleTrimmed.resultIn s = .ok ({ h with entries := keepLast b h.entries }, none) := by
  rw [settleTrimmed, trim_eq bound]
  rfl

theorem grant_append (bound : IsBound h.bound b) (x : Value) (s : Session) :
    (h.grant (.append x)).resultIn s =
      .ok ({ h with entries := (BoundedLog.append ⟨h.entries, b⟩ x).entries }, none) :=
  settleTrimmed_eq (h := h.add [x]) bound s

theorem grant_double (bound : IsBound h.bound b) (s : Session) :
    (h.grant .double).resultIn s =
      .ok ({ h with entries := (BoundedLog.extend ⟨h.entries, b⟩ h.entries).entries }, none) :=
  settleTrimmed_eq (h := h.add h.entries) bound s

theorem grant_setBound (b : Option Int) {v : Value} {c : Option Int} (bound : IsBound v c)
    (s : Session) :
    (h.grant (.setBound v)).resultIn s =
      .ok (⟨(BoundedLog.setBound ⟨h.entries, b⟩ c).entries, v⟩, none) :=
  settleTrimmed_eq (h := ⟨h.entries, v⟩) bound s

/-- An extension adds what comes out of the iteration, and trims if that did not fail. -/
theorem grant_extend (bound : IsBound h.bound b) (xs : Value) (s : Session) :
    (h.grant (.extend xs)).resultIn s =
      match s.yields xs with
      | .ok ⟨items, none⟩ =>
        .ok ({ h with entries := (BoundedLog.extend ⟨h.entries, b⟩ items).entries }, none)
      | .ok ⟨items, some e⟩ =>
        if e.isOrdinary then .ok (h.add items, some e) else .error (.raised e)
      | .error halt => .error halt := by
  rw [grant, extend, Operation.resultIn, Operation.run_bind, Operation.run_guarded, Session.yields,
    Operation.resultIn]
  rcases (Session.harvest xs).run.run s with ⟨(e | _ | _) | ⟨items, _ | e⟩, s'⟩
  · have hnothing : h.add [] = h := congrArg (HeldLog.mk · h.bound) (List.append_nil h.entries)
    dsimp only
    rw [hnothing]
    cases e.isOrdinary <;> rfl
  · rfl
  · rfl
  · exact settleTrimmed_eq (h := h.add items) bound s'
  · show (if e.isOrdinary = true then (pure (h.add items, some e) : Operation Granted)
      else throw (.raised e)).resultIn s' =
        if e.isOrdinary = true then .ok (h.add items, some e) else .error (.raised e)
    cases e.isOrdinary <;> rfl

/-- **A log is made of what can be iterated over**, and it is trimmed at once. -/
theorem make_eq {items v : Value} (bound : IsBound v b) (delivers : s.Delivers items) :
    (make items v).resultIn s = .ok ⟨keepLast b (s.iterated items), v⟩ := by
  obtain ⟨xs, hxs⟩ := delivers
  have hiterated : s.iterated items = xs := by rw [Session.iterated, hxs]
  obtain ⟨s', hrun⟩ : ∃ s', (Session.harvest items).run.run s = (.ok ⟨xs, none⟩, s') :=
    ⟨_, Prod.ext (Session.harvest_of_yields hxs) rfl⟩
  have hitems : (Session.itemsOf items).run.run s = (.ok xs, s') := by
    rw [Session.itemsOf, Operation.run_bind, hrun]
    rfl
  rw [make, Operation.resultIn, Operation.run_bind, hitems, hiterated]
  dsimp only
  rw [trim_eq (h := ⟨xs, v⟩) bound]
  rfl

/-- The log has no more entries than its bound allows. -/
def Fits (h : HeldLog) : Prop :=
  ∀ n, h.bound.integer? = some n → (h.entries.length : Int) ≤ max 0 n

theorem fits_iff (bound : IsBound h.bound b) : h.Fits ↔ DescribedEffects.Fits b h.entries := by
  constructor
  · rintro hfits n rfl
    exact hfits n (isBound_some_iff.1 bound)
  · intro hfits n integer
    exact hfits n (bound.unique (.whole integer))

end HeldLog

/-! ## Calls -/

/-- A call of a log's method that has come back. -/
structure LogCall where
  request : LogRequest
  session : Session
  before : HeldLog
  after : HeldLog
  failure : Option Exn

namespace LogCall

variable {c : LogCall} {b : Option Int} {history : List Value}

/-- What the call put in. -/
def put (c : LogCall) : List Value := c.request.brings c.before c.session

/-- The call is one of a method of the log's own, and this is how it comes back. -/
structure Answered (c : LogCall) : Prop where
  own : c.request.Own
  answer : (c.before.grant c.request).resultIn c.session = .ok (c.after, c.failure)

/-- The log has room for what the call puts in. -/
def HasRoom (c : LogCall) : Prop := (c.before.add c.put).Fits

/-- What a call does. -/
inductive Course (c : LogCall) : Prop
  /-- It adds entries and drops the oldest ones that the bound does not allow. -/
  | trimmed {b : Option Int} (delivers : c.request.Delivers c.session) (failure : c.failure = none)
      (bound : IsBound c.after.bound b)
      (same : (∀ v, c.request ≠ .setBound v) → c.after.bound = c.before.bound)
      (entries : c.after.entries = keepLast b (c.before.entries ++ c.put))
  /-- It adds entries up to a failure and drops none. -/
  | cut {xs : Value} {e : Exn} (extends_ : c.request = .extend xs)
      (undelivered : ¬c.session.Delivers xs) (failure : c.failure = some e)
      (after : c.after = c.before.add c.put)

/-- **A call comes to one of two ends.** -/
theorem Answered.course (h : c.Answered) (bound : IsBound c.before.bound b) : c.Course := by
  obtain ⟨request, s, before, after, failure⟩ := c
  obtain ⟨own, answer⟩ := h
  dsimp only at own answer bound
  cases own with
  | append x =>
    rw [HeldLog.grant_append bound] at answer
    cases answer
    exact .trimmed trivial rfl bound (fun _ => rfl) rfl
  | double =>
    rw [HeldLog.grant_double bound] at answer
    cases answer
    exact .trimmed trivial rfl bound (fun _ => rfl) rfl
  | @setBound v c bound' =>
    rw [HeldLog.grant_setBound b bound'] at answer
    cases answer
    refine .trimmed trivial rfl bound' (fun h => absurd rfl (h v)) ?_
    exact congrArg (keepLast c) (List.append_nil _).symm
  | extend xs =>
    rw [HeldLog.grant_extend bound] at answer
    have hput : LogCall.put ⟨.extend xs, s, before, after, failure⟩ = s.iterated xs := rfl
    rw [Session.iterated] at hput
    rcases hyields : s.yields xs with halt | ⟨items, _ | e⟩
    all_goals
      rw [hyields] at answer hput
      dsimp only at answer hput
    · cases answer
    · cases answer
      refine .trimmed ⟨items, hyields⟩ rfl bound (fun _ => rfl) ?_
      rw [hput]
      rfl
    · have undelivered : ¬s.Delivers xs := by
        rintro ⟨items', h⟩
        rw [hyields] at h
        cases h
      split at answer
      · cases answer
        refine .cut rfl undelivered rfl ?_
        rw [hput]
      · cases answer

/-- The bound after a call is one again. -/
theorem Course.exists_isBound (h : c.Course) (bound : IsBound c.before.bound b) :
    ∃ b', IsBound c.after.bound b' := by
  cases h with
  | trimmed _ _ bound' _ _ => exact ⟨_, bound'⟩
  | cut _ _ _ after =>
    rw [after]
    exact ⟨b, bound⟩

/-- What a call leaves is an end of what it found and put in. -/
theorem Course.suffix (h : c.Course) : c.after.entries <:+ c.before.entries ++ c.put := by
  cases h with
  | trimmed _ _ _ _ entries =>
    rw [entries]
    exact BoundedLog.keepLast_suffix _ _
  | cut _ _ _ after =>
    rw [after]
    exact List.suffix_refl _

/-- **A call leaves a log that fits, unless it fails and there was no room.** -/
theorem Course.fits_iff (h : c.Course) : c.after.Fits ↔ (c.failure ≠ none → c.HasRoom) := by
  cases h with
  | trimmed _ failure bound _ entries =>
    have hfits : c.after.Fits := by
      rw [HeldLog.fits_iff bound, entries]
      exact fits_keepLast _ _
    exact iff_of_true hfits fun hfailed => absurd failure hfailed
  | cut _ _ failure after =>
    rw [after]
    exact ⟨fun hfits _ => hfits, fun hroom => hroom (by rw [failure]; exact Option.some_ne_none _)⟩

/-- Under one bound, a call misses none of the latest entries. -/
theorem Course.retains (h : c.Course) (bound : IsBound c.after.bound b)
    (retains : Retains b history c.before.entries) :
    Retains b (history ++ c.put) c.after.entries := by
  cases h with
  | trimmed _ _ bound' _ entries =>
    obtain rfl := bound.unique bound'
    rw [entries]
    exact (retains.append c.put).trim
  | cut _ _ _ after =>
    rw [after]
    exact retains.append c.put

end LogCall

/-- Calls are made one after another and lead from one log to another. -/
inductive Calls : HeldLog → List LogCall → HeldLog → Prop
  | nil (h : HeldLog) : Calls h [] h
  | cons {c : LogCall} {cs : List LogCall} {h : HeldLog} (answered : c.Answered)
      (rest : Calls c.after cs h) : Calls c.before (c :: cs) h

namespace Calls

variable {h h' : HeldLog} {cs : List LogCall} {b : Option Int} {history : List Value}

/-- Every call takes its course, and in the end the bound is one again. -/
theorem courses (calls : Calls h cs h') (bound : IsBound h.bound b) :
    (∀ c ∈ cs, c.Course) ∧ ∃ b', IsBound h'.bound b' := by
  induction calls generalizing b with
  | nil h => exact ⟨fun c hc => (by cases hc), b, bound⟩
  | cons answered _ ih =>
    have hcourse := answered.course bound
    obtain ⟨b', hbound⟩ := hcourse.exists_isBound bound
    obtain ⟨hrest, hend⟩ := ih hbound
    exact ⟨List.forall_mem_cons.2 ⟨hcourse, hrest⟩, hend⟩

theorem isBound (calls : Calls h cs h') (bound : IsBound h.bound b)
    (same : ∀ c ∈ cs, IsBound c.after.bound b) : IsBound h'.bound b := by
  induction calls with
  | nil h => exact bound
  | cons _ _ ih =>
    obtain ⟨hbound, hsame⟩ := List.forall_mem_cons.1 same
    exact ih hbound hsame

/-- **What was dropped does not come back**: a later log is an end of an earlier one and what has
been put in since. -/
theorem suffix (calls : Calls h cs h') (courses : ∀ c ∈ cs, c.Course) :
    h'.entries <:+ h.entries ++ cs.flatMap LogCall.put := by
  induction calls with
  | nil h => simp
  | @cons c cs h _ _ ih =>
    obtain ⟨hcourse, hrest⟩ := List.forall_mem_cons.1 courses
    have hfirst : c.after.entries ++ cs.flatMap LogCall.put <:+
        (c.before.entries ++ c.put) ++ cs.flatMap LogCall.put :=
      List.suffix_append_self_iff.2 hcourse.suffix
    rw [List.flatMap_cons, ← List.append_assoc]
    exact (ih hrest).trans hfirst

/-- As long as the bound stays the same, none of the latest entries is missing. -/
theorem retains (calls : Calls h cs h') (courses : ∀ c ∈ cs, c.Course)
    (same : ∀ c ∈ cs, IsBound c.after.bound b) (retains : Retains b history h.entries) :
    Retains b (history ++ cs.flatMap LogCall.put) h'.entries := by
  induction calls generalizing history with
  | nil h =>
    rw [List.flatMap_nil, List.append_nil]
    exact retains
  | cons _ _ ih =>
    obtain ⟨hcourse, hrest⟩ := List.forall_mem_cons.1 courses
    obtain ⟨hbound, hsame⟩ := List.forall_mem_cons.1 same
    rw [List.flatMap_cons, ← List.append_assoc]
    exact ih hrest hsame (hcourse.retains hbound retains)

/-- Entries can be appended one by one to a log that fits, and what is left is what one extension
by all of them would leave. -/
theorem of_appends (bound : IsBound h.bound b) (fits : DescribedEffects.Fits b h.entries)
    (s : Session) (xs : List Value) :
    ∃ cs, Calls h cs { h with entries := keepLast b (h.entries ++ xs) } ∧
      cs.map LogCall.request = xs.map .append := by
  induction xs generalizing h with
  | nil =>
    have hkept : keepLast b (h.entries ++ []) = h.entries := by
      rw [List.append_nil, keepLast_of_fits fits]
    rw [hkept]
    exact ⟨[], .nil h, rfl⟩
  | cons x xs ih =>
    let next : HeldLog := { h with entries := keepLast b (h.entries ++ [x]) }
    let first : LogCall := ⟨.append x, s, h, next, none⟩
    have hfirst : first.Answered := ⟨.append x, HeldLog.grant_append bound x s⟩
    obtain ⟨cs, hcs, hrequests⟩ := ih (h := next) bound (fits_keepLast b _)
    have hlast : keepLast b (next.entries ++ xs) = keepLast b (h.entries ++ x :: xs) := by
      rw [keepLast_append, List.append_assoc, List.singleton_append]
    rw [hlast] at hcs
    exact ⟨first :: cs, .cons hfirst hcs, congrArg (LogRequest.append x :: ·) hrequests⟩

end Calls

/-- **An extension that succeeds comes to the same as appending one by one**, if the log fits. -/
theorem LogCall.Course.appends {c : LogCall} (h : c.Course) {xs : Value}
    (extends_ : c.request = .extend xs) (succeeds : c.failure = none) (fits : c.before.Fits) :
    ∃ ds, Calls c.before ds c.after ∧ ds.map LogCall.request = c.put.map .append := by
  cases h with
  | @trimmed b _ _ bound same entries =>
    have hsame : c.after.bound = c.before.bound := by
      refine same fun v hv => ?_
      rw [extends_] at hv
      cases hv
    have hbound : IsBound c.before.bound b := hsame ▸ bound
    have hafter : c.after = ⟨keepLast b (c.before.entries ++ c.put), c.before.bound⟩ := by
      rw [← entries, ← hsame]
    rw [hafter]
    exact Calls.of_appends hbound ((HeldLog.fits_iff hbound).1 fits) c.session c.put
  | cut _ _ failure _ =>
    rw [failure] at succeeds
    cases succeeds

/-- **What a log keeps**, after calls that lead to it from a log that was made of some items. -/
structure KeepsLatest (made : HeldLog) (items : List Value) (cs : List LogCall) (h : HeldLog) :
    Prop where
  /-- The log holds an end of everything that was ever put in. -/
  suffix : h.entries <:+ items ++ cs.flatMap LogCall.put
  /-- What it did not hold at some moment in between, of what had been put in before, it does not
  hold again. -/
  gone : ∀ ds mid es, cs = ds ++ es → Calls made ds mid → Calls mid es h →
    h.entries <:+ mid.entries ++ es.flatMap LogCall.put
  /-- Every call has dropped the oldest entries that its bound did not allow, and no others. -/
  courses : ∀ c ∈ cs, c.Course
  /-- To extend a log that fits is to append one by one. -/
  appends : ∀ c ∈ cs, ∀ xs, c.request = .extend xs → c.failure = none → c.before.Fits →
    ∃ ds, Calls c.before ds c.after ∧ ds.map LogCall.request = c.put.map .append
  /-- The log answers every further call that is given something to iterate over. -/
  answers : ∀ r s, r.Own → r.Delivers s → ∃ h', (h.grant r).resultIn s = .ok (h', none)

theorem Calls.keepsLatest {made h : HeldLog} {items : List Value} {cs : List LogCall}
    {b : Option Int} (calls : Calls made cs h) (bound : IsBound made.bound b)
    (latest : made.entries <:+ items) : KeepsLatest made items cs h := by
  obtain ⟨hcourses, b', hbound⟩ := calls.courses bound
  refine ⟨?_, fun ds mid es hsplit _ later => ?_, hcourses, fun c hc xs hxs hok hfits => ?_,
    fun r s own delivers => ?_⟩
  · have hlatest : made.entries ++ cs.flatMap LogCall.put <:+ items ++ cs.flatMap LogCall.put :=
      List.suffix_append_self_iff.2 latest
    exact (calls.suffix hcourses).trans hlatest
  · exact later.suffix fun c hc => hcourses c (hsplit ▸ List.mem_append_right ds hc)
  · exact (hcourses c hc).appends hxs hok hfits
  · cases own with
    | append x => exact ⟨_, HeldLog.grant_append hbound x s⟩
    | double => exact ⟨_, HeldLog.grant_double hbound s⟩
    | setBound bound' => exact ⟨_, HeldLog.grant_setBound b' bound' s⟩
    | extend xs =>
      obtain ⟨ys, hys⟩ := delivers
      have hgrant := HeldLog.grant_extend hbound xs s
      rw [hys] at hgrant
      exact ⟨_, hgrant⟩

/-- **A log holds the latest part of its history, as far as no extension fails in between.**

Let a log be made of something that can be iterated over, with or without a bound.  It holds as
many of the last items as the bound allows.  After any calls of its own methods it holds an end
of everything that was put in; what has been dropped once does not come back, whatever becomes of
the bound; and no call drops more than its bound asks for (`KeepsLatest`).

After every call the log fits its bound, exactly if every call that failed had found room for
what it put in.  And as long as the bound stays the same, the log fits it exactly if it holds as
many of the last entries of its history as the bound allows. -/
theorem log_keeps_latest_iff {items bound : Value} {b : Option Int} {s : Session}
    (isBound : IsBound bound b) (delivers : s.Delivers items) :
    ∃ made, (HeldLog.make items bound).resultIn s = .ok made ∧
      made.entries = keepLast b (s.iterated items) ∧ ∀ cs h, Calls made cs h →
        KeepsLatest made (s.iterated items) cs h ∧
        ((∀ c ∈ cs, c.after.Fits) ↔ ∀ c ∈ cs, c.failure ≠ none → c.HasRoom) ∧
        ((∀ c ∈ cs, IsBound c.after.bound b) → (h.Fits ↔
          h.entries = keepLast b (s.iterated items ++ cs.flatMap LogCall.put))) := by
  refine ⟨_, HeldLog.make_eq isBound delivers, rfl, fun cs h calls => ?_⟩
  obtain ⟨hcourses, -⟩ := calls.courses isBound
  refine ⟨calls.keepsLatest isBound (BoundedLog.keepLast_suffix _ _), ?_, fun same => ?_⟩
  · exact forall₂_congr fun c hc => (hcourses c hc).fits_iff
  · have hretains := calls.retains hcourses same (retains_self b (s.iterated items)).trim
    rw [HeldLog.fits_iff (calls.isBound isBound same)]
    exact hretains.fits_iff

/-- A log without a bound is shrunk to its last entry, the bound is taken away again, and an entry
is appended: the entries that were dropped stay away, and the log fits all the time. -/
theorem shrunk_log_forgets :
    let s := Session.start []
    let items : Value := .list [.int 1, .int 2, .int 3]
    IsBound .null none ∧ s.Delivers items ∧ ∃ made cs h,
      (HeldLog.make items .null).resultIn s = .ok made ∧ Calls made cs h ∧
      cs.map LogCall.request = [.setBound (.int 1), .setBound .null, .append (.int 4)] ∧
      h.entries = [.int 3, .int 4] ∧ h.entries <:+ [.int 1, .int 2, .int 3, .int 4] ∧
      ∀ c ∈ cs, c.after.Fits := by
  intro s items
  have delivers : s.Delivers items := ⟨_, rfl⟩
  obtain ⟨made, hmade, -, hcalls⟩ := log_keeps_latest_iff .unbounded delivers
  obtain rfl : made = ⟨[.int 1, .int 2, .int 3], .null⟩ := (Except.ok.inj hmade).symm
  let whole : HeldLog := ⟨[.int 1, .int 2, .int 3], .null⟩
  let shrunk : HeldLog := ⟨[.int 3], .int 1⟩
  let freed : HeldLog := ⟨[.int 3], .null⟩
  let grown : HeldLog := ⟨[.int 3, .int 4], .null⟩
  let shrinking : LogCall := ⟨.setBound (.int 1), s, whole, shrunk, none⟩
  let freeing : LogCall := ⟨.setBound .null, s, shrunk, freed, none⟩
  let growing : LogCall := ⟨.append (.int 4), s, freed, grown, none⟩
  have calls : Calls whole [shrinking, freeing, growing] grown :=
    .cons (c := shrinking) ⟨.setBound (.whole rfl), rfl⟩ <|
      .cons (c := freeing) ⟨.setBound .unbounded, rfl⟩ <|
        .cons (c := growing) ⟨.append _, rfl⟩ <| .nil grown
  obtain ⟨hkeeps, hfits, -⟩ := hcalls _ _ calls
  refine ⟨.unbounded, delivers, _, _, _, hmade, calls, rfl, rfl, hkeeps.suffix, hfits.2 ?_⟩
  simp [shrinking, freeing, growing]

/-- A computation that yields two numbers and fails. -/
def faltering : List (String × Definition) :=
  [("g", ⟨.computation, [], [.yield (.lit (.int 1)) none, .yield (.lit (.int 2)) none,
    .raise (some (.exception .value [.lit (.text "late")] [])) none]⟩)]

/-- The session in which it has been made, as its first computation. -/
def falteringSession : Session :=
  ((Session.evaluate (.computation "g" [])).run.run (Session.start faltering)).2

/-- **A failed extension can leave too much.**  A log with room for one entry is extended by a
computation that yields two numbers and fails: it is left with both, although it fitted before
and the latest of its history is one of them. -/
theorem failed_extension_overfills :
    ∃ (made : HeldLog) (c : LogCall),
      (HeldLog.make (.list []) (.int 1)).resultIn (Session.start faltering) = .ok made ∧
      made.Fits ∧ c.request = .extend (.computation 0) ∧ Calls made [c] c.after ∧
      c.failure.map (·.kind) = some .value ∧ c.put = [.int 1, .int 2] ∧
      c.after = ⟨[.int 1, .int 2], .int 1⟩ ∧ ¬c.HasRoom ∧ ¬c.after.Fits ∧
      c.after.entries ≠ keepLast (some 1) c.put := by
  let made : HeldLog := ⟨[], .int 1⟩
  let late : Exn := ⟨1, .plain .value [.text "late"]⟩
  let c : LogCall := ⟨.extend (.computation 0), falteringSession, made,
    ⟨[.int 1, .int 2], .int 1⟩, some late⟩
  have hyields : falteringSession.yields (.computation 0) =
      .ok ⟨[.int 1, .int 2], some late⟩ := rfl
  have hput : c.put = [.int 1, .int 2] := by
    show falteringSession.iterated (.computation 0) = _
    rw [Session.iterated, hyields]
  have hanswer : c.Answered := by
    refine ⟨.extend _, ?_⟩
    show (made.grant (.extend (.computation 0))).resultIn falteringSession = _
    rw [HeldLog.grant_extend (.whole rfl), hyields]
    rfl
  have hover : ¬(⟨[.int 1, .int 2], .int 1⟩ : HeldLog).Fits := by
    intro h
    have : (2 : Int) ≤ max 0 1 := h 1 rfl
    omega
  have hroom : ¬c.HasRoom := by
    rw [LogCall.HasRoom, hput]
    exact hover
  refine ⟨made, c, rfl, ?_, rfl, .cons (c := c) hanswer (.nil _), rfl, hput, rfl, hroom, hover, ?_⟩
  · rintro n ⟨⟩
    show (0 : Int) ≤ max 0 1
    omega
  · rw [hput]
    exact fun h => absurd (congrArg List.length h) (by decide)

end Script
end DescribedEffects
