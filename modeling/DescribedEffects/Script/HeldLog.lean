import DescribedEffects.BoundedLog
import DescribedEffects.Script.Session
import DescribedEffects.Value.Instance

/-!
# Bounded logs in the hands of a program

A program can hold a bounded log and ask things of it.  It passes values, so a
request is read first: a position is an integer or a truth value, and what is added
is anything that can be iterated over.

The bound is a value too, and it is kept as it was given.  Whether it is a number of
entries comes out when the log is trimmed (`boundOf`), and by then the request has
done its work: entries that were added before a trim that fails are there, and so are
those that a computation yielded before it failed.  So `grant` answers with the log as
it is after the request and, beside it, the exception that the request raised, if any.
-/

namespace DescribedEffects
namespace Script

/-- A value as an integer of limited size; a truth value counts as zero or one. -/
def asPosition (v : Value) : Except ValueFault Int :=
  match v.integer? with
  | some n => if Value.isMachineInteger n then .ok n else .error .tooWide
  | none => .error (.notInteger v.typeName)

/-- What a value means as the bound of a log with so many entries.  A real number is
no number of entries, but as long as it is not exceeded nobody asks for one. -/
def boundOf (size : Nat) (v : Value) : Except ValueFault (Option Int) :=
  match v, v.integer? with
  | _, some n => .ok (some n)
  | .null, none => .ok none
  | .nan _, none => .ok none
  | .real x, none =>
    if x.scaled.compare (.ofInt size) == .lt then .error .notCount else .ok none
  | v, none => .error (.unsupported "-" "int" v.typeName)

/-- A log, and its bound as it was given. -/
structure HeldLog where
  entries : List Value
  bound : Value

/-- What can be asked of a log. -/
inductive LogRequest where
  | append (x : Value)
  | extend (xs : Value)
  /-- Adds the log to itself. -/
  | double
  | setBound (bound : Value)
  | insert (position x : Value)
  | pop (position : Option Value)
  | clear
  | reverse
  | remove (x : Value)
  /-- Joins the log with more entries in place. -/
  | join (xs : Value)

namespace HeldLog

/-- Drops the oldest entries that the bound does not allow. -/
def trim (h : HeldLog) : Except ValueFault HeldLog := do
  let bound ← boundOf h.entries.length h.bound
  pure { h with entries := (BoundedLog.trim ⟨h.entries, bound⟩).entries }

/-- A log of some items. -/
def make (items bound : Value) : Operation HeldLog := do
  let entries ← Session.itemsOf items
  Operation.ofFault (trim ⟨entries, bound⟩)

/-- Adds entries. -/
def add (h : HeldLog) (xs : List Value) : HeldLog := { h with entries := h.entries ++ xs }

/-- A log after a request, and the exception that the request raised, if any. -/
abbrev Granted := HeldLog × Option Exn

/-- The end of a request that comes to another log or changes nothing. -/
def settle (h : HeldLog) (result : Except ValueFault HeldLog) : Operation Granted := do
  match ← (Operation.ofFault result).guarded with
  | .ok h => pure (h, none)
  | .error e => pure (h, some e)

/-- The end of a request after which the log is trimmed. -/
def settleTrimmed (h : HeldLog) : Operation Granted := h.settle h.trim

/-- Edits the log as a plain list. -/
def edit (h : HeldLog) (e : BoundedLog.ListEdit) : Except ValueFault HeldLog := do
  let edited ← BoundedLog.edit ⟨h.entries, none⟩ e
  pure { h with entries := edited.entries }

/-- Adds what iterating over a value yields, as far as it does.  An exception that is
not an ordinary one ends more than the request. -/
def extend (h : HeldLog) (xs : Value) : Operation Granted := do
  match ← (Session.harvest xs).guarded with
  | .error e => pure (h, some e)
  | .ok harvest =>
    let h := h.add harvest.items
    match harvest.failure with
    | none => h.settleTrimmed
    | some e => if e.isOrdinary then pure (h, some e) else throw (.raised e)

/-- Grants a request.  A join is an assignment: there is no log to go on with if it
fails, and its exception is passed on. -/
def grant (h : HeldLog) : LogRequest → Operation Granted
  | .append x => (h.add [x]).settleTrimmed
  | .extend xs => h.extend xs
  | .double => (h.add h.entries).settleTrimmed
  | .setBound bound => { h with bound }.settleTrimmed
  | .insert position x => h.settle do h.edit (.insert (← asPosition position) x)
  | .pop none => h.settle (h.edit (.pop none))
  | .pop (some position) => h.settle do h.edit (.pop (some (← asPosition position)))
  | .clear => h.settle (h.edit .clear)
  | .reverse => h.settle (h.edit .reverse)
  | .remove x => h.settle (h.edit (.remove x))
  | .join xs => do pure (h.add (← Session.itemsOf xs), none)

end HeldLog

/-! ## Requests by name -/

/-- The methods of a log. -/
inductive LogMethod where
  | append
  | extend
  | double
  | setBound
  | insert
  | pop
  | clear
  | reverse
  | remove
  | join

namespace LogMethod

/-- A method of the log's own that takes one argument. -/
def ownMethod (name parameter : String) (request : Value → LogRequest) (args : List Value) :
    Except ValueFault LogRequest := do
  let values ← Signature.bindParameters ⟨"BoundedLog." ++ name, [⟨parameter, none⟩], 1⟩ args []
  pure (request (values.headD .null))

/-- A method of every list that is called with a wrong number of arguments. -/
def wrongCount (expected : String) (args : List Value) (closing : String) :
    Except ValueFault LogRequest :=
  .error (.callShape (expected ++ toString args.length ++ closing))

/-- Reads a call of a method. -/
def request (m : LogMethod) (args : List Value) : Except ValueFault LogRequest :=
  match m, args with
  | .append, args => ownMethod "append" "item" .append args
  | .extend, args => ownMethod "extend" "items" .extend args
  | .double, _ => .ok .double
  | .setBound, args => ownMethod "set_max_entries" "max_entries" .setBound args
  | .insert, [position, x] => .ok (.insert position x)
  | .insert, args => wrongCount "insert expected 2 arguments, got " args ""
  | .pop, [] => .ok (.pop none)
  | .pop, [position] => .ok (.pop (some position))
  | .pop, args => wrongCount "pop expected at most 1 argument, got " args ""
  | .clear, [] => .ok .clear
  | .clear, args => wrongCount "list.clear() takes no arguments (" args " given)"
  | .reverse, [] => .ok .reverse
  | .reverse, args => wrongCount "list.reverse() takes no arguments (" args " given)"
  | .remove, [x] => .ok (.remove x)
  | .remove, args => wrongCount "list.remove() takes exactly one argument (" args " given)"
  | .join, xs :: _ => .ok (.join xs)
  | .join, [] => .error (.outOfRange "list")

end LogMethod

/-- Calls a method of a log. -/
def HeldLog.invoke (h : HeldLog) (m : LogMethod) (args : List Value) :
    Operation HeldLog.Granted := do
  match ← (Operation.ofFault (m.request args)).guarded with
  | .ok r => h.grant r
  | .error e => pure (h, some e)

end Script
end DescribedEffects
