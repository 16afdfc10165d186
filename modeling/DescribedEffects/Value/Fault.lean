import DescribedEffects.Value.Display

/-!
# What can go wrong with a value

Operations on values of a dynamic type fail when the value is of the wrong sort.
`ValueFault` lists the causes; `ValueFault.body` is the one place where a cause
becomes the exception that a program sees, with its kind and its wording.
-/

namespace DescribedEffects

/-- The causes for which an operation on values fails.  Type names are those of
the operands. -/
inductive ValueFault where
  | notIterable (found : String)
  | notCallable (found : String)
  | notSubscriptable (found : String)
  | notSized (found : String)
  | unhashable (found : String)
  | notText (cause : NotText)
  | unordered (operator left right : String)
  | unsupported (operator left right : String)
  /-- A sequence can be joined only with one of its own sort. -/
  | notJoined (left right : String)
  | badRepeat (found : String)
  | badPosition (owner found : String)
  | outOfRange (owner : String)
  | missingKey (key : Value)
  | noAttribute (owner : Value) (name : String)
  | notException
  /-- A future cannot fail with the value. -/
  | invalidException
  /-- A future cannot fail with an end-of-computation exception. -/
  | exhaustedFuture
  /-- No operation of the event loop is possible while none runs. -/
  | noLoop
  | loopClosed
  /-- A future belongs to a run of the loop that is over. -/
  | foreignFuture
  | stillRunning
  | notStarted
  | nothingHandled
  | ignoredClosing
  | reawaited
  | awaitedElsewhere
  | tooManyArguments (callee : String) (most given : Nat)
  | callShape (message : String)
  | notInteger (found : String)
  /-- An integer is no machine integer. -/
  | tooWide
  /-- An integer is beyond every position; the kind depends on who asks. -/
  | beyondPositions (kind : ExnKind)
  /-- An integer is beyond every real number. -/
  | beyondReals
  /-- A number of entries that is no integer. -/
  | notCount
  | popFromEmpty
  | popOutOfRange
  | notInList
  | outOfSteps

namespace ValueFault

/-- How a type is named when it refuses a position. -/
def positionNoun (owner : String) : String :=
  if owner = "str" then "string" else if owner = "bytes" then "byte" else owner

/-- The wording when a position is out of range; byte strings do not name
themselves. -/
def rangeMessage (owner : String) : String :=
  if owner = "bytes" then "index out of range" else positionNoun owner ++ " index out of range"

/-- The wording when an attribute is missing: a kind of exception names itself. -/
def attributeMessage (owner : Value) (name : String) : String :=
  match owner with
  | .kind k => "type object '" ++ k.label ++ "' has no attribute '" ++ name ++ "'"
  | v => "'" ++ v.typeName ++ "' object has no attribute '" ++ name ++ "'"

/-- The wording when a sequence is joined with something else. -/
def joinMessage (left right : String) : String :=
  if left = "bytes" then "can't concat " ++ right ++ " to bytes"
  else "can only concatenate " ++ left ++ " (not \"" ++ right ++ "\") to " ++ left

/-- An exception that says one sentence. -/
def saying (kind : ExnKind) (message : String) : ExnBody Value := .plain kind [.text message]

/-- The exception for a cause. -/
def body : ValueFault → ExnBody Value
  | notIterable t => saying .type ("'" ++ t ++ "' object is not iterable")
  | notCallable t => saying .type ("'" ++ t ++ "' object is not callable")
  | notSubscriptable t => saying .type ("'" ++ t ++ "' object is not subscriptable")
  | notSized t => saying .type ("object of type '" ++ t ++ "' has no len()")
  | unhashable t => saying .type ("unhashable type: '" ++ t ++ "'")
  | notText c =>
    saying .type ("sequence item " ++ toString c.index ++ ": expected str instance, " ++
      c.found ++ " found")
  | unordered o l r =>
    saying .type ("'" ++ o ++ "' not supported between instances of '" ++ l ++ "' and '" ++ r ++
      "'")
  | unsupported o l r =>
    saying .type ("unsupported operand type(s) for " ++ o ++ ": '" ++ l ++ "' and '" ++ r ++ "'")
  | notJoined l r => saying .type (joinMessage l r)
  | badRepeat t => saying .type ("can't multiply sequence by non-int of type '" ++ t ++ "'")
  | badPosition o t =>
    saying .type (positionNoun o ++ " indices must be integers" ++
      (if o = "str" then ", not '" ++ t ++ "'" else " or slices, not " ++ t))
  | outOfRange o => saying .index (rangeMessage o)
  | missingKey k => .plain .key [k]
  | noAttribute v n => saying .attribute (attributeMessage v n)
  | notException => saying .type "exceptions must derive from BaseException"
  | invalidException => saying .type "invalid exception object"
  | exhaustedFuture =>
    saying .type ("StopIteration interacts badly with generators and cannot be raised into a " ++
      "Future")
  | noLoop => saying .runtime "no running event loop"
  | loopClosed => saying .runtime "Event loop is closed"
  | foreignFuture => saying .runtime "the future is attached to a different loop"
  | stillRunning => saying .value "generator already executing"
  | notStarted => saying .type "can't send non-None value to a just-started generator"
  | nothingHandled => saying .runtime "No active exception to reraise"
  | ignoredClosing => saying .runtime "generator ignored GeneratorExit"
  | reawaited => saying .runtime "cannot reuse already awaited coroutine"
  | awaitedElsewhere => saying .runtime "coroutine is being awaited already"
  | tooManyArguments f n m =>
    saying .type (f ++ "() takes from 0 to " ++ toString n ++ " positional arguments but " ++
      toString m ++ " were given")
  | callShape message => saying .type message
  | notInteger t => saying .type ("'" ++ t ++ "' object cannot be interpreted as an integer")
  | tooWide => saying .overflow "Python int too large to convert to C ssize_t"
  | beyondPositions k => saying k "cannot fit 'int' into an index-sized integer"
  | beyondReals => saying .overflow "int too large to convert to float"
  | notCount =>
    saying .type "slice indices must be integers or None or have an __index__ method"
  | popFromEmpty => saying .index "pop from empty list"
  | popOutOfRange => saying .index "pop index out of range"
  | notInList => saying .value "list.remove(x): x not in list"
  | outOfSteps => saying .runtime "the program ran out of steps"

end ValueFault

/-- What a failed operation raises: an exception that is to be made, or one that
exists already and is passed on. -/
inductive Complaint where
  | make (body : ExnBody Value)
  | pass (e : Exn)

/-- The text of a value as a message embeds it, or the reason it has none. -/
def Value.embed (v : Value) : Except ValueFault String := v.toText.mapError .notText

end DescribedEffects
