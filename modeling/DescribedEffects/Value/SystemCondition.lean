/-!
# Conditions of the operating system

A failure that the operating system reports carries a number and a reason.  Some of
the numbers stand for a condition that has a name of its own, and a failure with such
a number is an instance of that condition.  The numbers are those of Linux.
-/

namespace DescribedEffects

/-- The conditions that have a name. -/
inductive SystemCondition where
  | blocking
  | brokenPipe
  | noChild
  | aborted
  | refused
  | reset
  | present
  | absent
  | directory
  | noDirectory
  | interrupted
  | forbidden
  | noProcess
  | timeout
  deriving DecidableEq, Repr

namespace SystemCondition

/-- The condition that a number stands for. -/
def ofNumber? : Int → Option SystemCondition
  | 1 | 13 => some .forbidden
  | 2 => some .absent
  | 3 => some .noProcess
  | 4 => some .interrupted
  | 10 => some .noChild
  | 11 | 114 | 115 => some .blocking
  | 17 => some .present
  | 20 => some .noDirectory
  | 21 => some .directory
  | 32 | 108 => some .brokenPipe
  | 103 => some .aborted
  | 104 => some .reset
  | 110 => some .timeout
  | 111 => some .refused
  | _ => none

/-- The name a condition is written with. -/
def label : SystemCondition → String
  | blocking => "BlockingIOError"
  | brokenPipe => "BrokenPipeError"
  | noChild => "ChildProcessError"
  | aborted => "ConnectionAbortedError"
  | refused => "ConnectionRefusedError"
  | reset => "ConnectionResetError"
  | present => "FileExistsError"
  | absent => "FileNotFoundError"
  | directory => "IsADirectoryError"
  | noDirectory => "NotADirectoryError"
  | interrupted => "InterruptedError"
  | forbidden => "PermissionError"
  | noProcess => "ProcessLookupError"
  | timeout => "TimeoutError"

/-- The number, or one of the numbers, of a condition. -/
def number : SystemCondition → Int
  | blocking => 11
  | brokenPipe => 32
  | noChild => 10
  | aborted => 103
  | refused => 111
  | reset => 104
  | present => 17
  | absent => 2
  | directory => 21
  | noDirectory => 20
  | interrupted => 4
  | forbidden => 13
  | noProcess => 3
  | timeout => 110

@[simp] theorem ofNumber?_number (c : SystemCondition) : ofNumber? c.number = some c := by
  cases c <;> rfl

end SystemCondition
end DescribedEffects
