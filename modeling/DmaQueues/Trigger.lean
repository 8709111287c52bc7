/-!
# Trigger modes

When a completion ring reports to the host.
-/

namespace DmaQueues

inductive TriggerMode where
  | disabled
  | every
  | userCount
  | user
  | userTimer
  | userTimerCount
  deriving DecidableEq, Repr

namespace TriggerMode

/-- All modes in code order. -/
def all : List TriggerMode :=
  [disabled, every, userCount, user, userTimer, userTimerCount]

def code : TriggerMode → Nat
  | disabled => 0
  | every => 1
  | userCount => 2
  | user => 3
  | userTimer => 4
  | userTimerCount => 5

def ofCode? : Nat → Option TriggerMode
  | 0 => some disabled
  | 1 => some every
  | 2 => some userCount
  | 3 => some user
  | 4 => some userTimer
  | 5 => some userTimerCount
  | _ => none

/-- The highest code of a mode. -/
def maxCode : Nat :=
  userTimerCount.code

end TriggerMode

end DmaQueues
