import DmaQueues.Fault

/-!
# Queue ranges

A range holds the queue ids from `base` up to, not including, `base + count`.
Its end has to be a word, so the tests that look at it can fault.
-/

namespace DmaQueues

structure QueueRange where
  base : Nat
  count : Nat
  deriving DecidableEq, Repr

namespace QueueRange

/-- One past the last queue id. -/
def stop (r : QueueRange) : Checked Nat :=
  Checked.add r.base r.count

def contains (r : QueueRange) (qid : Nat) : Checked Bool :=
  if r.base ≤ qid then do return decide (qid < (← r.stop)) else return false

/-- `other` lies inside `r`. -/
def covers (r other : QueueRange) : Checked Bool :=
  if r.base ≤ other.base then do
    let otherStop ← other.stop
    let stop ← r.stop
    return decide (otherStop ≤ stop)
  else return false

def overlaps (r other : QueueRange) : Checked Bool := do
  let otherStop ← other.stop
  if r.base < otherStop then
    let stop ← r.stop
    return decide (other.base < stop)
  else return false

/-- The bounds as a half-open interval. -/
def text (r : QueueRange) : Checked String := do
  let stop ← r.stop
  return "[" ++ toString r.base ++ ", " ++ toString stop ++ ")"

end QueueRange

/-- Kinds of queues, counted apart for each function. -/
inductive QueueType where
  | h2c
  | c2h
  | cmpt
  deriving DecidableEq, Repr

def QueueType.all : List QueueType :=
  [h2c, c2h, cmpt]

def QueueType.name : QueueType → String
  | h2c => "H2c"
  | c2h => "C2h"
  | cmpt => "Cmpt"

/-- A board, known by the bus segment of its functions. -/
structure GroupKey where
  busStart : Nat
  busEnd : Nat
  deriving DecidableEq, Repr

end DmaQueues
