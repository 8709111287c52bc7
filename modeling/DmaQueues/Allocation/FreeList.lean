import DmaQueues.Notice

/-!
# The free list

The free queue ranges of a group, ascending by base. `WellFormed` lists keep their
ranges apart: none is empty, and each ends before the next begins, so no two touch.
`insert` merges what touches, `take` splits the range that holds the wanted one,
and `find` prefers a hinted place over the best fit.
-/

namespace DmaQueues

structure FreeList where
  ranges : List QueueRange := []
  deriving DecidableEq, Repr

namespace FreeList

/-! ## Views -/

/-- The queue ids that are free. -/
def Mem (qid : Nat) (l : FreeList) : Prop :=
  ∃ r ∈ l.ranges, r.base ≤ qid ∧ qid < r.base + r.count

/-- Sorted, with no empty range and no two that overlap or touch. -/
def WellFormed (l : FreeList) : Prop :=
  (∀ r ∈ l.ranges, 0 < r.count) ∧ l.ranges.Pairwise fun a b => a.base + a.count < b.base

/-- Each range ends before the next one begins. -/
def apart : List QueueRange → Checked Bool
  | a :: b :: rest => do
    if (← a.stop) < b.base then apart (b :: rest) else return false
  | _ => return true

def isWellFormed (l : FreeList) : Checked Bool :=
  if l.ranges.all fun r => decide (0 < r.count) then apart l.ranges else return false

/-- Free queues in all. -/
def freeCount (l : FreeList) : Checked Nat :=
  Checked.sum (l.ranges.map QueueRange.count)

/-! ## Returning a range -/

/-- `range` before the first range with a greater base. -/
def place (range : QueueRange) : List QueueRange → List QueueRange
  | [] => [range]
  | r :: rest => if range.base < r.base then range :: r :: rest else r :: place range rest

/-- Joins `last` with the ranges that follow it, where one ends as the next begins. -/
def mergeFrom (last : QueueRange) : List QueueRange → Checked (List QueueRange)
  | [] => return [last]
  | r :: rest => do
    if (← last.stop) = r.base then
      mergeFrom ⟨last.base, ← Checked.add last.count r.count⟩ rest
    else
      return last :: (← mergeFrom r rest)

def merge : List QueueRange → Checked (List QueueRange)
  | [] => return []
  | r :: rest => mergeFrom r rest

/-- Returns `range` to the list; an empty range is nothing to return. -/
def insert (l : FreeList) (range : QueueRange) : Checked FreeList := do
  if range.count = 0 then
    return l
  else
    return ⟨← merge (place range l.ranges)⟩

def ofRange (range : QueueRange) : Checked FreeList :=
  insert {} range

/-! ## Choosing a range -/

/-- Index of the first range that covers `want`. -/
def indexCovering (want : QueueRange) : List QueueRange → Checked (Option Nat)
  | [] => return none
  | r :: rest => do
    if ← r.covers want then
      return some 0
    else
      return (← indexCovering want rest).map (· + 1)

/-- Index of the range that holds `count` ids from `base` on. -/
def findContaining (l : FreeList) (base count : Nat) : Checked (Option Nat) :=
  if base + count < wordLimit then indexCovering ⟨base, count⟩ l.ranges else return none

/-- The smallest range of at least `count` ids, and its index; the last of equally small ones. -/
def bestFit (l : FreeList) (count : Nat) : Option (QueueRange × Nat) :=
  l.ranges.zipIdx.foldl
    (fun best entry =>
      if entry.1.count < count then best
      else match best with
        | some b => if b.1.count < entry.1.count then best else some entry
        | none => some entry)
    none

/-- A place for `count` queues: at the hint if it is free there, otherwise the best fit. A hint that
is not free is noticed. -/
def find (l : FreeList) (count : Nat) (hint : Option Nat) :
    Checked (Option QueueRange × List Notice) := do
  let fit := (l.bestFit count).map fun best => (⟨best.1.base, count⟩ : QueueRange)
  match hint with
  | none => return (fit, [])
  | some base =>
    if (← l.findContaining base count).isSome then
      return (some ⟨base, count⟩, [])
    else
      return (fit, [.hintNotFree base count])

/-! ## Taking a range -/

/-- What is left of `node` before and after `want`, which lies inside. -/
def remainders (node want : QueueRange) : Checked (List QueueRange) := do
  let head : QueueRange := ⟨node.base, ← Checked.sub want.base node.base⟩
  let wantStop ← want.stop
  let tail : QueueRange := ⟨wantStop, ← Checked.sub (← node.stop) wantStop⟩
  return [head, tail].filter fun r => r.count != 0

/-- The list without `want`, if one of its ranges holds it. -/
def takeFrom (want : QueueRange) : List QueueRange → Checked (Option (List QueueRange))
  | [] => return none
  | r :: rest => do
    if ← r.covers want then
      return some ((← remainders r want) ++ rest)
    else
      return (← takeFrom want rest).map (r :: ·)

/-- Removes `want` from the range that holds it. -/
def take (l : FreeList) (want : QueueRange) : Checked (Except ResourceError FreeList) := do
  if want.base + want.count < wordLimit then
    match ← takeFrom want l.ranges with
    | some ranges => return .ok ⟨ranges⟩
    | none => return .error .noQueuesLeft
  else
    return .error .noQueuesLeft

end FreeList

end DmaQueues
