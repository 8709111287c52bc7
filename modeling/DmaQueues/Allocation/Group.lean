import DmaQueues.Allocation.FreeList

/-!
# Queue groups

A group is the queue space of a board: the free list, and the functions that
share it with the range and the active queues of each. An operation gives a
`Reply`, the group afterwards beside the result, since a failed operation may
leave a group behind as well.

While a function has active queues its range does not change.
-/

namespace DmaQueues

/-- What an operation gives back: the state afterwards, the result and the notices. -/
structure Reply (σ ε α : Type) where
  state : σ
  result : Except ε α
  notices : List Notice := []

/-- What happens to the range of a function that asks for another one. -/
inductive RequestPolicy where
  /-- It is released first, and taken back if the request fails. -/
  | releaseFirst
  /-- It is kept until the request is known to succeed. -/
  | transactional
  deriving DecidableEq, Repr

def RequestPolicy.all : List RequestPolicy :=
  [releaseFirst, transactional]

/-- Active queues of a function by kind. -/
structure ActiveCounts where
  h2c : Nat := 0
  c2h : Nat := 0
  cmpt : Nat := 0
  deriving DecidableEq, Repr

namespace ActiveCounts

def get (c : ActiveCounts) : QueueType → Nat
  | .h2c => c.h2c
  | .c2h => c.c2h
  | .cmpt => c.cmpt

def set (c : ActiveCounts) (type : QueueType) (n : Nat) : ActiveCounts :=
  match type with
  | .h2c => { c with h2c := n }
  | .c2h => { c with c2h := n }
  | .cmpt => { c with cmpt := n }

def total (c : ActiveCounts) : Checked Nat :=
  Checked.sum [c.h2c, c.c2h, c.cmpt]

end ActiveCounts

/-- A function of a group. -/
structure FunctionEntry where
  id : UInt16
  range : Option QueueRange := none
  active : ActiveCounts := {}
  deriving DecidableEq, Repr

structure Group where
  key : GroupKey
  /-- Index of the board, given at creation. -/
  index : Nat
  /-- The whole queue space. -/
  whole : QueueRange
  free : FreeList
  functions : List FunctionEntry := []
  /-- Active queues of all functions. -/
  active : Nat := 0
  deriving DecidableEq, Repr

namespace Group

variable {α : Type}

/-- A group with all its queues free. The space has to be a non-empty range of words. -/
def create (key : GroupKey) (index base total : Nat) : Checked (Except ResourceError Group) := do
  if total = 0 ∨ base + total ≥ wordLimit then
    return .error .invalidParameter
  else
    let whole : QueueRange := ⟨base, total⟩
    return .ok { key, index, whole, free := ← FreeList.ofRange whole }

def find? (g : Group) (id : UInt16) : Option FunctionEntry :=
  g.functions.find? fun f => f.id == id

/-- `g` with the entry of one function changed. -/
def modify (g : Group) (id : UInt16) (f : FunctionEntry → FunctionEntry) : Group :=
  { g with functions := g.functions.map fun e => if e.id = id then f e else e }

def setRange (g : Group) (id : UInt16) (range : Option QueueRange) : Group :=
  g.modify id fun e => { e with range }

/-- A refusal that leaves the group as it is. -/
def refuse (g : Group) (error : ResourceError) (notices : List Notice := []) :
    Reply Group ResourceError α :=
  ⟨g, .error error, notices⟩

def createFunction (g : Group) (id : UInt16) : Checked (Reply Group ResourceError Unit) :=
  if (g.find? id).isSome then return g.refuse .alreadyExists
  else return ⟨{ g with functions := g.functions ++ [{ id }] }, .ok (), []⟩

/-- Detaches a function and frees its range. -/
def destroyFunction (g : Group) (id : UInt16) : Checked (Reply Group ResourceError Unit) := do
  match g.find? id with
  | none => return g.refuse .notFound
  | some entry =>
    let active ← entry.active.total
    if active ≠ 0 then
      return g.refuse .qmaxChangeRejected [.destroyRejected id active]
    else
      let free ← match entry.range with
        | some range => g.free.insert range
        | none => pure g.free
      return ⟨{ g with free, functions := g.functions.filter fun e => e.id != id }, .ok (), []⟩

/-- Plans on the free list with the old range returned, and changes the group only on success. -/
def requestTransactional (g : Group) (id : UInt16) (old : Option QueueRange) (count : Nat)
    (hint : Option Nat) : Checked (Reply Group ResourceError (Option QueueRange)) := do
  let plan ← match old with
    | some range => g.free.insert range
    | none => pure g.free
  if count = 0 then
    return ⟨{ g with free := plan }.setRange id none, .ok none, []⟩
  else
    match ← plan.find count hint with
    | (none, notices) => return g.refuse .noQueuesLeft (notices ++ [.noRoom id count])
    | (some want, notices) =>
      match ← plan.take want with
      | .error error => return g.refuse error notices
      | .ok free => return ⟨{ g with free }.setRange id (some want), .ok (some want), notices⟩

/-- Takes the old range back after a failed request, if it can be had. -/
def takeBack (g : Group) (id : UInt16) (old : Option QueueRange) (notices : List Notice) :
    Checked (Reply Group ResourceError (Option QueueRange)) := do
  match old with
  | none => return g.refuse .noQueuesLeft notices
  | some range =>
    match ← g.free.take range with
    | .ok free => return { g with free }.setRange id (some range) |>.refuse .noQueuesLeft notices
    | .error _ => return g.refuse .noQueuesLeft (notices ++ [.restoreImpossible id range])

/-- Returns the old range to the group before it looks for the new one. -/
def requestReleaseFirst (g : Group) (id : UInt16) (old : Option QueueRange) (count : Nat)
    (hint : Option Nat) : Checked (Reply Group ResourceError (Option QueueRange)) := do
  let g ← match old with
    | some range => do
      let free ← g.free.insert range
      pure ({ g with free }.setRange id none)
    | none => pure g
  if count = 0 then
    return ⟨g, .ok none, []⟩
  else
    match ← g.free.find count hint with
    | (none, notices) => g.takeBack id old notices
    | (some want, notices) =>
      match ← g.free.take want with
      | .ok free => return ⟨{ g with free }.setRange id (some want), .ok (some want), notices⟩
      | .error _ => g.takeBack id old notices

/-- Gives a function `count` queues in place of its range, at the hint if it is free. -/
def requestRange (g : Group) (id : UInt16) (count : Nat) (hint : Option Nat)
    (policy : RequestPolicy) : Checked (Reply Group ResourceError (Option QueueRange)) := do
  match g.find? id with
  | none => return g.refuse .notFound
  | some entry =>
    let active ← entry.active.total
    if active ≠ 0 then
      return g.refuse .qmaxChangeRejected [.changeRejected id active]
    else
      match policy with
      | .transactional => g.requestTransactional id entry.range count hint
      | .releaseFirst => g.requestReleaseFirst id entry.range count hint

/-- Counts one more active queue. A function has at most as many as its range holds. -/
def incrementActive (g : Group) (id : UInt16) (type : QueueType) :
    Checked (Reply Group ResourceError Unit) := do
  match g.find? id with
  | none => return g.refuse .notFound
  | some entry =>
    match entry.range with
    | none => return g.refuse .notFound
    | some range =>
      if (← Checked.add (← entry.active.total) 1) > range.count then
        return g.refuse .noQueuesLeft
      else
        let count ← Checked.add (entry.active.get type) 1
        let active ← Checked.add g.active 1
        let g := g.modify id fun e => { e with active := e.active.set type count }
        return ⟨{ g with active }, .ok (), []⟩

/-- Counts one active queue less; at zero nothing changes. -/
def decrementActive (g : Group) (id : UInt16) (type : QueueType) :
    Checked (Reply Group ResourceError Unit) :=
  match g.find? id with
  | none => return g.refuse .notFound
  | some entry =>
    let count := entry.active.get type
    if count = 0 then
      return ⟨g, .ok (), []⟩
    else
      let g := g.modify id fun e => { e with active := e.active.set type (count - 1) }
      return ⟨{ g with active := g.active - 1 }, .ok (), []⟩

/-! ## The invariant -/

/-- The free ranges and the ranges that functions hold. -/
def pieces (g : Group) : List QueueRange :=
  g.free.ranges ++ g.functions.filterMap FunctionEntry.range

/-- `test` holds of all elements; the first that fails ends the search. -/
def allChecked (test : α → Checked Bool) : List α → Checked Bool
  | [] => return true
  | a :: rest => do
    if ← test a then allChecked test rest else return false

/-- No two ranges overlap. -/
def disjoint : List QueueRange → Checked Bool
  | [] => return true
  | a :: rest => do
    if ← allChecked (fun b => return !(← a.overlaps b)) rest then disjoint rest
    else return false

/-- The free list is well formed; free and held ranges are not empty, lie inside the group, do not
overlap and cover it; and the active queues of the functions add up. -/
def checkInvariants (g : Group) : Checked Bool := do
  if !(← g.free.isWellFormed) then
    return false
  else if !(← allChecked
      (fun r => if 0 < r.count then g.whole.covers r else return false) g.pieces) then
    return false
  else if !(← disjoint g.pieces) then
    return false
  else
    let covered := g.pieces.foldl (fun n r => n + r.count) 0
    let totals ← g.functions.mapM fun f => f.active.total
    let active ← Checked.sum totals
    return covered == g.whole.count && active == g.active

end Group

end DmaQueues
