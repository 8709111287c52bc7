import DmaQueues.Allocation.Group

/-!
# The registry of queue groups

All groups of a host. A handle names a group by its index, which is never given
twice, so a handle of a destroyed group finds nothing. Every change of a group is
followed by a check of its invariant.
-/

namespace DmaQueues

structure GroupHandle where
  key : GroupKey
  index : Nat
  deriving DecidableEq, Repr

/-- Summary of a group. -/
structure GroupInfo where
  base : Nat
  total : Nat
  free : Nat
  active : Nat
  functions : Nat
  deriving DecidableEq, Repr

structure Registry where
  policy : RequestPolicy := .transactional
  groups : List Group := []
  /-- Index of the next group. -/
  next : Nat := 0
  deriving DecidableEq, Repr

namespace Registry

variable {α : Type}

def find? (r : Registry) (h : GroupHandle) : Option Group :=
  r.groups.find? fun g => g.index == h.index

/-! ## Groups -/

def refuse (r : Registry) (error : ResourceError) (notices : List Notice := []) :
    Reply Registry ResourceError α :=
  ⟨r, .error error, notices⟩

/-- Creates the group of a board, with `total` queues from `base` on. -/
def createGroup (r : Registry) (key : GroupKey) (base total : Nat) :
    Checked (Reply Registry ResourceError GroupHandle) := do
  if r.groups.any fun g => g.key == key then
    return r.refuse .alreadyExists
  else
    let index := r.next
    match ← Group.create key index base total with
    | .error error => return r.refuse error
    | .ok g =>
      let next ← Checked.add r.next 1
      return ⟨{ r with groups := r.groups ++ [g], next }, .ok ⟨key, index⟩,
        [.groupCreated index key ⟨base, total⟩]⟩

/-- Removes a group that has no functions. -/
def destroyGroup (r : Registry) (h : GroupHandle) : Reply Registry ResourceError Unit :=
  match r.find? h with
  | none => r.refuse .notFound
  | some g =>
    if !g.functions.isEmpty then r.refuse .notEmpty
    else ⟨{ r with groups := r.groups.filter fun g => g.index != h.index }, .ok (),
      [.groupDestroyed h.index]⟩

def findGroup (r : Registry) (key : GroupKey) : Option GroupHandle :=
  (r.groups.find? fun g => g.key == key).map fun g => ⟨key, g.index⟩

/-! ## Questions -/

/-- Asks the group of a handle. -/
def ask (r : Registry) (h : GroupHandle) (question : Group → Checked (Except ResourceError α)) :
    Checked (Except ResourceError α) :=
  match r.find? h with
  | none => return .error .notFound
  | some g => question g

/-- Asks a function of a group. -/
def askFunction (r : Registry) (h : GroupHandle) (id : UInt16)
    (question : FunctionEntry → Checked α) : Checked (Except ResourceError α) :=
  r.ask h fun g =>
    match g.find? id with
    | none => return .error .notFound
    | some entry => return .ok (← question entry)

def groupInfo (r : Registry) (h : GroupHandle) : Checked (Except ResourceError GroupInfo) :=
  r.ask h fun g => do
    let free ← g.free.freeCount
    return .ok ⟨g.whole.base, g.whole.count, free, g.active, g.functions.length⟩

def freeRanges (r : Registry) (h : GroupHandle) :
    Checked (Except ResourceError (List QueueRange)) :=
  r.ask h fun g => return .ok g.free.ranges

def checkInvariants (r : Registry) (h : GroupHandle) : Checked (Except ResourceError Bool) :=
  r.ask h fun g => return .ok (← g.checkInvariants)

/-- The range that a function holds. -/
def range (r : Registry) (h : GroupHandle) (id : UInt16) :
    Except ResourceError (Option QueueRange) :=
  match r.find? h with
  | none => .error .notFound
  | some g =>
    match g.find? id with
    | none => .error .notFound
    | some entry => .ok entry.range

/-- A queue lies in the range of a function. -/
def contains (r : Registry) (h : GroupHandle) (id : UInt16) (qid : Nat) : Checked Bool :=
  match r.range h id with
  | .ok (some range) => range.contains qid
  | _ => return false

def activeCount (r : Registry) (h : GroupHandle) : Checked (Except ResourceError Nat) :=
  r.ask h fun g => return .ok g.active

/-- Active queues of a function. -/
def functionActive (r : Registry) (h : GroupHandle) (id : UInt16) :
    Checked (Except ResourceError Nat) :=
  r.askFunction h id fun entry => entry.active.total

/-- Active queues of a function and a kind. -/
def activeQueues (r : Registry) (h : GroupHandle) (id : UInt16) (type : QueueType) :
    Checked (Except ResourceError Nat) :=
  r.askFunction h id fun entry => return entry.active.get type

/-! ## Changes -/

/-- `r` with the group of an index replaced. -/
def replace (r : Registry) (index : Nat) (g : Group) : Registry :=
  { r with groups := r.groups.map fun old => if old.index = index then g else old }

/-- Changes a group; one that breaks its invariant is a fault. -/
def update (r : Registry) (h : GroupHandle)
    (change : Group → Checked (Reply Group ResourceError α)) :
    Checked (Reply Registry ResourceError α) := do
  match r.find? h with
  | none => return r.refuse .notFound
  | some g =>
    let reply ← change g
    if ← reply.state.checkInvariants then
      return ⟨r.replace h.index reply.state, reply.result, reply.notices⟩
    else
      throw (.corruptedGroup h.index)

/-- Attaches a function without queues. -/
def createFunction (r : Registry) (h : GroupHandle) (id : UInt16) :
    Checked (Reply Registry ResourceError Unit) :=
  r.update h fun g => g.createFunction id

/-- Detaches a function that has no active queues. -/
def destroyFunction (r : Registry) (h : GroupHandle) (id : UInt16) :
    Checked (Reply Registry ResourceError Unit) :=
  r.update h fun g => g.destroyFunction id

/-- Gives a function another range, and says which. -/
def updateFunction (r : Registry) (h : GroupHandle) (id : UInt16) (count : Nat)
    (hint : Option Nat) : Checked (Reply Registry ResourceError (Option QueueRange)) :=
  r.update h fun g => g.requestRange id count hint r.policy

/-- Gives a function another range, and says where it begins. -/
def requestRange (r : Registry) (h : GroupHandle) (id : UInt16) (count : Nat)
    (hint : Option Nat) : Checked (Reply Registry ResourceError (Option Nat)) := do
  let reply ← r.updateFunction h id count hint
  return ⟨reply.state, reply.result.map (Option.map QueueRange.base), reply.notices⟩

def incrementActive (r : Registry) (h : GroupHandle) (id : UInt16) (type : QueueType) :
    Checked (Reply Registry ResourceError Unit) :=
  r.update h fun g => g.incrementActive id type

def decrementActive (r : Registry) (h : GroupHandle) (id : UInt16) (type : QueueType) :
    Checked (Reply Registry ResourceError Unit) :=
  r.update h fun g => g.decrementActive id type

end Registry

end DmaQueues
