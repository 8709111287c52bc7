import DmaQueues.Allocation.Registry
import DmaQueues.Queue.Device

/-!
# Queue managers

A manager runs the queues of one function. Each started queue has a slot in its
table and counts as active in the registry, which keeps the range of the function
in place until the queue is stopped.

Its operations take the registry and give it back with the table and the result.
-/

namespace DmaQueues

structure StartedQueue where
  qid : UInt16
  type : QueueType
  memoryMapped : Bool
  deriving DecidableEq, Repr

/-- A place in the table. It is taken before the queue is programmed and runs afterwards. -/
structure Slot where
  queue : StartedQueue
  running : Bool
  deriving DecidableEq, Repr

def Slot.holds (s : Slot) (qid : UInt16) (type : QueueType) : Bool :=
  s.queue.qid == qid && s.queue.type == type

structure Manager where
  group : GroupHandle
  functionId : UInt16
  slots : List Slot := []
  deriving DecidableEq, Repr

/-- A manager and the registry that it works with. -/
structure Desk where
  registry : Registry
  manager : Manager
  deriving DecidableEq, Repr

namespace Manager

/-- The manager of a function, which the registry has to know. -/
def forFunction (registry : Registry) (group : GroupHandle) (functionId : UInt16) :
    Except QueueError Manager :=
  match registry.range group functionId with
  | .ok _ => .ok { group, functionId }
  | .error error => .error (.resource error)

/-- Slots without the one at `index`, whose place the last slot takes. -/
def swapRemove (slots : List Slot) (index : Nat) : List Slot :=
  match slots.getLast? with
  | some last => (slots.set index last).dropLast
  | none => []

/-- Removes the slot of a queue. -/
def release (m : Manager) (qid : UInt16) (type : QueueType) : Manager :=
  match m.slots.findIdx? fun s => s.holds qid type with
  | some index => { m with slots := swapRemove m.slots index }
  | none => m

/-- Sets whether the slot of a queue is running. -/
def mark (m : Manager) (qid : UInt16) (type : QueueType) (running : Bool) : Manager :=
  { m with slots := m.slots.map fun s => if s.holds qid type then { s with running } else s }

/-- The running queues, in table order. -/
def started (m : Manager) : List StartedQueue :=
  (m.slots.filter Slot.running).map Slot.queue

def isStarted (m : Manager) (qid : Nat) (type : QueueType) : Bool :=
  m.slots.any fun s => s.running && s.queue.qid.toNat == qid && s.queue.type == type

end Manager

namespace Desk

variable {α : Type}

/-- The range of the function. -/
def range (desk : Desk) : Except QueueError (Option QueueRange) :=
  (desk.registry.range desk.manager.group desk.manager.functionId).mapError .resource

/-- Runs a change of the registry, with its notices. -/
def change (desk : Desk) (reply : Checked (Reply Registry ResourceError α)) :
    Script (Desk × Except ResourceError α) := do
  let reply ← reply
  Script.notices reply.notices
  return ({ desk with registry := reply.state }, reply.result)

def update (desk : Desk) (count : Nat) (hint : Option Nat) :
    Script (Desk × Except ResourceError (Option QueueRange)) :=
  desk.change
    (desk.registry.updateFunction desk.manager.group desk.manager.functionId count hint)

/-! ## The range of the function -/

/-- Points the function map at a range, whose bounds have to be 16-bit words. -/
def programMap (d : Device) (functionId : UInt16) (range : Option QueueRange) :
    Action QueueError Unit :=
  match range with
  | none => d.setFunctionMap functionId 0 0
  | some r =>
    if r.base < UInt16.size ∧ r.count < UInt16.size then
      d.setFunctionMap functionId (UInt16.ofNat r.base) (UInt16.ofNat r.count)
    else
      throw .notInRange

/-- Asks for the range that the function had before. -/
def restore (desk : Desk) (before : Option QueueRange) : Script Desk := do
  let functionId := desk.manager.functionId
  let (desk, result) ← match before with
    | some r => desk.update r.count (some r.base)
    | none => desk.update 0 none
  match result with
  | .ok now =>
    if now = before then
      return desk
    else
      Script.notice (.rangeNotRestored functionId before now)
      return desk
  | .error error =>
    Script.notice (.rangeRestoreFailed functionId before error)
    return desk

/-- Gives the function `count` queues and points its function map at them. If the map cannot be set,
the range goes back to what it was. -/
def setRange (d : Device) (desk : Desk) (count : Nat) (hint : Option Nat) :
    Script (Desk × Except QueueError (Option QueueRange)) := do
  match desk.range with
  | .error error => return (desk, .error error)
  | .ok before =>
    match ← desk.update count hint with
    | (desk, .error error) => return (desk, .error (.resource error))
    | (desk, .ok range) =>
      match ← (programMap d desk.manager.functionId range).run with
      | .ok () => return (desk, .ok range)
      | .error error => return (← desk.restore before, .error error)

/-! ## Queues -/

/-- Drops the active count of a queue. A refusal is only noticed. -/
def dropActive (desk : Desk) (qid : UInt16) (type : QueueType) : Script Desk := do
  let m := desk.manager
  match ← desk.change (desk.registry.decrementActive m.group m.functionId type) with
  | (desk, .ok ()) => return desk
  | (desk, .error error) =>
    Script.notice (.countNotReleased m.functionId qid type error)
    return desk

/-- Counts the queue as active and programs it; if that fails it counts no more. -/
def program (d : Device) (desk : Desk) (qid : UInt16) (type : QueueType) (c : QueueConfig) :
    Script (Desk × Except QueueError Unit) := do
  let m := desk.manager
  match ← desk.change (desk.registry.incrementActive m.group m.functionId type) with
  | (desk, .error error) => return (desk, .error (.resource error))
  | (desk, .ok ()) =>
    match ← (d.startQueue qid type { c with functionId := m.functionId }).run with
    | .ok () => return (desk, .ok ())
    | .error error => return (← desk.dropActive qid type, .error error)

/-- The queue id as a hardware id, if it lies in the range of the function. -/
def checkRange (desk : Desk) (qid : Nat) : Action QueueError UInt16 := do
  let m := desk.manager
  if ← desk.registry.contains m.group m.functionId qid then
    if qid < UInt16.size then return UInt16.ofNat qid else throw .notInRange
  else
    Script.notice (.queueOutsideRange m.functionId qid)
    throw .notInRange

/-- Starts a queue of the function. Its slot is taken first and given back on a failure. -/
def start (d : Device) (desk : Desk) (hwQid : Nat) (type : QueueType) (c : QueueConfig) :
    Script (Desk × Except QueueError Unit) := do
  match ← (desk.checkRange hwQid).run with
  | .error error => return (desk, .error error)
  | .ok qid =>
    let m := desk.manager
    if m.slots.any fun s => s.holds qid type then
      return (desk, .error .alreadyStarted)
    else
      let slot : Slot := ⟨⟨qid, type, c.memoryMapped⟩, false⟩
      let taken := { desk with manager := { m with slots := m.slots ++ [slot] } }
      match ← program d taken qid type c with
      | (desk, .ok ()) =>
        return ({ desk with manager := desk.manager.mark qid type true }, .ok ())
      | (desk, .error error) =>
        return ({ desk with manager := desk.manager.release qid type }, .error error)

/-- Stops a queue. It counts as active no more, even if its contexts could not be cleared. -/
def stop (d : Device) (desk : Desk) (hwQid : Nat) (type : QueueType) :
    Script (Desk × Except QueueError Unit) := do
  if hwQid < UInt16.size then
    let qid := UInt16.ofNat hwQid
    match desk.manager.slots.find? fun s => s.running && s.holds qid type with
    | none => return (desk, .error .notStarted)
    | some slot =>
      let stopping := { desk with manager := desk.manager.mark qid type false }
      let result ← (d.stopQueue qid type slot.queue.memoryMapped).run
      let desk ← stopping.dropActive qid type
      return ({ desk with manager := desk.manager.release qid type }, result)
  else
    return (desk, .error .notStarted)

/-- Stops queues one after the other; the first error is kept. -/
def stopEach (d : Device) (desk : Desk) : List StartedQueue →
    Script (Desk × Except QueueError Unit)
  | [] => return (desk, .ok ())
  | q :: rest => do
    let (desk, first) ← stop d desk q.qid.toNat q.type
    let (desk, later) ← stopEach d desk rest
    match first with
    | .ok () => return (desk, later)
    | .error error => return (desk, .error error)

/-- Stops all running queues. -/
def stopAll (d : Device) (desk : Desk) : Script (Desk × Except QueueError Unit) :=
  stopEach d desk desk.manager.started

end Desk

end DmaQueues
