import DmaQueues.Access
import DmaQueues.Queue.Config

/-!
# Attached devices

Attaching identifies the device, reads its attributes and, on physical functions
that ask for it, zeroes the contexts of every queue and the function maps.

A queue is started by clearing its contexts and writing them anew. The software
context holds the queue enable bit and is written last. Stopping invalidates the
same contexts and then clears them. A streaming card-to-host queue also owns the
prefetch and the completion context; a completion queue has only the latter.
-/

namespace DmaQueues

structure DeviceConfig where
  /-- Attach as a virtual function. -/
  isVirtual : Bool := false
  poll : Poll := {}
  /-- Zero the context memory while attaching. -/
  clearOnAttach : Bool := false
  deriving DecidableEq, Repr

structure Device where
  access : Access
  attributes : Attributes
  config : DeviceConfig
  deriving DecidableEq, Repr

namespace Device

/-- An access as a step of the queue lifecycle. -/
def lift {α : Type} (a : Action AccessError α) : Action QueueError α :=
  ExceptT.adapt QueueError.access a

def variant (d : Device) : Variant :=
  d.access.variant

def clear (d : Device) (selector : Selector) (qid : UInt16) : Action QueueError Unit :=
  lift (d.access.clear selector qid)

/-! ## Attaching -/

/-- The contexts of a queue that attaching clears, in order. -/
def queueContexts (streaming : Bool) : List Selector :=
  [.softwareH2c, .hardwareH2c, .creditH2c, .softwareC2h, .hardwareC2h, .creditC2h] ++
    if streaming then [.prefetch, .completion] else []

/-- Zeroes the contexts of every queue, then the function map of every physical function. -/
def initContextMemory (d : Device) : Action QueueError Unit := do
  let contexts := queueContexts d.attributes.streaming
  (List.range d.attributes.queueCount).forM fun qid =>
    contexts.forM fun selector => d.clear selector (UInt16.ofNat qid)
  (List.range d.attributes.functionCount).forM fun functionId =>
    d.clear .functionMap (UInt16.ofNat functionId)
  Script.notice (.memoryCleared d.attributes.queueCount)

def attach (config : DeviceConfig) : Action QueueError Device := do
  let access ← lift (Access.probe config.isVirtual config.poll)
  let attributes ← ExceptT.lift (Identification.readAttributes access.variant)
  Script.notice (.attached access.variant attributes)
  let d : Device := { access, attributes, config }
  if config.clearOnAttach then
    if config.isVirtual then
      Script.notice .clearSkipped
    else
      d.initContextMemory
  return d

/-! ## Function maps -/

/-- Refuses a value with bits that the layout cannot hold. A field that is not carried holds
anything. -/
def checkFits {F : Type} [DecidableEq F] (l : Layout F) (field : F) (value : UInt64) :
    Action QueueError Unit := do
  match l.segments? field with
  | some segs =>
    if value &&& ~~~Segments.coverage segs ≠ 0 then
      Script.notice (.valueTooWide value)
      throw (.access .invalidParameter)
  | none => pure ()

/-- Gives a function the hardware queues from `base` on. -/
def setFunctionMap (d : Device) (functionId base count : UInt16) : Action QueueError Unit := do
  let layout := FunctionMap.layout d.access.family
  checkFits layout .base base.toUInt64
  checkFits layout .count count.toUInt64
  lift (d.access.writeFunctionMap functionId { base, count })
  Script.notice (.functionMapSet functionId base count)

def functionMap (d : Device) (functionId : UInt16) : Action QueueError FunctionMap :=
  lift (d.access.readFunctionMap functionId)

/-! ## Queue contexts -/

def softwareContext (d : Device) (c : QueueConfig) : Action QueueError SoftwareContext := do
  let layout := SoftwareContext.layout d.access.family
  checkFits layout .ringBase c.ringBase
  checkFits layout .vector c.vector.toUInt64
  checkFits layout .functionId c.functionId.toUInt64
  return {
    interruptArmed := c.interrupts
    functionId := c.functionId
    enabled := true
    fetchCredit := c.fetchCredit
    pendingCheck := c.writeback
    ringSize := c.ringSize
    descriptorSize := c.descriptorSize
    bypass := c.descriptorBypass
    channel := c.channel
    writeback := c.writeback
    interruptEnabled := c.interrupts
    portId := c.portId
    memoryMapped := c.memoryMapped
    ringBase := c.ringBase
    vector := c.vector
    aggregation := c.aggregation }

def completionContext (d : Device) (c : QueueConfig) (cardToHost : Bool) :
    Action QueueError CompletionContext := do
  let layout := CompletionContext.layout d.access.family
  checkFits layout .ringBase c.completionBase
  checkFits layout .vector c.vector.toUInt64
  return {
    statusDescriptor := c.writeback
    interruptEnabled := c.interrupts
    triggerMode := UInt8.ofNat c.triggerMode.code
    functionId := c.functionId
    counter := c.counter
    timer := c.timer
    color := true
    ringSize := c.completionRingSize
    ringBase := c.completionBase
    descriptorSize := c.completionSize
    valid := true
    vector := c.vector
    aggregation := c.aggregation
    cardToHost }

def prefetchContext (c : QueueConfig) : PrefetchContext where
  bypass := c.prefetchBypass
  bufferSize := c.bufferSize
  portId := c.portId
  prefetchEnabled := c.prefetch
  valid := true

/-- Clears and writes the contexts of a descriptor queue. A card-to-host stream brings its
completion and prefetch records with it. -/
def programDescriptor (d : Device) (qid : UInt16) (dir : Direction) (software : SoftwareContext)
    (stream : Option (CompletionContext × PrefetchContext)) : Action QueueError Unit := do
  d.clear (.software dir) qid
  d.clear (.hardware dir) qid
  d.clear (.credit dir) qid
  match stream with
  | some (completion, prefetch) =>
    d.clear .prefetch qid
    d.clear .completion qid
    lift (d.access.writeCompletion qid completion)
    lift (d.access.writePrefetch qid prefetch)
  | none => pure ()
  lift (d.access.writeSoftware dir qid software)

/-- Brings up a descriptor queue. All its records are built before the first access. -/
def startDescriptor (d : Device) (qid : UInt16) (type : QueueType) (dir : Direction)
    (c : QueueConfig) : Action QueueError Unit := do
  let software ← d.softwareContext c
  if dir == .c2h && !c.memoryMapped then
    let completion ← d.completionContext c true
    d.programDescriptor qid dir software (some (completion, prefetchContext c))
  else
    d.programDescriptor qid dir software none
  Script.notice (.queueStarted qid type)

/-- Brings up a completion queue. -/
def startCompletion (d : Device) (qid : UInt16) (c : QueueConfig) : Action QueueError Unit := do
  let completion ← d.completionContext c false
  d.clear .completion qid
  lift (d.access.writeCompletion qid completion)

/-- Programs the contexts of a queue. After a failure the queue is left partly programmed. -/
def startQueue (d : Device) (qid : UInt16) (type : QueueType) (c : QueueConfig) :
    Action QueueError Unit := ExceptT.mk do
  let result ← match type with
    | .h2c => (d.startDescriptor qid type .h2c c).run
    | .c2h => (d.startDescriptor qid type .c2h c).run
    | .cmpt => (d.startCompletion qid c).run
  match result with
  | .ok () => return .ok ()
  | .error error =>
    Script.notice (.startFailed qid type error)
    return .error error

/-- The contexts that a queue owns. -/
def ownedContexts (type : QueueType) (memoryMapped : Bool) : List Selector :=
  match type with
  | .h2c => [.softwareH2c, .hardwareH2c, .creditH2c]
  | .c2h =>
    [.softwareC2h, .hardwareC2h, .creditC2h] ++
      if memoryMapped then [] else [.prefetch, .completion]
  | .cmpt => [.completion]

/-- Invalidates, then clears, the contexts of a queue. -/
def stopQueue (d : Device) (qid : UInt16) (type : QueueType) (memoryMapped : Bool) :
    Action QueueError Unit := do
  let contexts := ownedContexts type memoryMapped
  contexts.forM fun selector => lift (d.access.invalidate selector qid)
  contexts.forM fun selector => d.clear selector qid
  Script.notice (.queueStopped qid type)

end Device

end DmaQueues
