import DmaQueues.Record.Basic

/-!
# Records of the streaming path

The prefetch context steers the buffers of a card-to-host stream, the completion
context the ring that its completions are reported on.
-/

namespace DmaQueues

/-- Prefetch state of a card-to-host stream. -/
structure PrefetchContext where
  /-- Prefetch bypass. -/
  bypass : Bool := false
  /-- Index into the table of buffer sizes. -/
  bufferSize : UInt8 := 0
  /-- Streaming interface that the queue uses. -/
  portId : UInt8 := 0
  variableDescriptor : Bool := false
  virtio : Bool := false
  /-- Descriptors prefetched. -/
  prefetched : UInt8 := 0
  /-- Descriptors still needed. -/
  needed : UInt8 := 0
  error : Bool := false
  prefetchEnabled : Bool := false
  /-- The queue is in prefetch. -/
  inPrefetch : Bool := false
  softwareCredit : UInt16 := 0
  valid : Bool := false
  deriving DecidableEq, Repr

/-- Fields of a `PrefetchContext`. -/
inductive PrefetchField where
  | bypass
  | bufferSize
  | portId
  | variableDescriptor
  | virtio
  | prefetched
  | needed
  | error
  | prefetchEnabled
  | inPrefetch
  | softwareCredit
  | valid
  deriving DecidableEq, Repr

/-- All fields in the order of the record. -/
def PrefetchField.all : List PrefetchField :=
  [bypass, bufferSize, portId, variableDescriptor, virtio, prefetched, needed, error,
    prefetchEnabled, inPrefetch, softwareCredit, valid]

instance : Fields PrefetchContext PrefetchField where
  get r
    | .bypass => r.bypass.toUInt64
    | .bufferSize => r.bufferSize.toUInt64
    | .portId => r.portId.toUInt64
    | .variableDescriptor => r.variableDescriptor.toUInt64
    | .virtio => r.virtio.toUInt64
    | .prefetched => r.prefetched.toUInt64
    | .needed => r.needed.toUInt64
    | .error => r.error.toUInt64
    | .prefetchEnabled => r.prefetchEnabled.toUInt64
    | .inPrefetch => r.inPrefetch.toUInt64
    | .softwareCredit => r.softwareCredit.toUInt64
    | .valid => r.valid.toUInt64
  ofValues v :=
    { bypass := v .bypass != 0
      bufferSize := (v .bufferSize).toUInt8
      portId := (v .portId).toUInt8
      variableDescriptor := v .variableDescriptor != 0
      virtio := v .virtio != 0
      prefetched := (v .prefetched).toUInt8
      needed := (v .needed).toUInt8
      error := v .error != 0
      prefetchEnabled := v .prefetchEnabled != 0
      inPrefetch := v .inPrefetch != 0
      softwareCredit := (v .softwareCredit).toUInt16
      valid := v .valid != 0 }

/-- A completion ring and when it reports. -/
structure CompletionContext where
  /-- Status descriptors are written. -/
  statusDescriptor : Bool := false
  interruptEnabled : Bool := false
  /-- When completions are reported, 0 to 5. -/
  triggerMode : UInt8 := 0
  /-- Owning function. -/
  functionId : UInt16 := 0
  /-- Index into the table of counter thresholds. -/
  counter : UInt8 := 0
  /-- Index into the table of timers. -/
  timer : UInt8 := 0
  interruptState : UInt8 := 0
  /-- Color bit of the ring. -/
  color : Bool := false
  /-- Index into the table of ring sizes. -/
  ringSize : UInt8 := 0
  /-- Base address of the completion ring. -/
  ringBase : UInt64 := 0
  /-- Code of the entry size. -/
  descriptorSize : UInt8 := 0
  producerIndex : UInt16 := 0
  consumerIndex : UInt16 := 0
  valid : Bool := false
  error : UInt8 := 0
  userTriggerPending : Bool := false
  timerRunning : Bool := false
  fullUpdate : Bool := false
  overflowCheckOff : Bool := false
  /-- Addresses reach the engine already translated. -/
  translated : Bool := false
  /-- Interrupt vector, or aggregation ring. -/
  vector : UInt16 := 0
  /-- Interrupts are aggregated. -/
  aggregation : Bool := false
  /-- No interrupts on virtual functions. -/
  functionInterruptOff : Bool := false
  virtio : Bool := false
  /-- The ring serves a card-to-host queue. -/
  cardToHost : Bool := false
  hostId : UInt8 := 0
  /-- Process address space. -/
  pasid : UInt32 := 0
  pasidEnabled : Bool := false
  virtioEndOfPacket : Bool := false
  /-- The ring is shared. -/
  shared : Bool := false
  deriving DecidableEq, Repr

/-- Fields of a `CompletionContext`. -/
inductive CompletionField where
  | statusDescriptor
  | interruptEnabled
  | triggerMode
  | functionId
  | counter
  | timer
  | interruptState
  | color
  | ringSize
  | ringBase
  | descriptorSize
  | producerIndex
  | consumerIndex
  | valid
  | error
  | userTriggerPending
  | timerRunning
  | fullUpdate
  | overflowCheckOff
  | translated
  | vector
  | aggregation
  | functionInterruptOff
  | virtio
  | cardToHost
  | hostId
  | pasid
  | pasidEnabled
  | virtioEndOfPacket
  | shared
  deriving DecidableEq, Repr

/-- All fields in the order of the record. -/
def CompletionField.all : List CompletionField :=
  [statusDescriptor, interruptEnabled, triggerMode, functionId, counter, timer, interruptState,
    color, ringSize, ringBase, descriptorSize, producerIndex, consumerIndex, valid, error,
    userTriggerPending, timerRunning, fullUpdate, overflowCheckOff, translated, vector,
    aggregation, functionInterruptOff, virtio, cardToHost, hostId, pasid, pasidEnabled,
    virtioEndOfPacket, shared]

instance : Fields CompletionContext CompletionField where
  get r
    | .statusDescriptor => r.statusDescriptor.toUInt64
    | .interruptEnabled => r.interruptEnabled.toUInt64
    | .triggerMode => r.triggerMode.toUInt64
    | .functionId => r.functionId.toUInt64
    | .counter => r.counter.toUInt64
    | .timer => r.timer.toUInt64
    | .interruptState => r.interruptState.toUInt64
    | .color => r.color.toUInt64
    | .ringSize => r.ringSize.toUInt64
    | .ringBase => r.ringBase
    | .descriptorSize => r.descriptorSize.toUInt64
    | .producerIndex => r.producerIndex.toUInt64
    | .consumerIndex => r.consumerIndex.toUInt64
    | .valid => r.valid.toUInt64
    | .error => r.error.toUInt64
    | .userTriggerPending => r.userTriggerPending.toUInt64
    | .timerRunning => r.timerRunning.toUInt64
    | .fullUpdate => r.fullUpdate.toUInt64
    | .overflowCheckOff => r.overflowCheckOff.toUInt64
    | .translated => r.translated.toUInt64
    | .vector => r.vector.toUInt64
    | .aggregation => r.aggregation.toUInt64
    | .functionInterruptOff => r.functionInterruptOff.toUInt64
    | .virtio => r.virtio.toUInt64
    | .cardToHost => r.cardToHost.toUInt64
    | .hostId => r.hostId.toUInt64
    | .pasid => r.pasid.toUInt64
    | .pasidEnabled => r.pasidEnabled.toUInt64
    | .virtioEndOfPacket => r.virtioEndOfPacket.toUInt64
    | .shared => r.shared.toUInt64
  ofValues v :=
    { statusDescriptor := v .statusDescriptor != 0
      interruptEnabled := v .interruptEnabled != 0
      triggerMode := (v .triggerMode).toUInt8
      functionId := (v .functionId).toUInt16
      counter := (v .counter).toUInt8
      timer := (v .timer).toUInt8
      interruptState := (v .interruptState).toUInt8
      color := v .color != 0
      ringSize := (v .ringSize).toUInt8
      ringBase := v .ringBase
      descriptorSize := (v .descriptorSize).toUInt8
      producerIndex := (v .producerIndex).toUInt16
      consumerIndex := (v .consumerIndex).toUInt16
      valid := v .valid != 0
      error := (v .error).toUInt8
      userTriggerPending := v .userTriggerPending != 0
      timerRunning := v .timerRunning != 0
      fullUpdate := v .fullUpdate != 0
      overflowCheckOff := v .overflowCheckOff != 0
      translated := v .translated != 0
      vector := (v .vector).toUInt16
      aggregation := v .aggregation != 0
      functionInterruptOff := v .functionInterruptOff != 0
      virtio := v .virtio != 0
      cardToHost := v .cardToHost != 0
      hostId := (v .hostId).toUInt8
      pasid := (v .pasid).toUInt32
      pasidEnabled := v .pasidEnabled != 0
      virtioEndOfPacket := v .virtioEndOfPacket != 0
      shared := v .shared != 0 }

end DmaQueues
