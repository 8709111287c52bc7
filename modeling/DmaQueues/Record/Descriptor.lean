import DmaQueues.Record.Basic

/-!
# Records of descriptor queues

The software context holds what the host decides about a queue. The hardware
and credit contexts belong to the engine, and the host only reads them.
-/

namespace DmaQueues

/-- Ring geometry, mode bits and producer index of a descriptor queue. -/
structure SoftwareContext where
  /-- Producer index of the ring. -/
  producerIndex : UInt16 := 0
  /-- Interrupt on the next completed descriptor. -/
  interruptArmed : Bool := false
  /-- Owning function. -/
  functionId : UInt16 := 0
  /-- Queue enable. -/
  enabled : Bool := false
  /-- Descriptors are fetched against credits. -/
  fetchCredit : Bool := false
  /-- Writeback or interrupt after the pending check. -/
  pendingCheck : Bool := false
  /-- Writeback or interrupt at intervals. -/
  intervalCheck : Bool := false
  /-- Addresses reach the engine already translated. -/
  translated : Bool := false
  /-- Most descriptors fetched at once. -/
  fetchMax : UInt8 := 0
  /-- Index into the table of ring sizes. -/
  ringSize : UInt8 := 0
  /-- Code of the descriptor size. -/
  descriptorSize : UInt8 := 0
  /-- Descriptor bypass. -/
  bypass : Bool := false
  /-- Memory-mapped channel. -/
  channel : UInt8 := 0
  /-- Status writeback. -/
  writeback : Bool := false
  interruptEnabled : Bool := false
  /-- Streaming interface that the queue uses. -/
  portId : UInt8 := 0
  /-- No interrupt on the last descriptor. -/
  lastInterruptOff : Bool := false
  /-- Error status. -/
  error : UInt8 := 0
  /-- The error has been written back. -/
  errorReported : Bool := false
  interruptPending : Bool := false
  markerOff : Bool := false
  /-- Memory mapped rather than streaming. -/
  memoryMapped : Bool := false
  /-- Base address of the descriptor ring. -/
  ringBase : UInt64 := 0
  /-- Interrupt vector, or aggregation ring. -/
  vector : UInt16 := 0
  /-- Interrupts are aggregated. -/
  aggregation : Bool := false
  /-- No interrupts on virtual functions. -/
  functionInterruptOff : Bool := false
  virtio : Bool := false
  /-- Bypass output is packed. -/
  packBypass : Bool := false
  interruptBypass : Bool := false
  hostId : UInt8 := 0
  /-- Process address space. -/
  pasid : UInt32 := 0
  pasidEnabled : Bool := false
  /-- Base address of the virtio descriptors. -/
  virtioBase : UInt64 := 0
  deriving DecidableEq, Repr

/-- Fields of a `SoftwareContext`. -/
inductive SoftwareField where
  | producerIndex
  | interruptArmed
  | functionId
  | enabled
  | fetchCredit
  | pendingCheck
  | intervalCheck
  | translated
  | fetchMax
  | ringSize
  | descriptorSize
  | bypass
  | channel
  | writeback
  | interruptEnabled
  | portId
  | lastInterruptOff
  | error
  | errorReported
  | interruptPending
  | markerOff
  | memoryMapped
  | ringBase
  | vector
  | aggregation
  | functionInterruptOff
  | virtio
  | packBypass
  | interruptBypass
  | hostId
  | pasid
  | pasidEnabled
  | virtioBase
  deriving DecidableEq, Repr

/-- All fields in the order of the record. -/
def SoftwareField.all : List SoftwareField :=
  [producerIndex, interruptArmed, functionId, enabled, fetchCredit, pendingCheck, intervalCheck,
    translated, fetchMax, ringSize, descriptorSize, bypass, channel, writeback,
    interruptEnabled, portId, lastInterruptOff, error, errorReported, interruptPending, markerOff,
    memoryMapped, ringBase, vector, aggregation, functionInterruptOff, virtio, packBypass,
    interruptBypass, hostId, pasid, pasidEnabled, virtioBase]

instance : Fields SoftwareContext SoftwareField where
  get r
    | .producerIndex => r.producerIndex.toUInt64
    | .interruptArmed => r.interruptArmed.toUInt64
    | .functionId => r.functionId.toUInt64
    | .enabled => r.enabled.toUInt64
    | .fetchCredit => r.fetchCredit.toUInt64
    | .pendingCheck => r.pendingCheck.toUInt64
    | .intervalCheck => r.intervalCheck.toUInt64
    | .translated => r.translated.toUInt64
    | .fetchMax => r.fetchMax.toUInt64
    | .ringSize => r.ringSize.toUInt64
    | .descriptorSize => r.descriptorSize.toUInt64
    | .bypass => r.bypass.toUInt64
    | .channel => r.channel.toUInt64
    | .writeback => r.writeback.toUInt64
    | .interruptEnabled => r.interruptEnabled.toUInt64
    | .portId => r.portId.toUInt64
    | .lastInterruptOff => r.lastInterruptOff.toUInt64
    | .error => r.error.toUInt64
    | .errorReported => r.errorReported.toUInt64
    | .interruptPending => r.interruptPending.toUInt64
    | .markerOff => r.markerOff.toUInt64
    | .memoryMapped => r.memoryMapped.toUInt64
    | .ringBase => r.ringBase
    | .vector => r.vector.toUInt64
    | .aggregation => r.aggregation.toUInt64
    | .functionInterruptOff => r.functionInterruptOff.toUInt64
    | .virtio => r.virtio.toUInt64
    | .packBypass => r.packBypass.toUInt64
    | .interruptBypass => r.interruptBypass.toUInt64
    | .hostId => r.hostId.toUInt64
    | .pasid => r.pasid.toUInt64
    | .pasidEnabled => r.pasidEnabled.toUInt64
    | .virtioBase => r.virtioBase
  ofValues v :=
    { producerIndex := (v .producerIndex).toUInt16
      interruptArmed := v .interruptArmed != 0
      functionId := (v .functionId).toUInt16
      enabled := v .enabled != 0
      fetchCredit := v .fetchCredit != 0
      pendingCheck := v .pendingCheck != 0
      intervalCheck := v .intervalCheck != 0
      translated := v .translated != 0
      fetchMax := (v .fetchMax).toUInt8
      ringSize := (v .ringSize).toUInt8
      descriptorSize := (v .descriptorSize).toUInt8
      bypass := v .bypass != 0
      channel := (v .channel).toUInt8
      writeback := v .writeback != 0
      interruptEnabled := v .interruptEnabled != 0
      portId := (v .portId).toUInt8
      lastInterruptOff := v .lastInterruptOff != 0
      error := (v .error).toUInt8
      errorReported := v .errorReported != 0
      interruptPending := v .interruptPending != 0
      markerOff := v .markerOff != 0
      memoryMapped := v .memoryMapped != 0
      ringBase := v .ringBase
      vector := (v .vector).toUInt16
      aggregation := v .aggregation != 0
      functionInterruptOff := v .functionInterruptOff != 0
      virtio := v .virtio != 0
      packBypass := v .packBypass != 0
      interruptBypass := v .interruptBypass != 0
      hostId := (v .hostId).toUInt8
      pasid := (v .pasid).toUInt32
      pasidEnabled := v .pasidEnabled != 0
      virtioBase := v .virtioBase }

/-- Progress of the engine on a descriptor queue. -/
structure HardwareContext where
  consumerIndex : UInt16 := 0
  creditsUsed : UInt16 := 0
  descriptorPending : Bool := false
  /-- The queue has stopped. -/
  idle : Bool := false
  eventPending : Bool := false
  /-- Descriptor fetches under way. -/
  fetchPending : UInt8 := 0
  deriving DecidableEq, Repr

/-- Fields of a `HardwareContext`. -/
inductive HardwareField where
  | consumerIndex
  | creditsUsed
  | descriptorPending
  | idle
  | eventPending
  | fetchPending
  deriving DecidableEq, Repr

/-- All fields in the order of the record. -/
def HardwareField.all : List HardwareField :=
  [consumerIndex, creditsUsed, descriptorPending, idle, eventPending, fetchPending]

instance : Fields HardwareContext HardwareField where
  get r
    | .consumerIndex => r.consumerIndex.toUInt64
    | .creditsUsed => r.creditsUsed.toUInt64
    | .descriptorPending => r.descriptorPending.toUInt64
    | .idle => r.idle.toUInt64
    | .eventPending => r.eventPending.toUInt64
    | .fetchPending => r.fetchPending.toUInt64
  ofValues v :=
    { consumerIndex := (v .consumerIndex).toUInt16
      creditsUsed := (v .creditsUsed).toUInt16
      descriptorPending := v .descriptorPending != 0
      idle := v .idle != 0
      eventPending := v .eventPending != 0
      fetchPending := (v .fetchPending).toUInt8 }

/-- Fetch credits of a descriptor queue. -/
structure CreditContext where
  /-- Fetch credits. -/
  credit : UInt16 := 0
  deriving DecidableEq, Repr

/-- Fields of a `CreditContext`. -/
inductive CreditField where
  | credit
  deriving DecidableEq, Repr

/-- All fields in the order of the record. -/
def CreditField.all : List CreditField :=
  [credit]

instance : Fields CreditContext CreditField where
  get r
    | .credit => r.credit.toUInt64
  ofValues v :=
    { credit := (v .credit).toUInt16 }

end DmaQueues
