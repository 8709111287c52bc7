import DmaQueues.Record.Basic

/-!
# Records of a function

Interrupt aggregation rings, and the map from a function to its queues.
-/

namespace DmaQueues

/-- An interrupt aggregation ring. -/
structure InterruptContext where
  valid : Bool := false
  vector : UInt16 := 0
  interruptState : Bool := false
  /-- Color bit of the ring. -/
  color : Bool := false
  /-- Base address of the ring, 4 KiB aligned. -/
  ringBase : UInt64 := 0
  /-- Code of the ring size in pages. -/
  pageSize : UInt8 := 0
  producerIndex : UInt16 := 0
  /-- Addresses reach the engine already translated. -/
  translated : Bool := false
  hostId : UInt8 := 0
  /-- Process address space. -/
  pasid : UInt32 := 0
  pasidEnabled : Bool := false
  /-- Owning function. -/
  functionId : UInt16 := 0
  deriving DecidableEq, Repr

/-- Fields of an `InterruptContext`. -/
inductive InterruptField where
  | valid
  | vector
  | interruptState
  | color
  | ringBase
  | pageSize
  | producerIndex
  | translated
  | hostId
  | pasid
  | pasidEnabled
  | functionId
  deriving DecidableEq, Repr

/-- All fields in the order of the record. -/
def InterruptField.all : List InterruptField :=
  [valid, vector, interruptState, color, ringBase, pageSize, producerIndex, translated,
    hostId, pasid, pasidEnabled, functionId]

instance : Fields InterruptContext InterruptField where
  get r
    | .valid => r.valid.toUInt64
    | .vector => r.vector.toUInt64
    | .interruptState => r.interruptState.toUInt64
    | .color => r.color.toUInt64
    | .ringBase => r.ringBase
    | .pageSize => r.pageSize.toUInt64
    | .producerIndex => r.producerIndex.toUInt64
    | .translated => r.translated.toUInt64
    | .hostId => r.hostId.toUInt64
    | .pasid => r.pasid.toUInt64
    | .pasidEnabled => r.pasidEnabled.toUInt64
    | .functionId => r.functionId.toUInt64
  ofValues v :=
    { valid := v .valid != 0
      vector := (v .vector).toUInt16
      interruptState := v .interruptState != 0
      color := v .color != 0
      ringBase := v .ringBase
      pageSize := (v .pageSize).toUInt8
      producerIndex := (v .producerIndex).toUInt16
      translated := v .translated != 0
      hostId := (v .hostId).toUInt8
      pasid := (v .pasid).toUInt32
      pasidEnabled := v .pasidEnabled != 0
      functionId := (v .functionId).toUInt16 }

/-- The hardware queues that a function owns. -/
structure FunctionMap where
  /-- First hardware queue. -/
  base : UInt16 := 0
  /-- Number of queues. -/
  count : UInt16 := 0
  deriving DecidableEq, Repr

/-- Fields of a `FunctionMap`. -/
inductive FunctionMapField where
  | base
  | count
  deriving DecidableEq, Repr

/-- All fields in the order of the record. -/
def FunctionMapField.all : List FunctionMapField :=
  [base, count]

instance : Fields FunctionMap FunctionMapField where
  get r
    | .base => r.base.toUInt64
    | .count => r.count.toUInt64
  ofValues v :=
    { base := (v .base).toUInt16
      count := (v .count).toUInt16 }

end DmaQueues
