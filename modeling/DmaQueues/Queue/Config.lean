import DmaQueues.Trigger

/-!
# Queue configuration

What a queue is brought up with. Sizes, timers and counters are indices into the
tables of the hardware and not plain values.
-/

namespace DmaQueues

structure QueueConfig where
  /-- Owning function. -/
  functionId : UInt16 := 0
  /-- Memory mapped rather than streaming. -/
  memoryMapped : Bool := false
  /-- Base address of the descriptor ring. -/
  ringBase : UInt64 := 0
  ringSize : UInt8 := 0
  descriptorSize : UInt8 := 0
  /-- Base address of the completion ring. -/
  completionBase : UInt64 := 0
  completionRingSize : UInt8 := 0
  completionSize : UInt8 := 0
  bufferSize : UInt8 := 0
  triggerMode : TriggerMode := .every
  counter : UInt8 := 0
  timer : UInt8 := 0
  /-- Interrupt vector, or aggregation ring. -/
  vector : UInt16 := 0
  interrupts : Bool := false
  aggregation : Bool := false
  descriptorBypass : Bool := false
  prefetchBypass : Bool := false
  prefetch : Bool := false
  fetchCredit : Bool := true
  writeback : Bool := true
  /-- Memory-mapped channel. -/
  channel : UInt8 := 0
  /-- Streaming interface that the queue uses. -/
  portId : UInt8 := 0
  deriving DecidableEq, Repr

namespace QueueConfig

def streaming (ringBase : UInt64) (ringSize : UInt8) : QueueConfig :=
  { ringBase, ringSize }

def memoryMappedRing (ringBase : UInt64) (ringSize : UInt8) : QueueConfig :=
  { memoryMapped := true, ringBase, ringSize }

/-- With a completion ring. -/
def withCompletion (c : QueueConfig) (base : UInt64) (ringSize size : UInt8) : QueueConfig :=
  { c with completionBase := base, completionRingSize := ringSize, completionSize := size }

/-- With interrupts on a vector. -/
def withVector (c : QueueConfig) (vector : UInt16) (aggregation : Bool) : QueueConfig :=
  { c with interrupts := true, vector, aggregation }

def withTrigger (c : QueueConfig) (mode : TriggerMode) (counter timer : UInt8) : QueueConfig :=
  { c with triggerMode := mode, counter, timer }

end QueueConfig

end DmaQueues
