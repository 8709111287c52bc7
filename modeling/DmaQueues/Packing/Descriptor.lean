import DmaQueues.Packing.Layout
import DmaQueues.Record.Descriptor

/-!
# Packing of descriptor queue records

The layouts of the three families side by side. The hard family has no vector in
the software context: it maps queues to vectors in a table of its own.
-/

namespace DmaQueues

open Segment

def SoftwareContext.soft : Layout SoftwareField where
  words := 5
  fields := [
    (.producerIndex, [bits 0 15 0]),
    (.interruptArmed, [bits 0 16 16]),
    (.functionId, [bits 0 24 17]),
    (.enabled, [bits 1 0 0]),
    (.fetchCredit, [bits 1 1 1]),
    (.pendingCheck, [bits 1 2 2]),
    (.intervalCheck, [bits 1 3 3]),
    (.translated, [bits 1 4 4]),
    (.fetchMax, [bits 1 7 5]),
    (.ringSize, [bits 1 15 12]),
    (.descriptorSize, [bits 1 17 16]),
    (.bypass, [bits 1 18 18]),
    (.channel, [bits 1 19 19]),
    (.writeback, [bits 1 20 20]),
    (.interruptEnabled, [bits 1 21 21]),
    (.portId, [bits 1 24 22]),
    (.lastInterruptOff, [bits 1 25 25]),
    (.error, [bits 1 27 26]),
    (.errorReported, [bits 1 28 28]),
    (.interruptPending, [bits 1 29 29]),
    (.markerOff, [bits 1 30 30]),
    (.memoryMapped, [bits 1 31 31]),
    (.ringBase, [bits 2 31 0, bitsFrom 32 3 31 0]),
    (.vector, [bits 4 10 0]),
    (.aggregation, [bits 4 11 11])]

def SoftwareContext.eqdma : Layout SoftwareField where
  words := 8
  fields := [
    (.producerIndex, [bits 0 15 0]),
    (.interruptArmed, [bits 0 16 16]),
    (.functionId, [bits 0 28 17]),
    (.enabled, [bits 1 0 0]),
    (.fetchCredit, [bits 1 1 1]),
    (.pendingCheck, [bits 1 2 2]),
    (.intervalCheck, [bits 1 3 3]),
    (.translated, [bits 1 4 4]),
    (.fetchMax, [bits 1 8 5]),
    (.ringSize, [bits 1 15 12]),
    (.descriptorSize, [bits 1 17 16]),
    (.bypass, [bits 1 18 18]),
    (.channel, [bits 1 19 19]),
    (.writeback, [bits 1 20 20]),
    (.interruptEnabled, [bits 1 21 21]),
    (.portId, [bits 1 24 22]),
    (.lastInterruptOff, [bits 1 25 25]),
    (.error, [bits 1 27 26]),
    (.errorReported, [bits 1 28 28]),
    (.interruptPending, [bits 1 29 29]),
    (.markerOff, [bits 1 30 30]),
    (.memoryMapped, [bits 1 31 31]),
    (.ringBase, [bits 2 31 0, bitsFrom 32 3 31 0]),
    (.vector, [bits 4 10 0]),
    (.aggregation, [bits 4 11 11]),
    (.functionInterruptOff, [bits 4 12 12]),
    (.virtio, [bits 4 13 13]),
    (.packBypass, [bits 4 14 14]),
    (.interruptBypass, [bits 4 15 15]),
    (.hostId, [bits 4 19 16]),
    (.pasid, [bits 4 31 20, bitsFrom 12 5 9 0]),
    (.pasidEnabled, [bits 5 10 10]),
    (.virtioBase, [bits 5 31 11, bitsFrom 21 6 31 0, bitsFrom 53 7 10 0])]

def SoftwareContext.hard : Layout SoftwareField where
  words := 4
  fields := [
    (.producerIndex, [bits 0 15 0]),
    (.interruptArmed, [bits 0 16 16]),
    (.enabled, [bits 1 0 0]),
    (.fetchCredit, [bits 1 1 1]),
    (.pendingCheck, [bits 1 2 2]),
    (.intervalCheck, [bits 1 3 3]),
    (.functionId, [bits 1 11 4]),
    (.ringSize, [bits 1 15 12]),
    (.descriptorSize, [bits 1 17 16]),
    (.bypass, [bits 1 18 18]),
    (.channel, [bits 1 19 19]),
    (.writeback, [bits 1 20 20]),
    (.interruptEnabled, [bits 1 21 21]),
    (.portId, [bits 1 24 22]),
    (.lastInterruptOff, [bits 1 25 25]),
    (.error, [bits 1 27 26]),
    (.errorReported, [bits 1 28 28]),
    (.interruptPending, [bits 1 29 29]),
    (.markerOff, [bits 1 30 30]),
    (.memoryMapped, [bits 1 31 31]),
    (.ringBase, [bits 2 31 0, bitsFrom 32 3 31 0])]

/-- The packing of a `SoftwareContext` in a family. -/
def SoftwareContext.layout : Family → Layout SoftwareField
  | .soft => soft
  | .eqdma => eqdma
  | .hard => hard

/-- The packing in soft and EQDMA parts. -/
def HardwareContext.soft : Layout HardwareField where
  words := 2
  fields := [
    (.consumerIndex, [bits 0 15 0]),
    (.creditsUsed, [bits 0 31 16]),
    (.descriptorPending, [bits 1 8 8]),
    (.idle, [bits 1 9 9]),
    (.eventPending, [bits 1 10 10]),
    (.fetchPending, [bits 1 14 11])]

def HardwareContext.hard : Layout HardwareField where
  words := 2
  fields := [
    (.consumerIndex, [bits 0 15 0]),
    (.creditsUsed, [bits 0 31 16]),
    (.descriptorPending, [bits 1 8 8]),
    (.idle, [bits 1 9 9]),
    (.fetchPending, [bits 1 10 10])]

/-- The packing of a `HardwareContext` in a family. -/
def HardwareContext.layout : Family → Layout HardwareField
  | .soft => soft
  | .eqdma => soft
  | .hard => hard

/-- The packing of a `CreditContext`, which is the same in all families. -/
def CreditContext.layout (_ : Family) : Layout CreditField where
  words := 1
  fields := [(.credit, [bits 0 15 0])]

end DmaQueues
