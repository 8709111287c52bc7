import DmaQueues.Packing.Layout
import DmaQueues.Record.Stream

/-!
# Packing of streaming records

The layouts of the three families side by side. Of the completion ring base the
soft family keeps bits 63:12, the EQDMA family 63:2 and the hard family 63:6.
-/

namespace DmaQueues

open Segment

/-- The packing in soft and hard parts. -/
def PrefetchContext.soft : Layout PrefetchField where
  words := 2
  fields := [
    (.bypass, [bits 0 0 0]),
    (.bufferSize, [bits 0 4 1]),
    (.portId, [bits 0 7 5]),
    (.error, [bits 0 26 26]),
    (.prefetchEnabled, [bits 0 27 27]),
    (.inPrefetch, [bits 0 28 28]),
    (.softwareCredit, [bits 0 31 29, bitsFrom 3 1 12 0]),
    (.valid, [bits 1 13 13])]

def PrefetchContext.eqdma : Layout PrefetchField where
  words := 2
  fields := [
    (.bypass, [bits 0 0 0]),
    (.bufferSize, [bits 0 4 1]),
    (.portId, [bits 0 7 5]),
    (.variableDescriptor, [bits 0 8 8]),
    (.virtio, [bits 0 9 9]),
    (.prefetched, [bits 0 15 10]),
    (.needed, [bits 0 21 16]),
    (.error, [bits 0 26 26]),
    (.prefetchEnabled, [bits 0 27 27]),
    (.inPrefetch, [bits 0 28 28]),
    (.softwareCredit, [bits 0 31 29, bitsFrom 3 1 12 0]),
    (.valid, [bits 1 13 13])]

/-- The packing of a `PrefetchContext` in a family. -/
def PrefetchContext.layout : Family → Layout PrefetchField
  | .soft => soft
  | .eqdma => eqdma
  | .hard => soft

def CompletionContext.soft : Layout CompletionField where
  words := 5
  fields := [
    (.statusDescriptor, [bits 0 0 0]),
    (.interruptEnabled, [bits 0 1 1]),
    (.triggerMode, [bits 0 4 2]),
    (.functionId, [bits 0 12 5]),
    (.counter, [bits 0 20 17]),
    (.timer, [bits 0 24 21]),
    (.interruptState, [bits 0 26 25]),
    (.color, [bits 0 27 27]),
    (.ringSize, [bits 0 31 28]),
    (.ringBase, [bitsFrom 12 1 31 6, bitsFrom 38 2 25 0]),
    (.descriptorSize, [bits 2 27 26]),
    (.producerIndex, [bits 2 31 28, bitsFrom 4 3 11 0]),
    (.consumerIndex, [bits 3 27 12]),
    (.valid, [bits 3 28 28]),
    (.error, [bits 3 30 29]),
    (.userTriggerPending, [bits 3 31 31]),
    (.timerRunning, [bits 4 0 0]),
    (.fullUpdate, [bits 4 1 1]),
    (.overflowCheckOff, [bits 4 2 2]),
    (.translated, [bits 4 3 3]),
    (.vector, [bits 4 14 4]),
    (.aggregation, [bits 4 15 15])]

def CompletionContext.eqdma : Layout CompletionField where
  words := 6
  fields := [
    (.statusDescriptor, [bits 0 0 0]),
    (.interruptEnabled, [bits 0 1 1]),
    (.triggerMode, [bits 0 4 2]),
    (.functionId, [bits 0 16 5]),
    (.counter, [bits 0 20 17]),
    (.timer, [bits 0 24 21]),
    (.interruptState, [bits 0 26 25]),
    (.color, [bits 0 27 27]),
    (.ringSize, [bits 0 31 28]),
    (.ringBase, [bitsFrom 2 5 17 14, bitsFrom 6 1 31 0, bitsFrom 38 2 25 0]),
    (.descriptorSize, [bits 2 27 26]),
    (.producerIndex, [bits 2 31 28, bitsFrom 4 3 11 0]),
    (.consumerIndex, [bits 3 27 12]),
    (.valid, [bits 3 28 28]),
    (.error, [bits 3 30 29]),
    (.userTriggerPending, [bits 3 31 31]),
    (.timerRunning, [bits 4 0 0]),
    (.fullUpdate, [bits 4 1 1]),
    (.overflowCheckOff, [bits 4 2 2]),
    (.translated, [bits 4 3 3]),
    (.vector, [bits 4 14 4]),
    (.aggregation, [bits 4 15 15]),
    (.functionInterruptOff, [bits 4 16 16]),
    (.virtio, [bits 4 17 17]),
    (.cardToHost, [bits 4 18 18]),
    (.hostId, [bits 4 22 19]),
    (.pasid, [bits 4 31 23, bitsFrom 9 5 12 0]),
    (.pasidEnabled, [bits 5 13 13]),
    (.virtioEndOfPacket, [bits 5 18 18]),
    (.shared, [bits 5 19 19])]

def CompletionContext.hard : Layout CompletionField where
  words := 4
  fields := [
    (.statusDescriptor, [bits 0 0 0]),
    (.interruptEnabled, [bits 0 1 1]),
    (.triggerMode, [bits 0 4 2]),
    (.functionId, [bits 0 12 5]),
    (.counter, [bits 0 16 13]),
    (.timer, [bits 0 20 17]),
    (.interruptState, [bits 0 22 21]),
    (.color, [bits 0 23 23]),
    (.ringSize, [bits 0 27 24]),
    (.ringBase, [bitsFrom 6 0 31 28, bitsFrom 10 1 31 0, bitsFrom 42 2 21 0]),
    (.descriptorSize, [bits 2 23 22]),
    (.producerIndex, [bits 2 31 24, bitsFrom 8 3 7 0]),
    (.consumerIndex, [bits 3 23 8]),
    (.valid, [bits 3 24 24]),
    (.error, [bits 3 26 25]),
    (.userTriggerPending, [bits 3 27 27]),
    (.timerRunning, [bits 3 28 28]),
    (.fullUpdate, [bits 3 29 29])]

/-- The packing of a `CompletionContext` in a family. -/
def CompletionContext.layout : Family → Layout CompletionField
  | .soft => soft
  | .eqdma => eqdma
  | .hard => hard

end DmaQueues
