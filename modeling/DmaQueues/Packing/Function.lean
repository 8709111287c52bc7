import DmaQueues.Packing.Layout
import DmaQueues.Record.Function

/-!
# Packing of function records

The layouts of the three families side by side. The hard family packs the
function map into one word.
-/

namespace DmaQueues

open Segment

def InterruptContext.soft : Layout InterruptField where
  words := 3
  fields := [
    (.valid, [bits 0 0 0]),
    (.vector, [bits 0 11 1]),
    (.interruptState, [bits 0 13 13]),
    (.color, [bits 0 14 14]),
    (.ringBase, [bitsFrom 12 0 31 15, bitsFrom 29 1 31 0, bitsFrom 61 2 2 0]),
    (.pageSize, [bits 2 5 3]),
    (.producerIndex, [bits 2 17 6]),
    (.translated, [bits 2 18 18])]

def InterruptContext.eqdma : Layout InterruptField where
  words := 4
  fields := [
    (.valid, [bits 0 0 0]),
    (.vector, [bits 0 11 1]),
    (.interruptState, [bits 0 13 13]),
    (.color, [bits 0 14 14]),
    (.ringBase, [bitsFrom 12 0 31 15, bitsFrom 29 1 31 0, bitsFrom 61 2 2 0]),
    (.pageSize, [bits 2 5 3]),
    (.producerIndex, [bits 2 17 6]),
    (.translated, [bits 2 18 18]),
    (.hostId, [bits 2 22 19]),
    (.pasid, [bits 2 31 23, bitsFrom 9 3 12 0]),
    (.pasidEnabled, [bits 3 13 13]),
    (.functionId, [bits 3 29 18])]

def InterruptContext.hard : Layout InterruptField where
  words := 3
  fields := [
    (.valid, [bits 0 0 0]),
    (.vector, [bits 0 5 1]),
    (.interruptState, [bits 0 7 7]),
    (.color, [bits 0 8 8]),
    (.ringBase, [bitsFrom 12 0 31 9, bitsFrom 35 1 28 0]),
    (.pageSize, [bits 1 31 29]),
    (.producerIndex, [bits 2 11 0])]

/-- The packing of an `InterruptContext` in a family. -/
def InterruptContext.layout : Family → Layout InterruptField
  | .soft => soft
  | .eqdma => eqdma
  | .hard => hard

def FunctionMap.soft : Layout FunctionMapField where
  words := 2
  fields := [
    (.base, [bits 0 10 0]),
    (.count, [bits 1 11 0])]

def FunctionMap.eqdma : Layout FunctionMapField where
  words := 2
  fields := [
    (.base, [bits 0 12 0]),
    (.count, [bits 1 12 0])]

def FunctionMap.hard : Layout FunctionMapField where
  words := 1
  fields := [
    (.base, [bits 0 10 0]),
    (.count, [bits 0 22 11])]

/-- The packing of a `FunctionMap` in a family. -/
def FunctionMap.layout : Family → Layout FunctionMapField
  | .soft => soft
  | .eqdma => eqdma
  | .hard => hard

end DmaQueues
