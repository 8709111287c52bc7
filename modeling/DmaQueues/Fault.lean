import DmaQueues.Hex

/-!
# Faults and checked arithmetic

A fault ends the whole computation and is not an answer a caller can handle:
a number that leaves its word, a value that does not fit the field it is
written to, or a queue group whose bookkeeping broke. `Checked` computations
give a value or a fault.

Queue ids and counts are natural numbers below `wordLimit`; `Checked.add` and
`Checked.sub` fault where the result would leave that interval.
-/

namespace DmaQueues

inductive Fault where
  | addOverflow
  | subOverflow
  | shiftOverflow
  | emptyMask
  | fieldOverflow (value mask : UInt32)
  | coverageOverflow (value coverage : UInt64)
  | corruptedGroup (index : Nat)
  deriving DecidableEq, Repr

def Fault.message : Fault → String
  | addOverflow => "attempt to add with overflow"
  | subOverflow => "attempt to subtract with overflow"
  | shiftOverflow => "attempt to shift left with overflow"
  | emptyMask => "empty field mask"
  | fieldOverflow value mask =>
    "value " ++ Hex.text value.toNat ++ " overflows field mask " ++ Hex.padded 8 mask.toNat
  | coverageOverflow value coverage =>
    "value " ++ Hex.text value.toNat ++ " does not fit field coverage " ++
      Hex.text coverage.toNat
  | corruptedGroup index => "queue group " ++ toString index ++ " corrupted"

/-- A value, or the fault that stopped its computation. -/
abbrev Checked := Except Fault

/-- Words hold the numbers below this one. -/
def wordLimit : Nat := UInt32.size

def Checked.add (a b : Nat) : Checked Nat :=
  if a + b < wordLimit then .ok (a + b) else .error .addOverflow

def Checked.sub (a b : Nat) : Checked Nat :=
  if b ≤ a then .ok (a - b) else .error .subOverflow

/-- Sum of a list, faulting as soon as a partial sum leaves the word. -/
def Checked.sum (ns : List Nat) : Checked Nat :=
  ns.foldlM Checked.add 0

end DmaQueues
