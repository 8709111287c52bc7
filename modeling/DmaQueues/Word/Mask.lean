import DmaQueues.Fault

/-!
# Fields of a register word

A field is given by its mask. Its shift is the index of the lowest set bit and
its width the number of set bits, so a value is placed with
`(value <<< shift) &&& mask` and read back with `(word &&& mask) >>> shift`.
`Mask.put` refuses a value wider than the field.
-/

namespace DmaQueues

/-- Mask of a field inside a 32-bit word. -/
abbrev Mask := UInt32

/-- Largest value of `width` bits, at most 64. -/
def widthMax (width : Nat) : UInt64 :=
  if width ≥ 64 then 0xFFFFFFFFFFFFFFFF else (1 <<< UInt64.ofNat width) - 1

namespace Mask

/-- Bits `lo` to `hi`, for `hi < 32` and `lo < 32`. -/
def ones (hi lo : Nat) : Mask :=
  ((0xFFFFFFFF : UInt32) >>> UInt32.ofNat (31 - hi)) &&& (0xFFFFFFFF <<< UInt32.ofNat lo)

/-- Bits `lo` to `hi`; a bound beyond the word is a fault. -/
def span (hi lo : Nat) : Checked Mask :=
  if hi > 31 then .error .subOverflow
  else if lo > 31 then .error .shiftOverflow
  else .ok (ones hi lo)

/-- Bits `lo` to `hi` of a 64-bit word. -/
def span64 (hi lo : Nat) : Checked UInt64 :=
  if hi > 63 then .error .subOverflow
  else if lo > 63 then .error .shiftOverflow
  else .ok (((0xFFFFFFFFFFFFFFFF : UInt64) >>> UInt64.ofNat (63 - hi)) &&&
    (0xFFFFFFFFFFFFFFFF <<< UInt64.ofNat lo))

def bit (n : Nat) : Checked Mask :=
  if n > 31 then .error .shiftOverflow else .ok (1 <<< UInt32.ofNat n)

/-- Index of the lowest set bit, 32 for the empty mask. -/
def shift (m : Mask) : Nat :=
  ((List.range 32).find? fun i => m.toNat.testBit i).getD 32

/-- Number of set bits. -/
def width (m : Mask) : Nat :=
  (List.range 32).countP fun i => m.toNat.testBit i

def fits (m : Mask) (value : UInt64) : Bool :=
  decide (value ≤ widthMax m.width)

/-- The field of `word`; the empty mask reads zero. -/
def get (m : Mask) (word : UInt32) : UInt32 :=
  if m = 0 then 0 else (word &&& m) >>> UInt32.ofNat m.shift

/-- `value` moved to the field, bits beyond it dropped. -/
def place (m : Mask) (value : UInt32) : UInt32 :=
  (value <<< UInt32.ofNat m.shift) &&& m

/-- `value` moved to the field, which has to be able to hold it. -/
def put (m : Mask) (value : UInt32) : Checked UInt32 :=
  if m = 0 then .error .emptyMask
  else if m.fits value.toUInt64 then .ok (m.place value)
  else .error (.fieldOverflow value m)

/-- `word` with the field replaced by `value`. -/
def update (m : Mask) (word value : UInt32) : Checked UInt32 := do
  return (word &&& ~~~m) ||| (← m.put value)

end Mask

end DmaQueues
