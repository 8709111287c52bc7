import DmaQueues.Image
import DmaQueues.Record.Basic
import DmaQueues.Word.Segment

/-!
# Layouts

A layout says how a record is packed into words: for each field that the
hardware carries, the segments that hold it. `encode` drops the fields that are
not carried, and `decode` reads them as zero.

The hardware comes in three families, each with its own layouts.
-/

namespace DmaQueues

/-- Hardware with the same layouts. -/
inductive Family where
  | soft
  | eqdma
  | hard
  deriving DecidableEq, Repr

/-- Bits `lo` to `hi` of a word, holding the value from bit 0 on. -/
def Segment.bits (word hi lo : Nat) : Segment :=
  ⟨word, Mask.ones hi lo, 0⟩

/-- Bits `lo` to `hi` of a word, holding the value from bit `lsb` on. -/
def Segment.bitsFrom (lsb word hi lo : Nat) : Segment :=
  ⟨word, Mask.ones hi lo, lsb⟩

structure Layout (F : Type) where
  /-- Words of the packed record. -/
  words : Nat
  fields : List (F × Segments)

namespace Layout

variable {R F : Type}

/-- The segments that carry `field`, if the hardware has it. -/
def segments? [DecidableEq F] (l : Layout F) (field : F) : Option Segments :=
  (l.fields.find? fun entry => decide (entry.1 = field)).map Prod.snd

def carries [DecidableEq F] (l : Layout F) (field : F) : Bool :=
  (l.segments? field).isSome

/-- Packs the carried fields of `r`, in layout order. -/
def encode [Fields R F] (l : Layout F) (r : R) : Checked Image :=
  l.fields.foldlM (fun image entry => Segments.scatter image entry.2 (Fields.get r entry.1))
    (Image.zero l.words)

/-- The record held by `words`; missing words read as zero. -/
def decode [DecidableEq F] [Fields R F] (l : Layout F) (words : List UInt32) : R :=
  Fields.ofValues fun field =>
    match l.segments? field with
    | some segs => Segments.collect words segs
    | none => 0

end Layout

end DmaQueues
