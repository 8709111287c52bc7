import DmaQueues.Word.Mask

/-!
# Values spread over several words

A value too wide or too scattered for one field is carried by segments: each
holds the bits of the value from `lsb` on under a mask of one word. The
coverage of a list of segments is the set of value bits they can carry.
`scatter` stores a value inside that coverage, `gather` collects it again.
-/

namespace DmaQueues

structure Segment where
  /-- Index of the word. -/
  word : Nat
  mask : Mask
  /-- Bit of the value that lands on the lowest bit of the mask. -/
  lsb : Nat
  deriving DecidableEq, Repr

namespace Segment

def width (s : Segment) : Nat :=
  s.mask.width

/-- The slice of `value` that the segment carries, moved down to bit 0. -/
def extract (s : Segment) (value : UInt64) : UInt32 :=
  if s.lsb ≥ 64 then 0
  else ((value >>> UInt64.ofNat s.lsb) &&& widthMax s.width).toUInt32

/-- Bits of the value that the segment carries. -/
def coverage (s : Segment) : UInt64 :=
  if s.lsb ≥ 64 then 0 else widthMax s.width <<< UInt64.ofNat s.lsb

/-- `value` with a slice read from a word moved back to its place. -/
def restore (s : Segment) (value : UInt64) (raw : UInt32) : UInt64 :=
  if s.lsb ≥ 64 then value else value ||| (raw.toUInt64 <<< UInt64.ofNat s.lsb)

/-- `restore` for any segment; a place beyond the value is a fault. -/
def inject (s : Segment) (value : UInt64) (raw : UInt32) : Checked UInt64 :=
  if s.lsb ≥ 64 then .error .shiftOverflow else .ok (s.restore value raw)

/-- The slice as it is stored in a word; zero if there is no such word. -/
def read (s : Segment) (words : List UInt32) : UInt32 :=
  match words[s.word]? with
  | some w => s.mask.get w
  | none => 0

end Segment

/-- The segments that together carry one value. -/
abbrev Segments := List Segment

namespace Segments

def width (segs : Segments) : Nat :=
  segs.foldl (fun n s => n + s.width) 0

def coverage (segs : Segments) : UInt64 :=
  segs.foldl (fun acc s => acc ||| s.coverage) 0

/-- `word`, at index `i`, with every slice of `value` that belongs there. -/
def storeAt (segs : Segments) (value : UInt64) (i : Nat) (word : UInt32) : UInt32 :=
  segs.foldl (fun w s => if s.word = i then w ||| s.mask.place (s.extract value) else w) word

/-- Stores `value`, which has to lie inside the coverage. A segment of a word that is not there is
skipped, any other needs a mask. -/
def scatter (words : List UInt32) (segs : Segments) (value : UInt64) : Checked (List UInt32) :=
  if value &&& ~~~segs.coverage ≠ 0 then .error (.coverageOverflow value segs.coverage)
  else if segs.any fun s => decide (s.word < words.length) && s.mask == 0 then .error .emptyMask
  else .ok (words.mapIdx (segs.storeAt value))

/-- The value carried by `words`. -/
def collect (words : List UInt32) (segs : Segments) : UInt64 :=
  segs.foldl (fun acc s => s.restore acc (s.read words)) 0

/-- `collect` for any segments; a place beyond the value is a fault. -/
def gather (words : List UInt32) (segs : Segments) : Checked UInt64 :=
  segs.foldlM (fun acc s => s.inject acc (s.read words)) 0

end Segments

end DmaQueues
