import DmaQueues.Error
import DmaQueues.Hex

/-!
# Context images

An image is a packed context: its data words, of which no window has more than
`Image.maxWords`.
-/

namespace DmaQueues

abbrev Image := List UInt32

namespace Image

/-- Most data words of any window. -/
def maxWords : Nat := 8

/-- Zero words, `maxWords` of them at most. -/
def zero (length : Nat) : Image :=
  List.replicate (min length maxWords) 0

def ofWords (words : List UInt32) : Except AccessError Image :=
  if words.length > maxWords then .error .invalidParameter else .ok words

/-- The words in brackets, eight digits each. -/
def text (image : Image) : String :=
  "[" ++ ", ".intercalate (image.map fun w => Hex.padded 8 w.toNat) ++ "]"

end Image

end DmaQueues
