/-!
# Records and their fields

A record names its values; a field of it is addressed by a value of its field
type. `get` reads a field as a 64-bit number. `ofValues` builds the record from
such numbers, each cut to the width of its field, where a flag is any number but
zero.
-/

namespace DmaQueues

class Fields (R : Type) (F : outParam Type) where
  get : R → F → UInt64
  ofValues : (F → UInt64) → R

namespace Fields

variable {R F : Type} [Fields R F]

/-- The record whose fields are all zero. -/
def zero : R :=
  ofValues fun _ => 0

/-- `r` with `value` stored in one field. -/
def set [DecidableEq F] (r : R) (field : F) (value : UInt64) : R :=
  ofValues fun f => if f = field then value else get r f

end Fields

end DmaQueues
