import DmaQueues.Packing.Layout
import DmaQueues.Selector
import DmaQueues.Window

/-!
# Hardware variants

All that differs between the supported engines hangs off their variant: the
window, the layouts, the context memories, and where the function map lives.
-/

namespace DmaQueues

inductive Variant where
  | legacySoft
  | eqdma
  | cpm4
  | versalHard
  | versalSoft
  deriving DecidableEq, Repr

namespace Variant

def all : List Variant :=
  [legacySoft, eqdma, cpm4, versalHard, versalSoft]

def name : Variant → String
  | legacySoft => "QDMA soft"
  | eqdma => "EQDMA soft"
  | cpm4 => "CPM4 hard"
  | versalHard => "Versal hard"
  | versalSoft => "Versal soft"

def family : Variant → Family
  | legacySoft => .soft
  | versalSoft => .soft
  | eqdma => .eqdma
  | cpm4 => .hard
  | versalHard => .hard

def window (v : Variant) : Window :=
  match v.family with
  | .soft => .soft
  | .eqdma => .eqdma
  | .hard => .hard

def isHard (v : Variant) : Bool :=
  v.family == .hard

/-- Only EQDMA parts have the address space tables and the timer contexts. -/
def supports (v : Variant) : Selector → Bool
  | .pasidRamLow => v == eqdma
  | .pasidRamHigh => v == eqdma
  | .timer => v == eqdma
  | _ => true

/-- The function map is a plain register and not a context. -/
def directFunctionMap (v : Variant) : Bool :=
  v == versalHard

end Variant

end DmaQueues
