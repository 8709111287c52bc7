import DmaQueues.Record.Descriptor
import DmaQueues.Record.Function
import DmaQueues.Record.Stream
import DmaQueues.Selector

/-!
# Records of any kind

Every kind of record has its context memories: descriptor queues have one for each
direction, the other kinds a single one.
-/

namespace DmaQueues

inductive Record where
  | software (r : SoftwareContext)
  | hardware (r : HardwareContext)
  | credit (r : CreditContext)
  | prefetch (r : PrefetchContext)
  | completion (r : CompletionContext)
  | interrupt (r : InterruptContext)
  | functionMap (r : FunctionMap)
  deriving DecidableEq, Repr

inductive RecordKind where
  | software
  | hardware
  | credit
  | prefetch
  | completion
  | interrupt
  | functionMap
  deriving DecidableEq, Repr

namespace RecordKind

def all : List RecordKind :=
  [software, hardware, credit, prefetch, completion, interrupt, functionMap]

/-- The context memory of a kind; only descriptor queues look at the direction. -/
def selector (dir : Direction) : RecordKind → Selector
  | software => .software dir
  | hardware => .hardware dir
  | credit => .credit dir
  | prefetch => .prefetch
  | completion => .completion
  | interrupt => .interruptAggregation
  | functionMap => .functionMap

end RecordKind

def Record.kind : Record → RecordKind
  | software _ => .software
  | hardware _ => .hardware
  | credit _ => .credit
  | prefetch _ => .prefetch
  | completion _ => .completion
  | interrupt _ => .interrupt
  | functionMap _ => .functionMap

end DmaQueues
