import DmaQueues.Error
import DmaQueues.Selector
import DmaQueues.Word.Mask

/-!
# Command words

A command names a context memory, a queue and what to do. It is packed into one
word: the busy bit, the selector, the operation, and the queue id under a mask
that depends on the hardware.
-/

namespace DmaQueues

/-- What a command does with a context. -/
inductive Operation where
  | clear
  | write
  | read
  | invalidate
  deriving DecidableEq, Repr

namespace Operation

/-- All operations in code order. -/
def all : List Operation :=
  [clear, write, read, invalidate]

def code : Operation → Nat
  | clear => 0
  | write => 1
  | read => 2
  | invalidate => 3

def ofCode? : Nat → Option Operation
  | 0 => some clear
  | 1 => some write
  | 2 => some read
  | 3 => some invalidate
  | _ => none

def name : Operation → String
  | clear => "Clear"
  | write => "Write"
  | read => "Read"
  | invalidate => "Invalidate"

theorem ofCode?_code (op : Operation) : ofCode? op.code = some op := by
  cases op <;> rfl

end Operation

structure Command where
  selector : Selector
  operation : Operation
  qid : UInt16
  deriving DecidableEq, Repr

namespace Command

/-- Set while the command is in flight. -/
def busyMask : Mask := Mask.ones 0 0

def selectorMask : Mask := Mask.ones 4 1

def operationMask : Mask := Mask.ones 6 5

/-- Packs the command with its busy bit set. The queue id has to fit `qidMask`. -/
def encode (c : Command) (qidMask : Mask) : ExceptT AccessError Checked UInt32 := do
  if !Mask.fits qidMask c.qid.toUInt64 then throw .invalidParameter
  let selector ← selectorMask.put (UInt32.ofNat c.selector.code)
  let operation ← operationMask.put (UInt32.ofNat c.operation.code)
  let qid ← Mask.put qidMask c.qid.toUInt32
  return busyMask ||| selector ||| operation ||| qid

/-- Unpacks a command, whatever its busy bit. -/
def decode? (word : UInt32) (qidMask : Mask) : Option Command := do
  let selector ← Selector.ofCode? (selectorMask.get word).toNat
  let operation ← Operation.ofCode? (operationMask.get word).toNat
  return ⟨selector, operation, (Mask.get qidMask word).toUInt16⟩

end Command

end DmaQueues
