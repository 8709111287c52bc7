import DmaQueues.Word.Mask

/-!
# The indirect window

Context memory is reached through data words, mask words and a command register.
`Window` gives their place, `Poll` how long to wait for a command.
-/

namespace DmaQueues

structure Window where
  /-- Offset of the first data word. -/
  data : UInt32
  /-- Offset of the first mask word. -/
  mask : UInt32
  /-- Offset of the command register. -/
  command : UInt32
  /-- Number of data words, and of mask words. -/
  words : Nat
  /-- Queue id field of the command word. -/
  qidMask : Mask
  deriving DecidableEq, Repr

namespace Window

def soft : Window where
  data := 0x804
  mask := 0x824
  command := 0x844
  words := 8
  qidMask := Mask.ones 17 7

/-- The soft window with two more queue id bits. -/
def eqdma : Window :=
  { soft with qidMask := Mask.ones 19 7 }

def hard : Window where
  data := 0x804
  mask := 0x814
  command := 0x824
  words := 4
  qidMask := Mask.ones 17 7

end Window

/-- How often the busy bit is sampled and when to give up, in microseconds. -/
structure Poll where
  interval : UInt32 := 10
  timeout : UInt32 := 500000
  deriving DecidableEq, Repr

/-- Samples with a delay after them; one more follows. Never zero. -/
def Poll.attempts (p : Poll) : Nat :=
  if p.interval = 0 then 1 else max 1 (p.timeout.toNat / p.interval.toNat)

end DmaQueues
