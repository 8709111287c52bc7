import DmaQueues.Image
import DmaQueues.Script

/-!
# The indirect engine

One command is in flight at a time. A write loads the data words and sets every
mask word before it issues its command; a read fetches the data words after its
command is done. The busy bit is sampled, with a delay after each sample, as
often as the poll timing allows, and once more at the end.
-/

namespace DmaQueues

/-- A script that can end in an error. -/
abbrev Action (ε α : Type) := ExceptT ε Script α

structure Engine where
  window : Window
  poll : Poll
  deriving DecidableEq, Repr

namespace Engine

/-- One sample of the busy bit. -/
def sampleIdle (e : Engine) : Script Bool := do
  return (← Script.get e.window.command) &&& Command.busyMask == 0

/-- `attempts` samples with a delay after each, and a final one, up to the first that is idle. -/
def waitIdle (e : Engine) : (attempts : Nat) → Script Bool
  | 0 => e.sampleIdle
  | attempts + 1 => do
    if ← e.sampleIdle then
      return true
    else
      Script.wait e.poll.interval
      e.waitIdle attempts

/-- The word of a command, if its queue id fits. -/
def commandWord (e : Engine) (c : Command) : Action AccessError UInt32 := ExceptT.mk do
  match ← Script.ofChecked (c.encode e.window.qidMask).run with
  | .ok word => return .ok word
  | .error error =>
    Script.notice (.qidTooWide c.qid (Mask.width e.window.qidMask))
    return .error error

/-- Writes the command register and waits until the command is done. -/
def issue (e : Engine) (c : Command) (word : UInt32) : Action AccessError Unit := do
  Script.notice (.commandIssued c word)
  Script.put e.window.command word
  if ← e.waitIdle e.poll.attempts then
    return ()
  else
    Script.notice (.commandTimedOut c)
    throw .busyTimeout

/-- A command that moves no data. -/
def simple (e : Engine) (c : Command) : Action AccessError Unit := do
  e.issue c (← e.commandWord c)

def clear (e : Engine) (selector : Selector) (qid : UInt16) : Action AccessError Unit :=
  e.simple ⟨selector, .clear, qid⟩

def invalidate (e : Engine) (selector : Selector) (qid : UInt16) : Action AccessError Unit :=
  e.simple ⟨selector, .invalidate, qid⟩

/-- Replaces a whole context by `data`, filled up with zeros. -/
def write (e : Engine) (selector : Selector) (qid : UInt16) (data : List UInt32) :
    Action AccessError Unit := do
  let words := e.window.words
  if data.length > words then
    Script.notice (.windowExceeded selector data.length words)
    throw .invalidParameter
  let c : Command := ⟨selector, .write, qid⟩
  let word ← e.commandWord c
  Script.putBlock e.window.data (data ++ List.replicate (words - data.length) 0)
  Script.putBlock e.window.mask (List.replicate words 0xFFFFFFFF)
  e.issue c word

/-- The first `length` words of a context. -/
def read (e : Engine) (selector : Selector) (qid : UInt16) (length : Nat) :
    Action AccessError (List UInt32) := do
  if length > e.window.words then
    throw .invalidParameter
  let c : Command := ⟨selector, .read, qid⟩
  e.issue c (← e.commandWord c)
  Script.getBlock e.window.data length

/-- Fills `buffer` from a context; an error leaves it as it is. -/
def readInto (e : Engine) (selector : Selector) (qid : UInt16) (buffer : List UInt32) :
    Script (Except AccessError Unit × List UInt32) := do
  match ← (e.read selector qid buffer.length).run with
  | .ok words => return (.ok (), words)
  | .error error => return (.error error, buffer)

end Engine

end DmaQueues
