import DmaQueues.Allocation.Range
import DmaQueues.Capability
import DmaQueues.Command
import DmaQueues.Version

/-!
# Notices

What the library reports beside its results. Each notice has a level and a text.
-/

namespace DmaQueues

inductive Level where
  | error
  | warn
  | info
  | debug
  deriving DecidableEq, Repr

def Level.name : Level → String
  | error => "ERROR"
  | warn => "WARN"
  | info => "INFO"
  | debug => "DEBUG"

inductive Notice where
  | windowExceeded (selector : Selector) (given words : Nat)
  | commandIssued (c : Command) (word : UInt32)
  | commandTimedOut (c : Command)
  | qidTooWide (qid : UInt16) (width : Nat)
  | identifierMismatch (found : UInt32)
  | versionUnsupported (v : Version)
  | engineFound (v : Variant) (version : Version)
  | descriptorModeUnknown (code : Nat)
  | recordMismatch (selector : Selector)
  | selectorUnsupported (selector : Selector) (v : Variant)
  | triggerModeOutOfRange (mode : Nat)
  | readOutside (offset : UInt32) (length : Nat)
  | writeOutside (offset : UInt32) (length : Nat)
  | attached (v : Variant) (a : Attributes)
  | clearSkipped
  | memoryCleared (queues : Nat)
  | functionMapSet (functionId base count : UInt16)
  | startFailed (qid : UInt16) (type : QueueType) (e : QueueError)
  | queueStarted (qid : UInt16) (type : QueueType)
  | queueStopped (qid : UInt16) (type : QueueType)
  | valueTooWide (value : UInt64)
  | queueOutsideRange (functionId : UInt16) (qid : Nat)
  | countNotReleased (functionId qid : UInt16) (type : QueueType) (e : ResourceError)
  | rangeNotRestored (functionId : UInt16) (before now : Option QueueRange)
  | rangeRestoreFailed (functionId : UInt16) (before : Option QueueRange) (e : ResourceError)
  | hintNotFree (base count : Nat)
  | groupCreated (index : Nat) (key : GroupKey) (range : QueueRange)
  | groupDestroyed (index : Nat)
  | destroyRejected (functionId : UInt16) (active : Nat)
  | changeRejected (functionId : UInt16) (active : Nat)
  | noRoom (functionId : UInt16) (count : Nat)
  | restoreImpossible (functionId : UInt16) (range : QueueRange)
  deriving DecidableEq, Repr

namespace Notice

def level : Notice → Level
  | windowExceeded .. => .error
  | commandIssued .. => .debug
  | commandTimedOut .. => .error
  | qidTooWide .. => .warn
  | identifierMismatch .. => .error
  | versionUnsupported .. => .error
  | engineFound .. => .info
  | descriptorModeUnknown .. => .warn
  | recordMismatch .. => .error
  | selectorUnsupported .. => .warn
  | triggerModeOutOfRange .. => .error
  | readOutside .. => .error
  | writeOutside .. => .error
  | attached .. => .info
  | clearSkipped => .warn
  | memoryCleared .. => .debug
  | functionMapSet .. => .debug
  | startFailed .. => .error
  | queueStarted .. => .debug
  | queueStopped .. => .debug
  | valueTooWide .. => .error
  | queueOutsideRange .. => .warn
  | countNotReleased .. => .error
  | rangeNotRestored .. => .error
  | rangeRestoreFailed .. => .error
  | hintNotFree .. => .debug
  | groupCreated .. => .info
  | groupDestroyed .. => .debug
  | destroyRejected .. => .warn
  | changeRejected .. => .warn
  | noRoom .. => .debug
  | restoreImpossible .. => .warn

def commandText (c : Command) : String :=
  "ind " ++ c.operation.name ++ " " ++ c.selector.label ++ " qid " ++ toString c.qid

def rangeText (r : QueueRange) : String :=
  "[" ++ toString r.base ++ ", " ++ toString (r.base + r.count) ++ ")"

/-- A range that may be missing, with its parts named. -/
def rangeDetail : Option QueueRange → String
  | none => "None"
  | some r => "Some(QueueRange \x7b qbase: " ++ toString r.base ++ ", count: " ++
      toString r.count ++ " \x7d)"

def capabilityText (cs : List Capability) : String :=
  "DeviceCapabilities(" ++ " | ".intercalate (cs.map Capability.name) ++ ")"

def functionText (functionId : UInt16) : String :=
  "function " ++ toString functionId ++ ": "

def queueText (qid : UInt16) (type : QueueType) : String :=
  "queue " ++ toString qid ++ " " ++ type.name

def outsideText (access : String) (offset : UInt32) (length : Nat) : String :=
  access ++ ": offset " ++ Hex.text offset.toNat ++ " outside BAR (" ++ Hex.text length ++
    " bytes)"

def text : Notice → String
  | windowExceeded selector given words =>
    selector.label ++ " write: " ++ toString given ++ " words exceed " ++ toString words ++
      "-word window"
  | commandIssued c word => commandText c ++ " cmd " ++ Hex.padded 8 word.toNat
  | commandTimedOut c => commandText c ++ ": busy did not clear"
  | qidTooWide qid width =>
    "qid " ++ toString qid ++ " exceeds " ++ toString width ++ "-bit command field"
  | identifierMismatch found =>
    "config BAR identifier " ++ Hex.padded 4 found.toNat ++ ", expected " ++
      Hex.padded 4 Register.magic.toNat
  | versionUnsupported v =>
    "unsupported version register " ++ Hex.padded 8 v.raw.toNat ++ " (" ++ v.text ++ ")"
  | engineFound v version => v.name ++ " DMA engine: " ++ version.text
  | descriptorModeUnknown code => "unknown descriptor engine mode " ++ toString code
  | recordMismatch selector =>
    selector.label ++ " write: record kind mismatch or read-only context"
  | selectorUnsupported selector v => selector.label ++ " not supported on " ++ v.name
  | triggerModeOutOfRange mode =>
    "completion trigger mode " ++ toString mode ++ " out of range"
  | readOutside offset length => outsideText "read32" offset length
  | writeOutside offset length => outsideText "write32" offset length
  | attached v a =>
    v.name ++ ": " ++ toString a.functionCount ++ " PFs, " ++ toString a.queueCount ++
      " queues, caps " ++ capabilityText a.capabilities
  | clearSkipped => "context memory clear skipped on virtual function"
  | memoryCleared queues => "context memory cleared for " ++ toString queues ++ " queues"
  | functionMapSet functionId base count =>
    "fmap " ++ toString functionId ++ ": qbase " ++ toString base ++ " qmax " ++ toString count
  | startFailed qid type e => queueText qid type ++ " start failed: " ++ e.message
  | queueStarted qid type => queueText qid type ++ " started"
  | queueStopped qid type => queueText qid type ++ " stopped"
  | valueTooWide value => Hex.text value.toNat ++ " does not fit context field"
  | queueOutsideRange functionId qid =>
    functionText functionId ++ "queue " ++ toString qid ++ " outside assigned range"
  | countNotReleased functionId qid type e =>
    functionText functionId ++ queueText qid type ++ " active count not released: " ++ e.message
  | rangeNotRestored functionId before now =>
    functionText functionId ++ "range " ++ rangeDetail before ++ " not restored, now " ++
      rangeDetail now
  | rangeRestoreFailed functionId before e =>
    functionText functionId ++ "range " ++ rangeDetail before ++ " not restored: " ++ e.message
  | hintNotFree base count =>
    "qbase hint " ++ toString base ++ " for " ++ toString count ++
      " queues not free, using best fit"
  | groupCreated index key range =>
    "queue group " ++ toString index ++ " for bus " ++ Hex.text key.busStart ++ ".." ++
      Hex.text key.busEnd ++ ": " ++ rangeText range
  | groupDestroyed index => "queue group " ++ toString index ++ " destroyed"
  | destroyRejected functionId active =>
    functionText functionId ++ toString active ++ " queues active, destroy rejected"
  | changeRejected functionId active =>
    functionText functionId ++ toString active ++ " queues active, qmax change rejected"
  | noRoom functionId count =>
    functionText functionId ++ "no room for " ++ toString count ++ " queues"
  | restoreImpossible functionId range =>
    functionText functionId ++ "could not restore " ++ rangeText range ++
      " after failed request"

/-- The notice as a line of a log. -/
def line (n : Notice) : String :=
  n.level.name ++ ": " ++ n.text

end Notice

end DmaQueues
