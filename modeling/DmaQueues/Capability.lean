import DmaQueues.Register
import DmaQueues.Variant

/-!
# Device attributes

What the capability registers and the variant say about a device. Capabilities
are listed in the order of their flag bits.
-/

namespace DmaQueues

inductive Capability where
  | streaming
  | memoryMapped
  | mailbox
  | functionReset
  | memoryCompletion
  | overflowCheckOff
  | mailboxInterrupt
  | softwareDescriptor64
  | completionDescriptor64
  | dynamicBar
  | legacyInterrupt
  | countTimerTrigger
  | vectorContext
  | debugMode
  deriving DecidableEq, Repr

namespace Capability

/-- All capabilities, from bit 0 up. -/
def all : List Capability :=
  [streaming, memoryMapped, mailbox, functionReset, memoryCompletion, overflowCheckOff,
    mailboxInterrupt, softwareDescriptor64, completionDescriptor64, dynamicBar, legacyInterrupt,
    countTimerTrigger, vectorContext, debugMode]

def name : Capability → String
  | streaming => "ST_EN"
  | memoryMapped => "MM_EN"
  | mailbox => "MAILBOX_EN"
  | functionReset => "FLR_PRESENT"
  | memoryCompletion => "MM_CMPT_EN"
  | overflowCheckOff => "CMPT_OVF_CHK_DIS"
  | mailboxInterrupt => "MAILBOX_INTR"
  | softwareDescriptor64 => "SW_DESC_64B"
  | completionDescriptor64 => "CMPT_DESC_64B"
  | dynamicBar => "DYNAMIC_BAR"
  | legacyInterrupt => "LEGACY_INTR"
  | countTimerTrigger => "CMPT_TRIG_COUNT_TIMER"
  | vectorContext => "QID2VEC_CTX"
  | debugMode => "DEBUG_MODE"

/-- Both engines of a pair have to be there. -/
def present (v : Variant) (capabilities engines : UInt32) : Capability → Bool
  | streaming => engines &&& Register.streamMask == Register.streamMask
  | memoryMapped => engines &&& Register.memoryMask == Register.memoryMask
  | mailbox => capabilities &&& Register.mailboxMask != 0
  | functionReset => capabilities &&& Register.resetMask != 0
  | memoryCompletion => v.family == .soft && capabilities &&& Register.memoryCompletionMask != 0
  | vectorContext => v.isHard
  | debugMode => v == .eqdma && capabilities &&& Register.debugMask != 0
  | _ => !v.isHard

/-- The capabilities as a word of flags. -/
def flags (cs : List Capability) : Nat :=
  all.zipIdx.foldl (fun n entry => if cs.contains entry.1 then n ||| 1 <<< entry.2 else n) 0

end Capability

/-- Queues that the descriptor engine serves. -/
inductive DescriptorMode where
  | internalAndBypass
  | bypassOnly
  | internalOnly
  deriving DecidableEq, Repr

/-- All modes in code order. -/
def DescriptorMode.all : List DescriptorMode :=
  [internalAndBypass, bypassOnly, internalOnly]

def DescriptorMode.ofCode? : Nat → Option DescriptorMode
  | 0 => some internalAndBypass
  | 1 => some bypassOnly
  | 2 => some internalOnly
  | _ => none

structure Attributes where
  /-- Physical functions with a BAR mapping. -/
  functionCount : Nat
  /-- Hardware queues. -/
  queueCount : Nat
  /-- Memory-mapped channels per direction. -/
  channels : Nat
  descriptorMode : DescriptorMode
  capabilities : List Capability
  deriving DecidableEq, Repr

namespace Attributes

def has (a : Attributes) (c : Capability) : Bool :=
  a.capabilities.contains c

def streaming (a : Attributes) : Bool :=
  a.has .streaming

def memoryMapped (a : Attributes) : Bool :=
  a.has .memoryMapped

end Attributes

end DmaQueues
