import DmaQueues.Word.Mask

/-!
# Register map

Byte offsets into the configuration BAR and the masks of their fields.
-/

namespace DmaQueues.Register

/-- Identifier of the configuration block, as physical functions see it. -/
def identifier : UInt32 := 0x0

/-- Identifier and version, as virtual functions see them. -/
def functionIdentifier : UInt32 := 0x1014

/-- Identifier and version, as virtual functions of EQDMA parts see them. -/
def functionIdentifierEqdma : UInt32 := 0x5014

def identifierMask : Mask := Mask.ones 31 16

/-- The identifier of a configuration block. -/
def magic : UInt32 := 0x1fd3

/-- BAR mapping of the physical functions, six bits each. -/
def barMap : UInt32 := 0x104

/-- The BAR mapping of each physical function. -/
def barMapMasks : List Mask :=
  [Mask.ones 5 0, Mask.ones 11 6, Mask.ones 17 12, Mask.ones 23 18]

/-- Presence of the engines. -/
def engines : UInt32 := 0x118

def streamMask : Mask := Mask.ones 17 16

def memoryMask : Mask := Mask.ones 8 8 ||| Mask.ones 0 0

/-- Queue capacity. -/
def capacity : UInt32 := 0x120

def queueCountMask : Mask := Mask.ones 11 0

/-- Further capabilities; the upper half holds the version. -/
def capabilities : UInt32 := 0x134

def mailboxMask : Mask := Mask.ones 0 0

def resetMask : Mask := Mask.ones 1 1

/-- Completion rings of memory-mapped queues, on soft parts. -/
def memoryCompletionMask : Mask := Mask.ones 2 2

/-- Mode of the descriptor engine, on EQDMA parts. -/
def descriptorModeMask : Mask := Mask.ones 3 2

/-- Debug mode, on EQDMA parts. -/
def debugMask : Mask := Mask.ones 4 4

/-- Number of functions with a function map register of their own. -/
def functionMapCount : Nat := 256

/-- The function map register of a function. -/
def functionMap (functionId : UInt16) : UInt32 :=
  0x400 + functionId.toUInt32 * 4

end DmaQueues.Register
