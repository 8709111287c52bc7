import DmaQueues.Engine
import DmaQueues.Register

/-!
# Identification

A device is identified by reading alone: the BAR has to carry the configuration
identifier, the version register gives the variant, and the capability registers
the attributes. Virtual functions of EQDMA parts see identifier and version at an
offset of their own, which is tried second.
-/

namespace DmaQueues.Identification

/-- The variant that a version stands for. Versal hard parts need a known release. -/
def select (v : Version) : Action AccessError Variant := do
  match v.platform, v.ip with
  | some .soft, some .qdmaSoft => return .legacySoft
  | some .soft, some .eqdmaSoft => return .eqdma
  | some .versal, some .versalHard =>
    match v.release with
    | some .v2019_2 => return .cpm4
    | some _ => return .versalHard
    | none => throw .unsupportedVersion
  | some .versal, some .versalSoft => return .versalSoft
  | _, _ =>
    Script.notice (.versionUnsupported v)
    throw .unsupportedVersion

def readIdentifier (offset : UInt32) : Script UInt32 := do
  return Mask.get Register.identifierMask (← Script.get offset)

/-- The identifier of the BAR; virtual functions have two places for it. -/
def identifier (isVirtual : Bool) : Script UInt32 := do
  if isVirtual then
    let found ← readIdentifier Register.functionIdentifier
    if found = Register.magic then
      return found
    else
      readIdentifier Register.functionIdentifierEqdma
  else
    readIdentifier Register.identifier

/-- Fails unless this is the configuration BAR. -/
def checkBar (isVirtual : Bool) : Action AccessError Unit := do
  let found ← identifier isVirtual
  if found ≠ Register.magic then
    Script.notice (.identifierMismatch found)
    throw .invalidConfigBar

/-- The decoded version register. For a virtual function, one that shows no platform is read at its
other place. -/
def readVersion (isVirtual : Bool) : Script Version := do
  if isVirtual then
    let version := Version.decode true (← Script.get Register.functionIdentifier)
    if version.platform.isSome then
      return version
    else
      return Version.decode true (← Script.get Register.functionIdentifierEqdma)
  else
    return Version.decode false (← Script.get Register.capabilities)

/-- The mode of the descriptor engine, which only EQDMA parts tell. -/
def descriptorMode (v : Variant) (capabilities : UInt32) : Script DescriptorMode := do
  if v = .eqdma then
    let code := (Mask.get Register.descriptorModeMask capabilities).toNat
    match DescriptorMode.ofCode? code with
    | some mode => return mode
    | none =>
      Script.notice (.descriptorModeUnknown code)
      return .internalAndBypass
  else
    return .internalAndBypass

/-- Physical functions with a BAR mapping. -/
def countFunctions (barMap : UInt32) : Nat :=
  Register.barMapMasks.countP fun mask => Mask.get mask barMap != 0

/-- Reads the capability registers of a `v` device. -/
def readAttributes (v : Variant) : Script Attributes := do
  let barMap ← Script.get Register.barMap
  let capacity ← Script.get Register.capacity
  let capabilities ← Script.get Register.capabilities
  let mode ← descriptorMode v capabilities
  let engines ← Script.get Register.engines
  return {
    functionCount := countFunctions barMap
    queueCount := (Mask.get Register.queueCountMask capacity).toNat
    channels := if v.isHard then 2 else 1
    descriptorMode := mode
    capabilities := Capability.all.filter (Capability.present v capabilities engines) }

end DmaQueues.Identification
