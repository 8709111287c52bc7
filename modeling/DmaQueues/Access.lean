import DmaQueues.Identification
import DmaQueues.Packing.Descriptor
import DmaQueues.Packing.Function
import DmaQueues.Packing.Stream
import DmaQueues.Record.Kind
import DmaQueues.Trigger

/-!
# Context access

`Access` binds the indirect engine to a variant: it packs and unpacks records with
the layouts of the variant and refuses context memories that the variant lacks.
`program` runs one operation with a record, `programRaw` with plain words.

On variants with a direct function map, the function map is a register per
function, for the functions below `Register.functionMapCount`.
-/

namespace DmaQueues

/-- Refuses trigger modes that the hardware does not have. -/
def CompletionContext.validate (r : CompletionContext) : Action AccessError Unit := do
  if r.triggerMode.toNat > TriggerMode.maxCode then
    Script.notice (.triggerModeOutOfRange r.triggerMode.toNat)
    throw .invalidParameter

/-- Packs a completion context that is valid. -/
def CompletionContext.encodeValid (l : Layout CompletionField) (r : CompletionContext) :
    Action AccessError Image := do
  r.validate
  l.encode r

structure Access where
  variant : Variant
  poll : Poll
  /-- The version that the variant was chosen from. -/
  version : Option Version := none
  deriving DecidableEq, Repr

namespace Access

/-- Identifies the device and binds to its variant. Nothing is written. -/
def probe (isVirtual : Bool) (poll : Poll) : Action AccessError Access := do
  Identification.checkBar isVirtual
  let version ← Identification.readVersion isVirtual
  let variant ← Identification.select version
  Script.notice (.engineFound variant version)
  return { variant, poll, version := some version }

def family (a : Access) : Family :=
  a.variant.family

def engine (a : Access) : Engine :=
  ⟨a.variant.window, a.poll⟩

def checkSelector (a : Access) (selector : Selector) : Action AccessError Unit := do
  if !a.variant.supports selector then
    Script.notice (.selectorUnsupported selector a.variant)
    throw .unsupportedSelector

def checkFunction (functionId : UInt16) : Action AccessError Unit := do
  if functionId.toNat ≥ Register.functionMapCount then throw .invalidParameter

/-- The selector addresses function map registers and not a context. -/
def isDirect (a : Access) (selector : Selector) : Bool :=
  selector == .functionMap && a.variant.directFunctionMap

/-! ## Records of one type -/

def writePacked {R F : Type} [Fields R F] (a : Access) (l : Layout F) (selector : Selector)
    (qid : UInt16) (r : R) : Action AccessError Unit := do
  let image ← l.encode r
  a.engine.write selector qid image

def readPacked {R F : Type} [DecidableEq F] [Fields R F] (a : Access) (l : Layout F)
    (selector : Selector) (qid : UInt16) : Action AccessError R := do
  return l.decode (← a.engine.read selector qid l.words)

def writeSoftware (a : Access) (dir : Direction) (qid : UInt16) (r : SoftwareContext) :
    Action AccessError Unit :=
  a.writePacked (SoftwareContext.layout a.family) (.software dir) qid r

def readSoftware (a : Access) (dir : Direction) (qid : UInt16) :
    Action AccessError SoftwareContext :=
  a.readPacked (SoftwareContext.layout a.family) (.software dir) qid

def readHardware (a : Access) (dir : Direction) (qid : UInt16) :
    Action AccessError HardwareContext :=
  a.readPacked (HardwareContext.layout a.family) (.hardware dir) qid

def readCredit (a : Access) (dir : Direction) (qid : UInt16) : Action AccessError CreditContext :=
  a.readPacked (CreditContext.layout a.family) (.credit dir) qid

def writePrefetch (a : Access) (qid : UInt16) (r : PrefetchContext) : Action AccessError Unit :=
  a.writePacked (PrefetchContext.layout a.family) .prefetch qid r

def readPrefetch (a : Access) (qid : UInt16) : Action AccessError PrefetchContext :=
  a.readPacked (PrefetchContext.layout a.family) .prefetch qid

/-- The record is validated before it is packed. -/
def writeCompletion (a : Access) (qid : UInt16) (r : CompletionContext) :
    Action AccessError Unit := do
  let image ← r.encodeValid (CompletionContext.layout a.family)
  a.engine.write .completion qid image

def readCompletion (a : Access) (qid : UInt16) : Action AccessError CompletionContext :=
  a.readPacked (CompletionContext.layout a.family) .completion qid

def writeInterrupt (a : Access) (ring : UInt16) (r : InterruptContext) :
    Action AccessError Unit :=
  a.writePacked (InterruptContext.layout a.family) .interruptAggregation ring r

def readInterrupt (a : Access) (ring : UInt16) : Action AccessError InterruptContext :=
  a.readPacked (InterruptContext.layout a.family) .interruptAggregation ring

def writeFunctionMap (a : Access) (functionId : UInt16) (r : FunctionMap) :
    Action AccessError Unit := do
  let image ← (FunctionMap.layout a.family).encode r
  if a.variant.directFunctionMap then
    checkFunction functionId
    Script.put (Register.functionMap functionId) (image.headD 0)
  else
    a.engine.write .functionMap functionId image

def readFunctionMap (a : Access) (functionId : UInt16) : Action AccessError FunctionMap := do
  if a.variant.directFunctionMap then
    checkFunction functionId
    return (FunctionMap.layout a.family).decode
      [← Script.get (Register.functionMap functionId)]
  else
    a.readPacked (FunctionMap.layout a.family) .functionMap functionId

/-! ## Any context -/

/-- Zeroes a context or a function map register. -/
def clear (a : Access) (selector : Selector) (qid : UInt16) : Action AccessError Unit := do
  a.checkSelector selector
  if a.isDirect selector then
    checkFunction qid
    Script.put (Register.functionMap qid) 0
  else
    a.engine.clear selector qid

/-- Drops the cached copy of a context. A function map register has none. -/
def invalidate (a : Access) (selector : Selector) (qid : UInt16) : Action AccessError Unit := do
  a.checkSelector selector
  if a.isDirect selector then
    throw .invalidParameter
  else
    a.engine.invalidate selector qid

/-- Writes a record to a context of its kind. -/
def writeRecord (a : Access) (selector : Selector) (qid : UInt16) (record : Record) :
    Action AccessError Unit := do
  match selector, record with
  | .softwareC2h, .software r => a.writeSoftware .c2h qid r
  | .softwareH2c, .software r => a.writeSoftware .h2c qid r
  | .prefetch, .prefetch r => a.writePrefetch qid r
  | .completion, .completion r => a.writeCompletion qid r
  | .interruptAggregation, .interrupt r => a.writeInterrupt qid r
  | .functionMap, .functionMap r => a.writeFunctionMap qid r
  | _, _ =>
    Script.notice (.recordMismatch selector)
    throw .invalidParameter

/-- Reads a context as the record of its kind. Address space tables and timers have none. -/
def readRecord (a : Access) (selector : Selector) (qid : UInt16) : Action AccessError Record :=
  match selector with
  | .softwareC2h => .software <$> a.readSoftware .c2h qid
  | .softwareH2c => .software <$> a.readSoftware .h2c qid
  | .hardwareC2h => .hardware <$> a.readHardware .c2h qid
  | .hardwareH2c => .hardware <$> a.readHardware .h2c qid
  | .creditC2h => .credit <$> a.readCredit .c2h qid
  | .creditH2c => .credit <$> a.readCredit .h2c qid
  | .prefetch => .prefetch <$> a.readPrefetch qid
  | .completion => .completion <$> a.readCompletion qid
  | .interruptAggregation => .interrupt <$> a.readInterrupt qid
  | .functionMap => .functionMap <$> a.readFunctionMap qid
  | .pasidRamLow => throw .invalidParameter
  | .pasidRamHigh => throw .invalidParameter
  | .timer => throw .invalidParameter

/-- Runs an operation on a context. A write needs a record and a read gives one. -/
def program (a : Access) (selector : Selector) (operation : Operation) (qid : UInt16)
    (record : Option Record) : Action AccessError (Option Record) := do
  a.checkSelector selector
  match operation with
  | .clear =>
    a.clear selector qid
    return none
  | .invalidate =>
    a.invalidate selector qid
    return none
  | .write =>
    match record with
    | none => throw .invalidParameter
    | some record =>
      a.writeRecord selector qid record
      return none
  | .read => some <$> a.readRecord selector qid

/-- Runs an operation with plain words: a write sends `data`, a read fills it. The words after the
operation are returned beside its outcome. -/
def programRaw (a : Access) (selector : Selector) (operation : Operation) (qid : UInt16)
    (data : List UInt32) : Script (Except AccessError Unit × List UInt32) := do
  match ← (a.checkSelector selector).run with
  | .error error => return (.error error, data)
  | .ok () =>
    if a.isDirect selector then
      return (.error .invalidParameter, data)
    else
      match operation with
      | .write => return (← (a.engine.write selector qid data).run, data)
      | .read => a.engine.readInto selector qid data
      | .clear => return (← (a.engine.clear selector qid).run, data)
      | .invalidate => return (← (a.engine.invalidate selector qid).run, data)

end Access

end DmaQueues
