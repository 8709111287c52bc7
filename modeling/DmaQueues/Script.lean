import DmaQueues.Notice

/-!
# Scripts of register accesses

A `Script` is what the library does to a device, as data: a tree of register
reads and writes, delays and notices, where the value of a read picks the branch
that follows. Every wait in it is bounded, so every branch ends, in a value or in
a fault.

A `Backend` answers the accesses from a state of its own, and `Script.run` follows
the branch that it picks.
-/

namespace DmaQueues

inductive Script (α : Type) where
  | pure (a : α)
  | halt (f : Fault)
  | read (offset : UInt32) (next : UInt32 → Script α)
  | write (offset value : UInt32) (next : Unit → Script α)
  | delay (microseconds : UInt32) (next : Unit → Script α)
  | note (n : Notice) (next : Unit → Script α)

namespace Script

variable {α β : Type}

/-- `s`, going on with `f` where `s` ends in a value. -/
def bind (s : Script α) (f : α → Script β) : Script β :=
  match s with
  | pure a => f a
  | halt e => halt e
  | read offset next => read offset fun v => (next v).bind f
  | write offset value next => write offset value fun u => (next u).bind f
  | delay us next => delay us fun u => (next u).bind f
  | note n next => note n fun u => (next u).bind f

instance : Monad Script where
  pure := Script.pure
  bind := Script.bind

theorem bind_pure (s : Script α) : s.bind Script.pure = s := by
  induction s <;> simp_all [bind]

theorem bind_assoc {γ : Type} (s : Script α) (f : α → Script β) (g : β → Script γ) :
    (s.bind f).bind g = s.bind fun a => (f a).bind g := by
  induction s <;> simp_all [bind]

instance : LawfulMonad Script :=
  LawfulMonad.mk' Script bind_pure (fun _ _ => rfl) bind_assoc

/-- A checked value, with its fault ending the script. -/
def ofChecked : Checked α → Script α
  | .ok a => pure a
  | .error f => halt f

instance : MonadLift Checked Script where
  monadLift := ofChecked

/-- A checked value or error, with its fault ending the script. -/
def ofChecked? {ε : Type} (c : ExceptT ε Checked α) : ExceptT ε Script α :=
  ExceptT.mk (ofChecked c.run)

/-- Reads one register. -/
def get (offset : UInt32) : Script UInt32 :=
  read offset pure

/-- Writes one register. -/
def put (offset value : UInt32) : Script Unit :=
  write offset value pure

/-- Waits. -/
def wait (microseconds : UInt32) : Script Unit :=
  delay microseconds pure

def notice (n : Notice) : Script Unit :=
  note n pure

def notices : List Notice → Script Unit
  | [] => pure ()
  | n :: ns => do
    notice n
    notices ns

/-! ## Blocks of registers -/

/-- Offset of the register `index` places after `offset`. -/
def offsetAt (offset : UInt32) (index : Nat) : Checked UInt32 := do
  return UInt32.ofNat (← Checked.add offset.toNat (4 * index))

def putFrom (offset : UInt32) (index : Nat) : List UInt32 → Script Unit
  | [] => pure ()
  | value :: values => do
    put (← offsetAt offset index) value
    putFrom offset (index + 1) values

/-- Writes consecutive registers. -/
def putBlock (offset : UInt32) (values : List UInt32) : Script Unit :=
  putFrom offset 0 values

def getFrom (offset : UInt32) (index : Nat) : Nat → Script (List UInt32)
  | 0 => pure []
  | length + 1 => do
    let value ← get (← offsetAt offset index)
    return value :: (← getFrom offset (index + 1) length)

/-- Reads consecutive registers. -/
def getBlock (offset : UInt32) (length : Nat) : Script (List UInt32) :=
  getFrom offset 0 length

/-! ## A mapped BAR -/

/-- A whole register at `offset` lies in the first `length` bytes. -/
def mapped (length : Nat) (offset : UInt32) : Bool :=
  offset.toNat % 4 == 0 && decide (offset.toNat + 4 ≤ length)

/-- The script behind a BAR of `length` bytes: outside of it a read gives all ones and a write does
nothing, and either leaves a notice. -/
def within (length : Nat) : Script α → Script α
  | pure a => pure a
  | halt f => halt f
  | read offset next =>
    if mapped length offset then read offset fun v => (next v).within length
    else note (.readOutside offset length) fun _ => (next 0xFFFFFFFF).within length
  | write offset value next =>
    if mapped length offset then write offset value fun u => (next u).within length
    else note (.writeOutside offset length) fun u => (next u).within length
  | delay us next => delay us fun u => (next u).within length
  | note n next => note n fun u => (next u).within length

end Script

/-! ## Running a script -/

/-- What answers the accesses of a script, with states in `σ`. -/
structure Backend (σ : Type) where
  read : σ → UInt32 → UInt32 × σ
  write : σ → UInt32 → UInt32 → σ
  delay : σ → UInt32 → σ := fun s _ => s
  note : σ → Notice → σ := fun s _ => s

namespace Script

variable {α β σ : Type}

def run (b : Backend σ) : Script α → σ → Checked α × σ
  | pure a, s => (.ok a, s)
  | halt f, s => (.error f, s)
  | read offset next, s =>
    match b.read s offset with
    | (v, s') => (next v).run b s'
  | write offset value next, s => (next ()).run b (b.write s offset value)
  | delay us next, s => (next ()).run b (b.delay s us)
  | note n next, s => (next ()).run b (b.note s n)

theorem run_bind (b : Backend σ) (p : Script α) (f : α → Script β) (s : σ) :
    (p >>= f).run b s =
      match p.run b s with
      | (.ok a, s') => (f a).run b s'
      | (.error e, s') => (.error e, s') := by
  show (p.bind f).run b s = _
  induction p generalizing s <;> simp_all [bind, run]

end Script

/-- Contents of the registers, by offset. -/
abbrev Registers := UInt32 → UInt32

/-- `registers` with one of them changed. -/
def Registers.set (registers : Registers) (offset value : UInt32) : Registers :=
  fun o => if o = offset then value else registers o

/-- Plain registers that keep what is written to them. -/
def Backend.plain : Backend Registers where
  read registers offset := (registers offset, registers)
  write registers offset value := registers.set offset value

end DmaQueues
