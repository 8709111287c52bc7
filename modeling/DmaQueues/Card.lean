import DmaQueues.Image
import DmaQueues.Script

/-!
# A reference card

`Card` is a device behind a window: registers, and context memory by selector and
queue id. Writing the command register hands over a command on the data and mask
registers; reading it says whether the command is still in flight. What becomes of
each command is up to the card: most are done after some samples, but one can be
lost, or be executed and never report it.
-/

namespace DmaQueues

/-- What becomes of a command. -/
inductive Fate where
  /-- It is executed and in flight for so many samples. -/
  | done (samples : Nat)
  /-- It is never executed and stays in flight. -/
  | lost
  /-- It is executed, but stays in flight. -/
  | stalled
  deriving DecidableEq, Repr

structure Card where
  registers : Registers := fun _ => 0
  contexts : Selector → UInt16 → Option (List UInt32) := fun _ _ => none
  /-- The fate of a command, by the number of commands before it. -/
  fate : Nat → Command → Fate := fun _ _ => .done 0
  /-- Commands handed over so far. -/
  accepted : Nat := 0
  /-- Samples until the last command is done, if it ever is. -/
  remaining : Option Nat := some 0

namespace Card

/-- `words` cut or filled up with zeros to `length` words. -/
def resize (length : Nat) (words : List UInt32) : List UInt32 :=
  words.take length ++ List.replicate (length - words.length) 0

/-- The context of a queue, zero if it was never stored. -/
def context (card : Card) (w : Window) (selector : Selector) (qid : UInt16) : List UInt32 :=
  resize w.words ((card.contexts selector qid).getD [])

def setContext (card : Card) (selector : Selector) (qid : UInt16) (words : List UInt32) : Card :=
  { card with
    contexts := fun s q => if s = selector ∧ q = qid then some words else card.contexts s q }

/-- The register `index` places after `offset`. -/
def wordAt (card : Card) (offset : UInt32) (index : Nat) : UInt32 :=
  card.registers (offset + UInt32.ofNat (4 * index))

/-- `registers` with `words` stored from `offset` on. -/
def setWords (registers : Registers) (offset : UInt32) (words : List UInt32) : Registers :=
  words.zipIdx.foldl (fun rs entry => rs.set (offset + UInt32.ofNat (4 * entry.2)) entry.1)
    registers

/-- The context after a write: masked bits come from the data registers. -/
def masked (card : Card) (w : Window) (old : List UInt32) : List UInt32 :=
  old.mapIdx fun i word =>
    let mask := card.wordAt w.mask i
    (word &&& ~~~mask) ||| (card.wordAt w.data i &&& mask)

/-- What a command does once it completes. -/
def execute (card : Card) (w : Window) (c : Command) : Card :=
  match c.operation with
  | .clear => card.setContext c.selector c.qid (List.replicate w.words 0)
  | .write =>
    card.setContext c.selector c.qid (card.masked w (card.context w c.selector c.qid))
  | .read =>
    { card with registers := setWords card.registers w.data (card.context w c.selector c.qid) }
  | .invalidate => card

/-- Takes over a command and lets its fate take its course. -/
def accept (card : Card) (w : Window) (c : Command) : Card :=
  let next := { card with accepted := card.accepted + 1 }
  match card.fate card.accepted c with
  | .done samples => { next.execute w c with remaining := some samples }
  | .lost => { next with remaining := none }
  | .stalled => { next.execute w c with remaining := none }

/-- A sample of the command register: one while a command is in flight. -/
def sample (card : Card) : UInt32 × Card :=
  match card.remaining with
  | none => (1, card)
  | some 0 => (0, card)
  | some (samples + 1) => (1, { card with remaining := some samples })

/-- The card behind window `w`. Words that are no command are ignored. -/
def backend (w : Window) : Backend Card where
  read card offset :=
    if offset = w.command then card.sample else (card.registers offset, card)
  write card offset value :=
    if offset = w.command then
      match Command.decode? value w.qidMask with
      | some c => card.accept w c
      | none => card
    else { card with registers := card.registers.set offset value }

end Card

end DmaQueues
