import DmaQueues.Script

/-!
# Traces

A trace is the history of a run, its first event first. `Script.trace` runs a script
with `Backend.recorded`, which keeps the history beside the state of the backend.
-/

namespace DmaQueues

inductive Event where
  | read (offset value : UInt32)
  | write (offset value : UInt32)
  | delay (microseconds : UInt32)
  | note (n : Notice)
  deriving DecidableEq, Repr

abbrev Trace := List Event

/-- `b` with the history beside its state, newest first. -/
def Backend.recorded {σ : Type} (b : Backend σ) : Backend (σ × List Event) where
  read s offset :=
    match b.read s.1 offset with
    | (v, s') => (v, s', .read offset v :: s.2)
  write s offset value := (b.write s.1 offset value, .write offset value :: s.2)
  delay s us := (b.delay s.1 us, .delay us :: s.2)
  note s n := (b.note s.1 n, .note n :: s.2)

/-- Runs a script and gives the state afterwards and the trace beside its value. -/
def Script.trace {α σ : Type} (b : Backend σ) (p : Script α) (s : σ) : Checked α × σ × Trace :=
  match p.run b.recorded (s, []) with
  | (r, s', history) => (r, s', history.reverse)

namespace Trace

/-- The offsets that were read, with what was read there. -/
def reads (t : Trace) : List (UInt32 × UInt32) :=
  t.filterMap fun
    | .read offset value => some (offset, value)
    | _ => none

/-- The offsets that were written, with what was written there. -/
def writes (t : Trace) : List (UInt32 × UInt32) :=
  t.filterMap fun
    | .write offset value => some (offset, value)
    | _ => none

/-- The delays in microseconds. -/
def delays (t : Trace) : List Nat :=
  t.filterMap fun
    | .delay us => some us.toNat
    | _ => none

def notices (t : Trace) : List Notice :=
  t.filterMap fun
    | .note n => some n
    | _ => none

end Trace

end DmaQueues
