import DmaQueues.Allocation.Registry
import DmaQueues.Proofs.Allocation.Operation

/-!
# Calls that change a group

`Group.Call` is a change of a group as data, and `Group.apply` what it does to the group
before the group is checked. A call makes one of the moves of `Group.Move` and so keeps a
group valid; it ends in a fault only where the increment of a count overflows.
-/

namespace DmaQueues

/-- What a call of the registry gives back. -/
inductive Answer where
  | done
  | handle (h : GroupHandle)
  | base (base : Option Nat)
  | range (range : Option QueueRange)
  | group (h : Option GroupHandle)
  | info (info : GroupInfo)
  | ranges (ranges : List QueueRange)
  | verdict (holds : Bool)
  | count (n : Nat)
  deriving DecidableEq, Repr

def Reply.map {σ ε α β : Type} (f : α → β) (reply : Reply σ ε α) : Reply σ ε β :=
  ⟨reply.state, reply.result.map f, reply.notices⟩

namespace Group

/-- A call that changes a group. -/
inductive Call where
  | createFunction (id : UInt16)
  | destroyFunction (id : UInt16)
  | requestRange (id : UInt16) (count : Nat) (hint : Option Nat)
  | updateFunction (id : UInt16) (count : Nat) (hint : Option Nat)
  | incrementActive (id : UInt16) (type : QueueType)
  | decrementActive (id : UInt16) (type : QueueType)
  deriving DecidableEq, Repr

/-- The function that a call is about. -/
def Call.id : Call → UInt16
  | createFunction id => id
  | destroyFunction id => id
  | requestRange id _ _ => id
  | updateFunction id _ _ => id
  | incrementActive id _ => id
  | decrementActive id _ => id

/-- What a call does to its group. -/
def apply (g : Group) (policy : RequestPolicy) : Call → Checked (Reply Group ResourceError Answer)
  | .createFunction id => Reply.map (fun _ => .done) <$> g.createFunction id
  | .destroyFunction id => Reply.map (fun _ => .done) <$> g.destroyFunction id
  | .requestRange id count hint =>
    Reply.map (fun r => .base (r.map QueueRange.base)) <$> g.requestRange id count hint policy
  | .updateFunction id count hint => Reply.map .range <$> g.requestRange id count hint policy
  | .incrementActive id type => Reply.map (fun _ => .done) <$> g.incrementActive id type
  | .decrementActive id type => Reply.map (fun _ => .done) <$> g.decrementActive id type

/-- The group after some calls. -/
def run (g : Group) (policy : RequestPolicy) : List Call → Checked Group
  | [] => return g
  | c :: cs => do (← g.apply policy c).state.run policy cs

/-- The ways in which a call about the function `id` changes a group. -/
inductive Move (g : Group) (id : UInt16) : Group → Prop where
  | stay : Move g id g
  | attach : g.find? id = none → Move g id (g.attach id)
  | detach {e : FunctionEntry} {free : FreeList} : g.find? id = some e → e.active.sum = 0 →
      g.Swap e free none → Move g id (g.detach id free)
  | assign {e : FunctionEntry} {free : FreeList} {range : Option QueueRange} :
      g.find? id = some e → e.active.sum = 0 → g.Swap e free range →
      Move g id (g.assign id free range)
  | recount {e : FunctionEntry} {type : QueueType} {n active : Nat} : g.find? id = some e →
      (e.active.set type n).sum ≤ e.size → active + e.active.get type = g.active + n →
      Move g id (g.recount id type n active)

namespace Move

variable {g g' : Group} {id : UInt16}

theorem valid (m : g.Move id g') (h : g.Valid) : g'.Valid := by
  cases m with
  | stay => exact h
  | attach hnew => exact h.attach hnew
  | detach he hidle hs => exact h.detach he hidle hs
  | assign he hidle hs => exact h.assign he hidle hs
  | recount he hgate hactive => exact h.recount he hgate hactive

theorem index_eq (m : g.Move id g') : g'.index = g.index := by
  cases m <;> rfl

theorem key_eq (m : g.Move id g') : g'.key = g.key := by
  cases m <;> rfl

theorem whole_eq (m : g.Move id g') : g'.whole = g.whole := by
  cases m <;> rfl

end Move

variable {g : Group}

theorem Requested.move {id : UInt16} {e : FunctionEntry} {count : Nat} {state : Group}
    {result : Except ResourceError (Option QueueRange)} (hr : Requested g id e count state result)
    (he : g.find? id = some e) (hidle : e.active.sum = 0) : g.Move id state := by
  cases hr with
  | freed _ hs => exact .assign he hidle hs
  | given _ hs => exact .assign he hidle hs
  | refused _ => exact .stay

/-! Each operation makes one of the moves. -/

theorem createFunction_move (g : Group) (id : UInt16) :
    ∃ reply, g.createFunction id = .ok reply ∧ g.Move id reply.state := by
  refine ⟨_, createFunction_eq g id, ?_⟩
  cases hf : g.find? id with
  | none => exact .attach hf
  | some e => exact .stay

theorem destroyFunction_move (h : g.Valid) (id : UInt16) :
    ∃ reply, g.destroyFunction id = .ok reply ∧ g.Move id reply.state := by
  obtain ⟨reply, hr, ⟨error, hs, -⟩ | ⟨e, free, he, hidle, hs, rfl⟩⟩ := destroyFunction_spec h id
  · exact ⟨reply, hr, by rw [hs]; exact .stay⟩
  · exact ⟨_, hr, .detach he hidle hs⟩

theorem requestRange_move (h : g.Valid) (id : UInt16) (count : Nat) (hint : Option Nat)
    (policy : RequestPolicy) :
    ∃ reply, g.requestRange id count hint policy = .ok reply ∧ g.Move id reply.state := by
  obtain ⟨reply, hr, ⟨error, hs, -⟩ | ⟨e, he, hidle, hreq⟩⟩ :=
    requestRange_spec h id count hint policy
  · exact ⟨reply, hr, by rw [hs]; exact .stay⟩
  · exact ⟨reply, hr, hreq.move he hidle⟩

theorem incrementActive_move (h : g.Valid) (id : UInt16) (type : QueueType) :
    g.incrementActive id type = .error .addOverflow ∨
      ∃ reply, g.incrementActive id type = .ok reply ∧ g.Move id reply.state := by
  rcases incrementActive_spec h id type with ⟨e, -, -, hf⟩ | ⟨reply, hr, hm⟩
  · exact .inl hf
  · refine .inr ⟨reply, hr, ?_⟩
    rcases hm with ⟨error, hs, -⟩ | ⟨e, r, he, hrange, hroom, rfl⟩
    · rw [hs]
      exact .stay
    · have hsize : e.size = r.count := by simp [FunctionEntry.size, hrange]
      have hsum := e.active.sum_set type (e.active.get type + 1)
      exact .recount he (by omega) (by omega)

theorem decrementActive_move (h : g.Valid) (id : UInt16) (type : QueueType) :
    ∃ reply, g.decrementActive id type = .ok reply ∧ g.Move id reply.state := by
  obtain ⟨reply, hr, ⟨-, rfl⟩ | ⟨e, -, -, rfl⟩ | ⟨e, he, hpos, hact, rfl⟩⟩ :=
    decrementActive_spec h id type
  · exact ⟨_, hr, .stay⟩
  · exact ⟨_, hr, .stay⟩
  · have hsum := e.active.sum_set type (e.active.get type - 1)
    have hgate := h.gate e (find?_eq_some he).1
    exact ⟨_, hr, .recount he (by omega) (by omega)⟩

theorem exists_map {α : Type} {id : UInt16} {op : Checked (Reply Group ResourceError α)}
    (f : α → Answer) (h : ∃ reply, op = .ok reply ∧ g.Move id reply.state) :
    ∃ reply, Reply.map f <$> op = .ok reply ∧ g.Move id reply.state := by
  obtain ⟨reply, rfl, hm⟩ := h
  exact ⟨_, rfl, hm⟩

/-- A call makes one of the moves, or overflows. -/
theorem apply_spec (h : g.Valid) (policy : RequestPolicy) (c : Call) :
    g.apply policy c = .error .addOverflow ∨
      ∃ reply, g.apply policy c = .ok reply ∧ g.Move c.id reply.state := by
  cases c with
  | createFunction id => exact .inr (exists_map _ (createFunction_move g id))
  | destroyFunction id => exact .inr (exists_map _ (destroyFunction_move h id))
  | requestRange id count hint =>
    exact .inr (exists_map _ (requestRange_move h id count hint policy))
  | updateFunction id count hint =>
    exact .inr (exists_map _ (requestRange_move h id count hint policy))
  | incrementActive id type =>
    refine (incrementActive_move h id type).imp (fun hf => ?_) (exists_map _)
    rw [apply, hf]
    rfl
  | decrementActive id type => exact .inr (exists_map _ (decrementActive_move h id type))

end Group

end DmaQueues
