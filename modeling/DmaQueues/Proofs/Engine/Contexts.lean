import DmaQueues.Proofs.Access.Memory
import DmaQueues.Proofs.Engine.Call

/-!
# A device as a map of words

Through the engine a device is a map from contexts to words. `Cells.call` says what a call
answers and how it changes the map, and `behaves_as_contexts` that a device behaves as the map
does over any calls, whatever earlier calls have left in the window.
-/

namespace DmaQueues

namespace Cells

/-- Every context is zero. -/
def blank (w : Window) : Cells := fun _ _ => List.replicate w.words 0

/-- The answer to a call, and the map after it. A call without room changes nothing. -/
def call (w : Window) (m : Cells) (c : Engine.Call) : Engine.Answer × Cells :=
  if w.Takes c.command c.data.length then
    match c.command.operation with
    | .clear =>
      ((.ok (), c.data), m.store c.command.selector c.command.qid (List.replicate w.words 0))
    | .write =>
      ((.ok (), c.data), m.store c.command.selector c.command.qid
        (c.data ++ List.replicate (w.words - c.data.length) 0))
    | .read => ((.ok (), (m c.command.selector c.command.qid).take c.data.length), m)
    | .invalidate => ((.ok (), c.data), m)
  else ((.error .invalidParameter, c.data), m)

/-- The answers to calls, and the map after them. -/
def calls (w : Window) (m : Cells) : List Engine.Call → List Engine.Answer × Cells
  | [] => ([], m)
  | c :: rest =>
    let (answer, next) := m.call w c
    let (answers, last) := next.calls w rest
    (answer :: answers, last)

end Cells

namespace Engine

open Card

variable {e : Engine} {card : Card}

/-! ## One call -/

/-- Too many words are refused by the host. -/
theorem perform_exceeding {c : Call} (hc : c.command.operation = .write ∨ c.command.operation = .read)
    (hlength : ¬ c.data.length ≤ e.window.words) (card : Card) :
    (e.perform c).run (backend e.window) card =
      (.ok (.error .invalidParameter, c.data), card) := by
  obtain ⟨⟨selector, operation, qid⟩, data⟩ := c
  have hexceeds : data.length > e.window.words := Nat.lt_of_not_le hlength
  rcases hc with hc | hc
  · obtain rfl : operation = .write := hc
    show ((e.write selector qid data).run >>= fun r => pure (r, data)).run _ card = _
    unfold write
    rw [if_pos hexceeds]
    rfl
  · obtain rfl : operation = .read := hc
    show (e.readInto selector qid data).run _ card = _
    unfold readInto read
    rw [if_pos hexceeds]
    rfl

/-- A call with room for its words does what the map says, or is refused for its queue id. -/
theorem returns_call {α : Type} {op : Action AccessError α} {c : Call} {a : α} {stored : Memory}
    {finish : Except AccessError α → Answer} (hv : e.window.Valid)
    (hp : card.Prompt e.poll.attempts)
    (hroom : c.command.operation = .write ∨ c.command.operation = .read →
      c.data.length ≤ e.window.words)
    (h : op.run.Returns (backend e.window) card fun r card' =>
      Outcome (e.Addresses c.command.qid) (card.Prompt e.poll.attempts)
        (card.Settles e.poll.attempts) (card.memory e.window) stored a r (card'.memory e.window))
    (hok : e.window.Takes c.command c.data.length →
      Cells.call e.window (card.context e.window) c = (finish (.ok a), stored.contexts))
    (hrefused : finish (.error .invalidParameter) = (.error .invalidParameter, c.data)) :
    (op.run >>= fun r => pure (finish r) : Script Answer).Returns (backend e.window) card
      fun answer card' =>
        (answer, card'.context e.window) = Cells.call e.window (card.context e.window) c := by
  refine h.bind fun r card' ho => Script.returns_pure.2 ?_
  rcases ho.of_prompt hp with ⟨hq, rfl, hm⟩ | ⟨hq, rfl, hm⟩
  · rw [hok ⟨hroom, (addresses_iff hv).1 hq⟩]
    exact congrArg (finish (.ok a), ·) (congrArg Memory.contexts hm)
  · have htakes : ¬ e.window.Takes c.command c.data.length :=
      fun h => hq ((addresses_iff hv).2 h.2)
    rw [Cells.call, if_neg htakes, hrefused]
    exact congrArg (_, ·) (congrArg Memory.contexts hm)

/-- The answer of a read, and the buffer it leaves. -/
def filled (buffer : List UInt32) : Except AccessError (List UInt32) → Answer
  | .ok words => (.ok (), words)
  | .error error => (.error error, buffer)

theorem readInto_eq (e : Engine) (selector : Selector) (qid : UInt16) (buffer : List UInt32) :
    e.readInto selector qid buffer =
      (e.read selector qid buffer.length).run >>= fun r => pure (filled buffer r) := by
  unfold readInto
  refine congrArg (_ >>= ·) (funext fun r => ?_)
  cases r <;> rfl

theorem perform_returns (hv : e.window.Valid) (hp : card.Prompt e.poll.attempts) (c : Call) :
    (e.perform c).Returns (backend e.window) card fun answer card' =>
      (answer, card'.context e.window) = Cells.call e.window (card.context e.window) c := by
  by_cases hroom : c.command.operation = .write ∨ c.command.operation = .read →
    c.data.length ≤ e.window.words
  · obtain ⟨⟨selector, operation, qid⟩, data⟩ := c
    cases operation with
    | clear =>
      refine returns_call hv hp hroom (clear_returns hv selector qid card) (fun h => ?_) rfl
      rw [Cells.call, if_pos h]
      rfl
    | write =>
      have hlength : data.length ≤ e.window.words := hroom (.inl rfl)
      refine returns_call hv hp hroom (write_returns hv selector qid hlength card) (fun h => ?_) rfl
      rw [Cells.call, if_pos h, resize, List.take_of_length_le hlength]
      rfl
    | read =>
      have hlength : data.length ≤ e.window.words := hroom (.inr rfl)
      rw [perform, readInto_eq]
      refine returns_call hv hp hroom (read_returns hv selector qid hlength card) (fun h => ?_) rfl
      rw [Cells.call, if_pos h]
      rfl
    | invalidate =>
      refine returns_call hv hp hroom (invalidate_returns hv selector qid card) (fun h => ?_) rfl
      rw [Cells.call, if_pos h]
      rfl
  · obtain ⟨hc, hlength⟩ := Classical.not_imp.1 hroom
    refine ⟨_, card, perform_exceeding hc hlength card, ?_⟩
    rw [Cells.call, if_neg fun h => hroom h.1]

/-! ## All calls -/

theorem performAll_returns (hv : e.window.Valid) (hp : card.Prompt e.poll.attempts)
    (calls : List Call) :
    (e.performAll calls).Returns (backend e.window) card fun answers card' =>
      (answers, card'.context e.window) = Cells.calls e.window (card.context e.window) calls := by
  induction calls generalizing card with
  | nil => exact Script.returns_pure.2 rfl
  | cons c rest ih =>
    obtain ⟨answer, card', hrun, hcall⟩ := perform_returns hv hp c
    obtain ⟨answers, card'', hrest, hcalls⟩ := ih (hp.run hrun)
    refine .step hrun (.step hrest (Script.returns_pure.2 ?_))
    rw [Cells.calls, ← hcall]
    dsimp only
    rw [← hcalls]

/-- Over any calls a prompt device whose contexts are zero answers as the map of words does that is
zero at first, and its contexts are those of the map, each as wide as the window. So a write
replaces one context, a clear zeroes one, and nothing else is ever changed. -/
theorem behaves_as_contexts {e : Engine} (hw : e.window ∈ Window.all) {card : Card}
    (hp : card.Prompt e.poll.attempts)
    (hzero : card.context e.window = Cells.blank e.window) (calls : List Call) :
    ∃ card', (e.performAll calls).run (backend e.window) card =
        (.ok ((Cells.blank e.window).calls e.window calls).1, card') ∧
      card'.context e.window = ((Cells.blank e.window).calls e.window calls).2 ∧
      ∀ s q, (((Cells.blank e.window).calls e.window calls).2 s q).length = e.window.words := by
  obtain ⟨answers, card', hrun, hcalls⟩ :=
    performAll_returns (Window.valid_of_mem_all hw) hp calls
  rw [hzero] at hcalls
  rw [← hcalls]
  exact ⟨card', hrun, rfl, fun s q => length_context card' e.window s q⟩

/-- Writes of two contexts that share their queue id, the shorter one after the longer, calls
without room, and a clear of one of the two. -/
def mixedCalls : List Call :=
  [⟨⟨.softwareC2h, .write, 3⟩, [1, 2, 3, 4]⟩, ⟨⟨.softwareH2c, .write, 3⟩, [5]⟩,
    ⟨⟨.softwareH2c, .read, 3⟩, [9, 9, 9]⟩, ⟨⟨.softwareC2h, .write, 2051⟩, [6]⟩,
    ⟨⟨.softwareC2h, .write, 3⟩, [6, 6, 6, 6, 6]⟩, ⟨⟨.softwareH2c, .clear, 3⟩, []⟩,
    ⟨⟨.softwareC2h, .invalidate, 3⟩, []⟩, ⟨⟨.softwareC2h, .read, 3⟩, [9, 9]⟩,
    ⟨⟨.softwareH2c, .read, 3⟩, [9]⟩]

/-- The window is stale from the start. -/
theorem mixed_calls_behave_as_contexts :
    ∃ card', (performAll ⟨.hard, ⟨10, 30⟩⟩ mixedCalls).run (backend .hard)
        { registers := fun _ => 0xDEAD, fate := fun i _ => .done (i % 4) } =
      (.ok [(.ok (), [1, 2, 3, 4]), (.ok (), [5]), (.ok (), [5, 0, 0]),
        (.error .invalidParameter, [6]), (.error .invalidParameter, [6, 6, 6, 6, 6]), (.ok (), []),
        (.ok (), []), (.ok (), [1, 2]), (.ok (), [0])], card') := by
  have hprompt : ({ registers := fun _ => 0xDEAD, fate := fun i _ => .done (i % 4) } :
      Card).Prompt (Poll.attempts ⟨10, 30⟩) :=
    fun i _ => ⟨i % 4, Nat.le_of_lt_succ (Nat.mod_lt i (by decide)), rfl⟩
  obtain ⟨card', hrun, -⟩ := behaves_as_contexts (e := ⟨.hard, ⟨10, 30⟩⟩) (by decide) hprompt
    (funext fun _ => funext fun _ => resize_zero _ 0) mixedCalls
  exact ⟨card', hrun⟩

end Engine

end DmaQueues
