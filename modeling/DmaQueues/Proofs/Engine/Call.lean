import DmaQueues.Proofs.Engine
import DmaQueues.Proofs.Trace

/-!
# Calls of the engine

A call of the engine is a command with the words of the caller. Over any device its events
take one of the courses of `Engine.Course`: nothing is accessed, or the window is loaded, the
command issued and its busy bit sampled, and after an idle sample words are fetched.
-/

namespace DmaQueues

namespace Window

/-- `length` registers from `offset` on. -/
def block (offset : UInt32) (length : Nat) : List UInt32 :=
  (List.range length).map fun i => offset + UInt32.ofNat (4 * i)

def dataRegisters (w : Window) : List UInt32 :=
  block w.data w.words

def maskRegisters (w : Window) : List UInt32 :=
  block w.mask w.words

/-- The registers of the window. -/
def registers (w : Window) : List UInt32 :=
  w.dataRegisters ++ w.maskRegisters ++ [w.command]

/-- The windows of the hardware. -/
def all : List Window :=
  [soft, eqdma, hard]

/-- The window has room for the words of a command and for its queue id. -/
def Takes (w : Window) (c : Command) (length : Nat) : Prop :=
  (c.operation = .write ∨ c.operation = .read → length ≤ w.words) ∧
    c.qid.toNat < 2 ^ w.qidMask.width

instance (w : Window) (c : Command) (length : Nat) : Decidable (w.Takes c length) :=
  inferInstanceAs (Decidable (_ ∧ _))

variable {w : Window}

theorem valid_of_mem_all (h : w ∈ all) : w.Valid := by
  unfold all at h
  simp only [List.mem_cons, List.not_mem_nil, or_false] at h
  rcases h with rfl | rfl | rfl
  all_goals exact ⟨by decide, by decide, by decide, by decide +kernel, by decide +kernel⟩

theorem mem_block {offset o : UInt32} {length i : Nat} (hi : i < length)
    (ho : o = offset + UInt32.ofNat (4 * i)) : o ∈ block offset length :=
  List.mem_map.2 ⟨i, List.mem_range.2 hi, ho.symm⟩

/-- Blocks end before the command register. -/
theorem ne_command_of_mem_block {offset o : UInt32} {length : Nat}
    (h : offset.toNat + 4 * length ≤ w.command.toNat) (ho : o ∈ block offset length) :
    o ≠ w.command := by
  obtain ⟨i, hi, rfl⟩ := List.mem_map.1 ho
  have hlt := List.mem_range.1 hi
  have hcommand := w.command.toNat_lt
  have hat := Card.toNat_offset offset (i := i) (by omega)
  intro heq
  rw [heq] at hat
  omega

theorem Valid.ne_command (hv : w.Valid) {o : UInt32}
    (ho : o ∈ w.dataRegisters ∨ o ∈ w.maskRegisters) : o ≠ w.command := by
  have hdata := hv.data
  have hmask := hv.mask
  rcases ho with ho | ho
  · exact ne_command_of_mem_block (by omega) ho
  · exact ne_command_of_mem_block hmask ho

end Window

namespace Engine

/-- A command with the words of the caller: those to write, or the place for those to read. -/
structure Call where
  command : Command
  data : List UInt32 := []
  deriving DecidableEq, Repr

/-- The outcome of a call, and the words of the caller after it. -/
abbrev Answer := Except AccessError Unit × List UInt32

def perform (e : Engine) (c : Call) : Script Answer :=
  match c.command.operation with
  | .write => return (← (e.write c.command.selector c.command.qid c.data).run, c.data)
  | .read => e.readInto c.command.selector c.command.qid c.data
  | .clear => return (← (e.clear c.command.selector c.command.qid).run, c.data)
  | .invalidate => return (← (e.invalidate c.command.selector c.command.qid).run, c.data)

/-- The calls one after the other, with all their answers. -/
def performAll (e : Engine) : List Call → Script (List Answer)
  | [] => return []
  | c :: rest => do
    let answer ← e.perform c
    return answer :: (← e.performAll rest)

variable {e : Engine} {c : Command}

theorem addresses_iff (hv : e.window.Valid) {qid : UInt16} :
    e.Addresses qid ↔ qid.toNat < 2 ^ e.window.qidMask.width := by
  have hqid : qid.toUInt64.toNat = qid.toNat := UInt16.toNat_toUInt64 qid
  rw [← hqid]
  exact hv.qid.fits_iff

/-! ## No call ends in a fault -/

theorem total_invalidate (hv : e.window.Valid) (selector : Selector) (qid : UInt16) :
    (e.invalidate selector qid).run.Total :=
  (total_commandWord hv _).action fun word => total_issue e _ word

theorem total_getFrom {offset : UInt32} {index length : Nat}
    (h : offset.toNat + 4 * (index + length) ≤ 2 ^ 32) :
    (Script.getFrom offset index length).Total := by
  induction length generalizing index with
  | zero => trivial
  | succ n ih =>
    show (Script.ofChecked (Script.offsetAt offset index) >>= fun o => Script.get o >>= fun value =>
      Script.getFrom offset (index + 1) n >>= fun values => pure (value :: values)).Total
    rw [Card.offsetAt_eq (by omega)]
    exact fun _ => (ih (by omega)).bind fun _ => trivial

theorem total_read (hv : e.window.Valid) (selector : Selector) (qid : UInt16) (length : Nat) :
    (e.read selector qid length).run.Total := by
  have hdata := hv.data
  have hmask := hv.mask
  have hcommand := e.window.command.toNat_lt
  unfold read
  by_cases hlength : length > e.window.words
  · rw [if_pos hlength]
    trivial
  · rw [if_neg hlength]
    refine (total_commandWord hv _).action fun word => (total_issue e _ word).action fun _ => ?_
    exact Script.total_lift (total_getFrom (by omega))

theorem total_perform (hv : e.window.Valid) (c : Call) : (e.perform c).Total := by
  obtain ⟨⟨selector, operation, qid⟩, data⟩ := c
  cases operation with
  | clear => exact (total_clear hv selector qid).bind fun _ => trivial
  | write => exact (total_write hv selector qid data).bind fun _ => trivial
  | read =>
    refine (total_read hv selector qid data.length).bind fun r => ?_
    cases r <;> trivial
  | invalidate => exact (total_invalidate hv selector qid).bind fun _ => trivial

theorem total_performAll (hv : e.window.Valid) (calls : List Call) :
    (e.performAll calls).Total := by
  induction calls with
  | nil => trivial
  | cons c rest ih => exact (total_perform hv c).bind fun _ => ih.bind fun _ => trivial

/-! ## Courses -/

/-- The data and the mask words are written. -/
structure Loads (e : Engine) (t : Trace) : Prop where
  reads : t.reads = []
  writes : ∀ access ∈ t.writes,
    access.1 ∈ e.window.dataRegisters ∨ access.1 ∈ e.window.maskRegisters

/-- The command register is sampled, and the last sample is idle or not. -/
structure Polls (e : Engine) (idle : Bool) (t : Trace) : Prop where
  writes : t.writes = []
  reads : ∀ access ∈ t.reads, access.1 = e.window.command
  last : ∃ value, t.reads.getLast? = some (e.window.command, value) ∧
    (value &&& Command.busyMask == 0) = idle

/-- Data words are read. -/
structure Fetches (e : Engine) (t : Trace) : Prop where
  writes : t.writes = []
  reads : ∀ access ∈ t.reads, access.1 ∈ e.window.dataRegisters

/-- The outcome and the events of a command that moves so many words. -/
inductive Course (e : Engine) (c : Command) (length : Nat) :
    Except AccessError Unit → Trace → Prop where
  | refused {t : Trace} (h : ¬ e.window.Takes c length) (ht : ∃ ns, t = List.map Event.note ns) :
    Course e c length (.error .invalidParameter) t
  | done {n : Notice} {word : UInt32} {loads polls fetched : Trace}
    (h : e.window.Takes c length) (hl : e.Loads loads) (hp : e.Polls true polls)
    (hf : e.Fetches fetched) :
    Course e c length (.ok ())
      (loads ++ .note n :: .write e.window.command word :: (polls ++ fetched))
  | timedOut {n n' : Notice} {word : UInt32} {loads polls : Trace}
    (h : e.window.Takes c length) (hl : e.Loads loads) (hp : e.Polls false polls) :
    Course e c length (.error .busyTimeout)
      (loads ++ .note n :: .write e.window.command word :: (polls ++ [.note n']))

theorem loads_nil (e : Engine) : e.Loads [] :=
  ⟨rfl, nofun⟩

theorem fetches_nil (e : Engine) : e.Fetches [] :=
  ⟨rfl, nofun⟩

theorem Loads.append {t t' : Trace} (h : e.Loads t) (h' : e.Loads t') : e.Loads (t ++ t') where
  reads := by rw [Trace.reads_append, h.reads, h'.reads, List.append_nil]
  writes access haccess := by
    rw [Trace.writes_append] at haccess
    exact (List.mem_append.1 haccess).elim (h.writes access) (h'.writes access)

theorem Course.andFetch {length : Nat} {t t' : Trace} (h : e.Course c length (.ok ()) t)
    (hf : e.Fetches t') : e.Course c length (.ok ()) (t ++ t') := by
  cases h with
  | @done n word loads polls fetched h hl hp hf' =>
    have hboth : e.Fetches (fetched ++ t') :=
      ⟨by rw [Trace.writes_append, hf'.writes, hf.writes, List.append_nil], fun access haccess => by
        rw [Trace.reads_append] at haccess
        exact (List.mem_append.1 haccess).elim (hf'.reads access) (hf.reads access)⟩
    simp only [List.append_assoc, List.cons_append]
    exact .done h hl hp hboth

/-! ## The events of a call -/

theorem waitIdle_polls (e : Engine) (attempts : Nat) :
    (e.waitIdle attempts).Traces fun idle t => e.Polls idle t := by
  induction attempts with
  | zero => exact fun v => ⟨rfl, by simp, v, rfl, rfl⟩
  | succ n ih =>
    intro v
    show (if (v &&& Command.busyMask == 0) = true then (pure true : Script Bool) else
      Script.wait e.poll.interval >>= fun _ => e.waitIdle n).Traces _
    split
    · next hidle => exact ⟨rfl, by simp, v, rfl, hidle⟩
    · refine ih.mono fun idle t ht => ⟨ht.writes, ?_, ?_⟩
      · simpa using ht.reads
      · obtain ⟨value, hlast, hidle⟩ := ht.last
        refine ⟨value, ?_, hidle⟩
        rw [Trace.reads_read, Trace.reads_delay, List.getLast?_cons, hlast]
        rfl

theorem putBlock_loads {words : List UInt32} {offset : UInt32}
    (hwords : words.length = e.window.words)
    (hoffset : offset = e.window.data ∨ offset = e.window.mask) :
    (Script.putBlock offset words).Traces fun _ t => e.Loads t := by
  refine (Script.putFrom_traces offset 0 words).mono fun _ t ⟨hreads, hwrites⟩ => ⟨hreads, ?_⟩
  intro access haccess
  obtain ⟨i, hi, heq⟩ := hwrites access haccess
  have hmem : access.1 ∈ Window.block offset e.window.words :=
    Window.mem_block (by omega) heq
  rcases hoffset with rfl | rfl
  · exact .inl hmem
  · exact .inr hmem

theorem getBlock_fetches {length : Nat} (h : length ≤ e.window.words) :
    (Script.getBlock e.window.data length).Traces fun _ t => e.Fetches t := by
  refine (Script.getFrom_traces e.window.data 0 length).mono fun _ t ⟨hwrites, hreads⟩ =>
    ⟨hwrites, fun access haccess => ?_⟩
  obtain ⟨i, hi, heq⟩ := hreads access haccess
  exact Window.mem_block (by omega) heq

section

variable {length : Nat} {loads : Trace}

/-- The rest of a call whose command word is formed. -/
theorem issue_course (h : e.window.Takes c length) (hl : e.Loads loads) (word : UInt32) :
    (e.issue c word).run.Traces fun r t => e.Course c length r (loads ++ t) := by
  unfold issue
  simp only [Script.run_lift_bind]
  show (e.waitIdle e.poll.attempts >>= fun idle => _).Traces _
  refine (waitIdle_polls e e.poll.attempts).bind fun idle t hp => ?_
  cases idle with
  | true => exact .done h hl hp (fetches_nil e)
  | false => exact .timedOut h hl hp

/-- A command word is formed for a queue id that has its place. -/
theorem command_traces {α : Type} {f : UInt32 → Action AccessError α}
    {P : Except AccessError α → Trace → Prop} (hv : e.window.Valid)
    (haddressed : e.Addresses c.qid → (f (c.word e.window.qidMask)).run.Traces P)
    (hrefused : ¬ e.Addresses c.qid → ∀ n, P (.error .invalidParameter) [.note n]) :
    (e.commandWord c >>= f).run.Traces P := by
  rw [Script.run_action_bind]
  unfold commandWord
  by_cases hq : e.Addresses c.qid
  · rw [Command.encode_eq hv.qid hq]
    exact haddressed hq
  · rw [Command.encode_error (Bool.eq_false_iff.2 hq)]
    exact hrefused hq _

theorem simple_course (hv : e.window.Valid) (hc : ¬ (c.operation = .write ∨ c.operation = .read))
    (length : Nat) : (e.simple c).run.Traces fun r t => e.Course c length r t := by
  refine command_traces hv (fun hq => ?_) fun hq n => ?_
  · exact issue_course ⟨fun hmoves => absurd hmoves hc, (addresses_iff hv).1 hq⟩ (loads_nil e) _
  · exact .refused (fun h => hq ((addresses_iff hv).2 h.2)) ⟨[n], rfl⟩

theorem write_course (hv : e.window.Valid) (selector : Selector) (qid : UInt16)
    (data : List UInt32) :
    (e.write selector qid data).run.Traces fun r t =>
      e.Course ⟨selector, .write, qid⟩ data.length r t := by
  unfold write
  by_cases hlength : data.length > e.window.words
  · rw [if_pos hlength]
    exact .refused (fun h => by have := h.1 (.inl rfl); omega) ⟨[_], rfl⟩
  · rw [if_neg hlength]
    refine command_traces hv (fun hq => ?_) fun hq n => ?_
    · simp only [Script.run_lift_bind]
      refine (putBlock_loads (by simp; omega) (.inl rfl)).bind fun _ t ht => ?_
      refine (putBlock_loads (by simp) (.inr rfl)).bind fun _ t' ht' => ?_
      simp only [← List.append_assoc]
      exact issue_course ⟨fun _ => by omega, (addresses_iff hv).1 hq⟩ (ht.append ht') _
    · exact .refused (fun h => hq ((addresses_iff hv).2 h.2)) ⟨[n], rfl⟩

theorem read_course (hv : e.window.Valid) (selector : Selector) (qid : UInt16) (length : Nat) :
    (e.read selector qid length).run.Traces fun r t =>
      e.Course ⟨selector, .read, qid⟩ length (r.map fun _ => ()) t := by
  unfold read
  by_cases hlength : length > e.window.words
  · rw [if_pos hlength]
    exact .refused (fun h => by have := h.1 (.inr rfl); omega) ⟨[], rfl⟩
  · rw [if_neg hlength]
    refine command_traces hv (fun hq => ?_) fun hq n => ?_
    · have htakes : e.window.Takes ⟨selector, .read, qid⟩ length :=
        ⟨fun _ => by omega, (addresses_iff hv).1 hq⟩
      refine (issue_course htakes (loads_nil e) _).action (fun _ t ht => ?_) fun error t ht => ht
      rw [Script.run_lift]
      refine (getBlock_fetches (by omega)).bind fun words fetched hf => ?_
      rw [Script.traces_pure, List.append_nil]
      exact ht.andFetch hf
    · exact .refused (fun h => hq ((addresses_iff hv).2 h.2)) ⟨[n], rfl⟩

end

/-- Whatever the device does, a call takes its course, and an error leaves the words of the caller
as they were. -/
theorem perform_course (hv : e.window.Valid) (c : Call) :
    (e.perform c).Traces fun answer t => e.Course c.command c.data.length answer.1 t ∧
      ∀ error, answer.1 = .error error → answer.2 = c.data := by
  obtain ⟨⟨selector, operation, qid⟩, data⟩ := c
  have hkept : ∀ {op : Action AccessError Unit} {c : Command},
      (op.run.Traces fun r t => e.Course c data.length r t) →
      (op.run >>= fun r => pure (r, data) : Script Answer).Traces fun answer t =>
        e.Course c data.length answer.1 t ∧ ∀ error, answer.1 = .error error → answer.2 = data := by
    refine fun h => h.bind fun r t ht => ?_
    rw [Script.traces_pure, List.append_nil]
    exact ⟨ht, fun _ _ => rfl⟩
  cases operation with
  | clear => exact hkept (simple_course hv (by simp) _)
  | write => exact hkept (write_course hv selector qid data)
  | read =>
    refine (read_course hv selector qid data.length).bind fun r t ht => ?_
    cases r with
    | ok words =>
      rw [Script.traces_pure, List.append_nil]
      exact ⟨ht, nofun⟩
    | error error =>
      rw [Script.traces_pure, List.append_nil]
      exact ⟨ht, fun _ _ => rfl⟩
  | invalidate => exact hkept (simple_course hv (by simp) _)

end Engine

end DmaQueues
