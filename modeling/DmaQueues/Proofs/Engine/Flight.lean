import DmaQueues.Proofs.Engine.Call

/-!
# Commands in flight

A command is in flight from its write on, until a sample of the command register is idle.
`Window.Serial` says of a trace that no register of the window is written meanwhile. A call keeps
to this for its own command, and one that times out leaves its command in flight. So what a
trace owes to the next call is one bit, `Window.busyAfter`.
-/

namespace DmaQueues

namespace Window

/-- Whether a command is in flight after an event. A write starts one, a sample decides. -/
def flight (w : Window) (busy : Bool) : Event → Bool
  | .write offset _ => busy || offset == w.command
  | .read offset value => if offset = w.command then value &&& Command.busyMask != 0 else busy
  | .delay _ => busy
  | .note _ => busy

/-- Whether a command is in flight after all events. -/
def busyAfter (w : Window) (busy : Bool) (t : Trace) : Bool :=
  t.foldl w.flight busy

/-- A data, a mask or the command register is written. -/
def Writes (w : Window) : Event → Prop
  | .write offset _ => offset ∈ w.registers
  | _ => False

instance (w : Window) : DecidablePred w.Writes
  | .write _ _ => inferInstanceAs (Decidable (_ ∈ _))
  | .read _ _ => .isFalse id
  | .delay _ => .isFalse id
  | .note _ => .isFalse id

/-- No register of the window is written while a command is in flight, where at first `busy` says
whether one is. -/
def Serial (w : Window) : Bool → Trace → Prop
  | _, [] => True
  | busy, event :: rest => (busy = true → ¬ w.Writes event) ∧ w.Serial (w.flight busy event) rest

instance decidableSerial (w : Window) : ∀ busy t, Decidable (w.Serial busy t)
  | _, [] => .isTrue trivial
  | busy, event :: rest =>
    have := decidableSerial w (w.flight busy event) rest
    inferInstanceAs (Decidable (_ ∧ _))

variable {w : Window} {busy : Bool} {t t' : Trace}

theorem busyAfter_append : w.busyAfter busy (t ++ t') = w.busyAfter (w.busyAfter busy t) t' :=
  List.foldl_append

theorem serial_append :
    w.Serial busy (t ++ t') ↔ w.Serial busy t ∧ w.Serial (w.busyAfter busy t) t' := by
  induction t generalizing busy with
  | nil => simp [Serial, busyAfter]
  | cons event rest ih => exact (and_congr_right fun _ => ih).trans and_assoc.symm

/-! ## Parts of a call -/

theorem flight_write_other {offset : UInt32} (hne : offset ≠ w.command) (value : UInt32) :
    w.flight busy (.write offset value) = busy := by
  simp only [flight, beq_eq_false_iff_ne.2 hne, Bool.or_false]

/-- Without a write of the command register, and without a sample, nothing starts or ends. -/
theorem busyAfter_of_ne_command (hreads : ∀ access ∈ t.reads, access.1 ≠ w.command)
    (hwrites : ∀ access ∈ t.writes, access.1 ≠ w.command) : w.busyAfter busy t = busy := by
  induction t generalizing busy with
  | nil => rfl
  | cons event rest ih =>
    cases event with
    | read offset value =>
      simp only [Trace.reads_read, Trace.writes_read, List.forall_mem_cons] at hreads hwrites
      have hkept : w.flight busy (.read offset value) = busy := if_neg hreads.1
      show w.busyAfter (w.flight busy _) rest = busy
      rw [hkept]
      exact ih hreads.2 hwrites
    | write offset value =>
      simp only [Trace.reads_write, Trace.writes_write, List.forall_mem_cons] at hreads hwrites
      show w.busyAfter (w.flight busy _) rest = busy
      rw [flight_write_other hwrites.1]
      exact ih hreads hwrites.2
    | delay us => exact ih hreads hwrites
    | note n => exact ih hreads hwrites

/-- The last sample decides. -/
theorem busyAfter_of_samples (hwrites : t.writes = [])
    (hreads : ∀ access ∈ t.reads, access.1 = w.command) :
    w.busyAfter busy t =
      (t.reads.getLast?.map fun access => access.2 &&& Command.busyMask != 0).getD busy := by
  induction t generalizing busy with
  | nil => rfl
  | cons event rest ih =>
    cases event with
    | read offset value =>
      simp only [Trace.reads_read, Trace.writes_read, List.forall_mem_cons] at hreads hwrites
      have hsample : w.flight busy (.read offset value) = (value &&& Command.busyMask != 0) :=
        if_pos hreads.1
      show w.busyAfter (w.flight busy _) rest = _
      rw [hsample, ih hwrites hreads.2, Trace.reads_read, List.getLast?_cons]
      cases (Trace.reads rest).getLast? <;> rfl
    | write offset value => cases hwrites
    | delay us => exact ih hwrites hreads
    | note n => exact ih hwrites hreads

theorem serial_of_writes_nil (h : t.writes = []) : w.Serial busy t := by
  induction t generalizing busy with
  | nil => trivial
  | cons event rest ih =>
    cases event with
    | write offset value => cases h
    | read offset value => exact ⟨fun _ => id, ih h⟩
    | delay us => exact ⟨fun _ => id, ih h⟩
    | note n => exact ⟨fun _ => id, ih h⟩

theorem serial_of_ne_command (hreads : t.reads = [])
    (hwrites : ∀ access ∈ t.writes, access.1 ≠ w.command) : w.Serial false t := by
  induction t with
  | nil => trivial
  | cons event rest ih =>
    cases event with
    | read offset value => cases hreads
    | write offset value =>
      simp only [Trace.writes_write, List.forall_mem_cons] at hwrites
      refine ⟨nofun, ?_⟩
      rw [flight_write_other hwrites.1]
      exact ih hreads hwrites.2
    | delay us => exact ⟨nofun, ih hreads hwrites⟩
    | note n => exact ⟨nofun, ih hreads hwrites⟩

end Window

namespace Engine

open Window

variable {e : Engine} {busy : Bool}

theorem Polls.busyAfter {idle : Bool} {t : Trace} (h : e.Polls idle t) :
    e.window.busyAfter busy t = !idle := by
  obtain ⟨value, hlast, hidle⟩ := h.last
  rw [busyAfter_of_samples h.writes h.reads, hlast, ← hidle]
  rfl

/-- The part of a call that its command stands in is serial exactly if nothing was in flight, and
the last sample says whether it leaves its command in flight. -/
theorem issued_flight (hv : e.window.Valid) {idle : Bool} {n : Notice} {word : UInt32}
    {loads polls rest : Trace} (hl : e.Loads loads) (hp : e.Polls idle polls)
    (hwrites : rest.writes = []) (hreads : ∀ access ∈ rest.reads, access.1 ≠ e.window.command) :
    (e.window.Serial busy (loads ++ .note n :: .write e.window.command word :: (polls ++ rest)) ↔
      busy = false) ∧
    e.window.busyAfter busy
      (loads ++ .note n :: .write e.window.command word :: (polls ++ rest)) = !idle := by
  have haway : ∀ access ∈ loads.writes, access.1 ≠ e.window.command :=
    fun access haccess => hv.ne_command (hl.writes access haccess)
  have hloaded : ∀ busy, e.window.busyAfter busy loads = busy :=
    fun busy => busyAfter_of_ne_command (by rw [hl.reads]; exact nofun) haway
  have hcommand : e.window.Writes (.write e.window.command word) :=
    List.mem_append_right _ List.mem_cons_self
  constructor
  · rw [serial_append, hloaded]
    constructor
    · rintro ⟨-, -, hissue, -⟩
      exact Bool.eq_false_iff.2 fun hbusy => hissue hbusy hcommand
    · rintro rfl
      exact ⟨serial_of_ne_command hl.reads haway, nofun, nofun, serial_of_writes_nil (by
        rw [Trace.writes_append, hp.writes, hwrites, List.append_nil])⟩
  · rw [busyAfter_append, hloaded]
    show e.window.busyAfter _ (polls ++ rest) = _
    rw [busyAfter_append, hp.busyAfter]
    exact busyAfter_of_ne_command hreads (by rw [hwrites]; exact nofun)

/-- A refused call can do no harm. Any other is serial exactly if nothing was in flight, and leaves
its command in flight exactly if it times out. -/
theorem Course.flight (hv : e.window.Valid) {c : Command} {length : Nat}
    {r : Except AccessError Unit} {t : Trace} (h : e.Course c length r t) (busy : Bool) :
    (r = .error .invalidParameter ∧ e.window.Serial busy t ∧ e.window.busyAfter busy t = busy) ∨
      (r ≠ .error .invalidParameter ∧ (e.window.Serial busy t ↔ busy = false) ∧
        (e.window.busyAfter busy t = true ↔ r = .error .busyTimeout)) := by
  cases h with
  | refused h ht =>
    obtain ⟨ns, rfl⟩ := ht
    have huntouched := Trace.untouched_notices ns
    refine .inl ⟨rfl, serial_of_writes_nil huntouched.writes, busyAfter_of_ne_command ?_ ?_⟩
    · rw [huntouched.reads]
      exact nofun
    · rw [huntouched.writes]
      exact nofun
  | done h hl hp hf =>
    obtain ⟨hserial, hafter⟩ := issued_flight hv hl hp hf.writes
      fun access haccess => hv.ne_command (.inl (hf.reads access haccess))
    exact .inr ⟨nofun, hserial, by rw [hafter]; exact ⟨nofun, nofun⟩⟩
  | @timedOut n n' word loads polls h hl hp =>
    have hreads : ∀ access ∈ Trace.reads [.note n'], access.1 ≠ e.window.command := nofun
    obtain ⟨hserial, hafter⟩ := issued_flight hv hl hp (Trace.writes_note n' []) hreads
    exact .inr ⟨nofun, hserial, by rw [hafter]; exact ⟨fun _ => rfl, fun _ => rfl⟩⟩

/-! ## Runs -/

/-- After a timeout every call is refused by the host. -/
def RefusedAfterTimeout (answers : List Answer) : Prop :=
  answers.Pairwise fun first later =>
    first.1 = .error .busyTimeout → later.1 = .error .invalidParameter

theorem refusedAfterTimeout_cons {answer : Answer} {answers : List Answer} :
    RefusedAfterTimeout (answer :: answers) ↔
      (answer.1 = .error .busyTimeout → ∀ later ∈ answers, later.1 = .error .invalidParameter) ∧
        RefusedAfterTimeout answers := by
  refine List.pairwise_cons.trans (and_congr_left' ?_)
  exact ⟨fun h hr later hlater => h later hlater hr, fun h later hlater hr => h hr later hlater⟩

theorem performAll_flight (hv : e.window.Valid) (calls : List Call) (busy : Bool) :
    (e.performAll calls).Traces fun answers t => e.window.Serial busy t ↔
      (busy = true → ∀ answer ∈ answers, answer.1 = .error .invalidParameter) ∧
        RefusedAfterTimeout answers := by
  induction calls generalizing busy with
  | nil => exact iff_of_true trivial ⟨fun _ => nofun, .nil⟩
  | cons c rest ih =>
    refine (perform_course hv c).bind fun answer t ⟨hc, _⟩ => ?_
    refine (ih (e.window.busyAfter busy t)).bind fun answers t' hrest => ?_
    rw [Script.traces_pure, List.append_nil, serial_append, hrest, refusedAfterTimeout_cons,
      List.forall_mem_cons]
    -- a refused call hands the bit on, any other one decides it anew
    rcases hc.flight hv busy with ⟨hr, hserial, hafter⟩ | ⟨hr, hserial, hafter⟩
    · simp only [hafter, hserial, hr, true_and, reduceCtorEq, Except.error.injEq, false_imp_iff]
    · simp only [hafter, hserial, hr, false_and, imp_false, Bool.not_eq_true]

/-- Over any device, a run writes no register of the window while a command is in flight exactly if
after a timeout every call is refused by the host. So the next call that is not refused writes into
a command that may still be in flight. -/
theorem serial_iff_refused_after_timeout {σ : Type} (hv : e.window.Valid) (b : Backend σ) (s : σ)
    (calls : List Call) :
    ∃ answers s' t, (e.performAll calls).trace b s = (.ok answers, s', t) ∧
      (e.window.Serial false t ↔ RefusedAfterTimeout answers) := by
  obtain ⟨answers, s', t, htrace, hserial⟩ :=
    (total_performAll hv calls).trace (performAll_flight hv calls false) b s
  exact ⟨answers, s', t, htrace, hserial.trans ⟨And.right, fun h => ⟨nofun, h⟩⟩⟩

/-- A card that loses the commands of one selector. -/
def losing (selector : Selector) : Card :=
  { fate := fun _ c => if c.selector = selector then .lost else .done 0 }

theorem refused_after_lost_is_serial :
    ∃ s' t, (performAll ⟨.soft, ⟨1, 1⟩⟩
        [⟨⟨.softwareC2h, .clear, 1⟩, []⟩, ⟨⟨.softwareH2c, .write, 2048⟩, [5]⟩]).trace
          (Card.backend .soft) (losing .softwareC2h) =
        (.ok [(.error .busyTimeout, []), (.error .invalidParameter, [5])], s', t) ∧
      Window.soft.Serial false t := by
  obtain ⟨answers, s', t, htrace, hserial⟩ := serial_iff_refused_after_timeout
    (e := ⟨.soft, ⟨1, 1⟩⟩) (valid_of_mem_all (by decide)) (Card.backend .soft)
    (losing .softwareC2h)
    [⟨⟨.softwareC2h, .clear, 1⟩, []⟩, ⟨⟨.softwareH2c, .write, 2048⟩, [5]⟩]
  have hanswers : answers = [(.error .busyTimeout, []), (.error .invalidParameter, [5])] :=
    (Except.ok.inj (congrArg Prod.fst htrace)).symm
  rw [hanswers] at htrace hserial
  exact ⟨s', t, htrace, hserial.2 (.cons (by simp) (.cons nofun .nil))⟩

/-- The command of the first call is never done. The write that follows is done as if nothing was in
flight. -/
theorem write_after_lost_is_not_serial :
    ∃ s' t, (performAll ⟨.soft, ⟨1, 1⟩⟩
        [⟨⟨.softwareC2h, .clear, 1⟩, []⟩, ⟨⟨.softwareH2c, .write, 1⟩, [5]⟩]).trace
          (Card.backend .soft) (losing .softwareC2h) =
        (.ok [(.error .busyTimeout, []), (.ok (), [5])], s', t) ∧
      ¬ Window.soft.Serial false t :=
  ⟨_, _, rfl, by decide +kernel⟩

end Engine

end DmaQueues
