import DmaQueues.Proofs.Engine.Flight
import DmaQueues.Proofs.Log

/-!
# Commands in order

`Window.commands` are the commands of a trace. An action that issues a plan (`Script.Issues`) sends
its commands in that order, each only once the one before is done, and stops early if it fails.
Plans stand one after the other along `>>=`.
-/

namespace DmaQueues

namespace Window

variable {w : Window} {t t' : Trace}

/-- The command that is handed over by an event. -/
def command? (w : Window) : Event → Option Command
  | .write offset value => if offset = w.command then Command.decode? value w.qidMask else none
  | _ => none

theorem command?_write (w : Window) (offset value : UInt32) :
    w.command? (.write offset value) =
      if offset = w.command then Command.decode? value w.qidMask else none := rfl

theorem command?_word (w : Window) (word : UInt32) :
    w.command? (.write w.command word) = Command.decode? word w.qidMask :=
  if_pos rfl

/-- The commands that are handed over, first to last. -/
def commands (w : Window) (t : Trace) : List Command :=
  t.filterMap w.command?

@[simp] theorem commands_append (w : Window) (t t' : Trace) :
    w.commands (t ++ t') = w.commands t ++ w.commands t' :=
  List.filterMap_append

theorem commands_of_ne_command (h : ∀ access ∈ t.writes, access.1 ≠ w.command) :
    w.commands t = [] := by
  refine List.filterMap_eq_nil_iff.2 fun event hevent => ?_
  cases event with
  | write offset value => exact if_neg (h _ (List.mem_filterMap.2 ⟨_, hevent, rfl⟩))
  | _ => rfl

theorem commands_of_writes_nil (h : t.writes = []) : w.commands t = [] :=
  commands_of_ne_command (by rw [h]; exact nofun)

/-- A trace at its first command. -/
theorem split_commands {c : Command} {rest : List Command} (h : w.commands t = c :: rest) :
    ∃ earlier word later, t = earlier ++ .write w.command word :: later ∧
      w.commands earlier = [] ∧ Command.decode? word w.qidMask = some c ∧
      w.commands later = rest := by
  obtain ⟨earlier, event, later, rfl, hnone, hevent, hrest⟩ := List.filterMap_eq_cons_iff.1 h
  cases event with
  | write offset value =>
    rw [command?_write] at hevent
    by_cases hoffset : offset = w.command
    · rw [if_pos hoffset] at hevent
      rw [hoffset]
      exact ⟨earlier, value, later, rfl, List.filterMap_eq_nil_iff.2 hnone, hevent, hrest⟩
    · rw [if_neg hoffset] at hevent
      cases hevent
  | _ => cases hevent

end Window

namespace Engine

variable {e : Engine} {c : Command}

theorem command?_word (hv : e.window.Valid) (hq : e.Addresses c.qid) :
    e.window.command? (.write e.window.command (c.word e.window.qidMask)) = some c :=
  (Window.command?_word _ _).trans (Command.decode?_word hv.qid hv.low hq)

/-- A command that is issued is handed over once. -/
theorem issue_commands (hv : e.window.Valid) (hq : e.Addresses c.qid) :
    (e.issue c (c.word e.window.qidMask)).run.Traces fun _ t => e.window.commands t = [c] := by
  unfold issue
  simp only [Script.run_lift_bind]
  show (e.waitIdle e.poll.attempts >>= fun idle => _).Traces _
  refine (waitIdle_polls e e.poll.attempts).bind fun idle t hp => ?_
  have hcommands : ∀ rest, Trace.writes rest = [] → e.window.commands
      (.note (.commandIssued c (c.word e.window.qidMask)) ::
        .write e.window.command (c.word e.window.qidMask) :: (t ++ rest)) = [c] := by
    intro rest hrest
    have hnone : e.window.commands (t ++ rest) = [] :=
      Window.commands_of_writes_nil (by rw [Trace.writes_append, hp.writes, hrest]; rfl)
    unfold Window.commands at hnone ⊢
    rw [List.filterMap_cons_none rfl, List.filterMap_cons_some (command?_word hv hq), hnone]
  cases idle with
  | true => exact hcommands [] rfl
  | false => exact hcommands [_] rfl

theorem simple_commands (hv : e.window.Valid) :
    (e.simple c).run.Traces fun r t =>
      r = .error .invalidParameter ∧ e.window.commands t = [] ∨ e.window.commands t = [c] :=
  command_traces hv (fun hq => (issue_commands hv hq).mono fun _ _ => .inr)
    fun _ _ => .inl ⟨rfl, rfl⟩

theorem write_commands (hv : e.window.Valid) (selector : Selector) (qid : UInt16)
    (data : List UInt32) :
    (e.write selector qid data).run.Traces fun r t =>
      r = .error .invalidParameter ∧ e.window.commands t = [] ∨
        e.window.commands t = [⟨selector, .write, qid⟩] := by
  unfold write
  by_cases hlength : data.length > e.window.words
  · rw [if_pos hlength]
    exact .inl ⟨rfl, rfl⟩
  · rw [if_neg hlength]
    refine command_traces hv (fun hq => ?_) fun _ _ => .inl ⟨rfl, rfl⟩
    have hloads : ∀ {t}, e.Loads t → e.window.commands t = [] := fun ht =>
      Window.commands_of_ne_command fun access haccess => hv.ne_command (ht.writes access haccess)
    simp only [Script.run_lift_bind]
    refine (putBlock_loads (by simp; omega) (.inl rfl)).bind fun _ t ht => ?_
    refine (putBlock_loads (by simp) (.inr rfl)).bind fun _ t' ht' => ?_
    refine (issue_commands hv hq).mono fun _ t'' ht'' => .inr ?_
    rw [Window.commands_append, Window.commands_append, hloads ht, hloads ht', ht'']
    rfl

end Engine

namespace Script

variable {α β ε : Type} {w : Window} {plan plan' : List Command}

/-- Whatever the device does, the commands of `op` are those of the plan in their order, up to where
it fails, and each is issued only once nothing is in flight. If `op` succeeds all are done. -/
def Issues (w : Window) (plan : List Command) (op : Action ε α) : Prop :=
  op.run.Logs fun r t => w.Serial false t ∧ w.commands t <+: plan ∧
    ∀ v, r = .ok (.ok v) → w.commands t = plan ∧ w.busyAfter false t = false

theorem Issues.bind {op : Action ε α} {f : α → Action ε β} (h : Issues w plan op)
    (hf : ∀ v, Issues w plan' (f v)) : Issues w (plan ++ plan') (op >>= f) := by
  unfold Issues
  rw [run_action_bind]
  refine Logs.bind h ?_ fun e t ht => ⟨ht.1, ht.2.1.trans (List.prefix_append _ _), nofun⟩
  rintro r t ⟨hserial, hbegins, hok⟩
  cases r with
  | error e =>
    rw [logs_pure, List.append_nil]
    exact ⟨hserial, hbegins.trans (List.prefix_append _ _), nofun⟩
  | ok v =>
    obtain ⟨hplan, hidle⟩ := hok v rfl
    refine Logs.mono (hf v) fun r' t' ⟨hserial', hbegins', hok'⟩ => ?_
    rw [Window.serial_append, Window.busyAfter_append, Window.commands_append, hplan, hidle]
    refine ⟨⟨hserial, hserial'⟩, List.prefix_append_right_inj _ |>.2 hbegins', fun v' hv' => ?_⟩
    obtain ⟨hplan', hidle'⟩ := hok' v' hv'
    exact ⟨by rw [hplan'], hidle'⟩

theorem issues_offline {op : Action ε α} (h : op.run.Offline) : Issues w [] op := by
  refine h.logs.mono fun r t ht => ?_
  have hcommands : w.commands t = [] := Window.commands_of_writes_nil ht.writes
  have hidle : w.busyAfter false t = false := Window.busyAfter_of_ne_command
    (by rw [ht.reads]; exact nofun) (by rw [ht.writes]; exact nofun)
  exact ⟨Window.serial_of_writes_nil ht.writes, hcommands ▸ List.nil_prefix,
    fun _ _ => ⟨hcommands, hidle⟩⟩

/-- What comes before the first command does without the device. -/
theorem Issues.after {check : Action ε α} {f : α → Action ε β} (h : check.run.Offline)
    (hf : ∀ v, Issues w plan (f v)) : Issues w plan (check >>= f) :=
  (issues_offline h).bind hf

theorem Issues.andReturn {op : Action ε α} {f : α → Action ε β} (h : Issues w plan op)
    (hf : ∀ v, (f v).run.Offline) : Issues w plan (op >>= f) := by
  have hall := h.bind fun v => issues_offline (hf v)
  rwa [List.append_nil] at hall

theorem Issues.forM {g : α → Action ε Unit} {command : α → Command} {items : List α}
    (h : ∀ x ∈ items, Issues w [command x] (g x)) :
    Issues w (items.map command) (items.forM g) := by
  induction items with
  | nil => exact issues_offline trivial
  | cons x rest ih =>
    have hrest := ih fun y hy => h y (List.mem_cons_of_mem _ hy)
    exact (h x List.mem_cons_self).bind fun _ => hrest

/-- A call of the engine issues its command. -/
theorem issues_course {e : Engine} {c : Command} {length : Nat} {op : Action AccessError Unit}
    (hv : e.window.Valid) (htotal : op.run.Total)
    (hcourse : op.run.Traces fun r t => e.Course c length r t)
    (hcommands : op.run.Traces fun r t =>
      r = .error .invalidParameter ∧ e.window.commands t = [] ∨ e.window.commands t = [c]) :
    Issues e.window [c] op := by
  refine Logs.mono (Gives.logs ⟨htotal, hcourse.and hcommands⟩) ?_
  rintro _ t ⟨r, rfl, hc, hcommands⟩
  have hserial : e.window.Serial false t ∧
      (e.window.busyAfter false t = true → r = .error .busyTimeout) := by
    rcases hc.flight hv false with ⟨-, hserial, hafter⟩ | ⟨-, hserial, hafter⟩
    · exact ⟨hserial, fun hbusy => nomatch hafter.symm.trans hbusy⟩
    · exact ⟨hserial.2 rfl, hafter.1⟩
  rcases hcommands with ⟨rfl, hnone⟩ | hone
  · exact ⟨hserial.1, hnone ▸ List.nil_prefix, nofun⟩
  · refine ⟨hserial.1, hone ▸ List.prefix_refl _, ?_⟩
    rintro v ⟨⟩
    exact ⟨hone, Bool.eq_false_iff.2 fun hbusy => nomatch hserial.2 hbusy⟩

end Script

end DmaQueues
