import DmaQueues.Proofs.Engine.Call

/-!
# What a call of the engine writes

A call that writes anything loads the window and then writes the command register, once
(`Window.Burst`). A write of a context that is done has loaded exactly the words of the caller,
filled up with zeros, under a full mask, and its last sample of the busy bit was idle
(`Engine.write_writes`).
-/

namespace DmaQueues

/-- Offsets with the values written there, first to last. -/
abbrev WriteLog := List (UInt32 × UInt32)

namespace Window

/-- Data and mask words, and then one command. -/
def Burst (w : Window) (writes : WriteLog) : Prop :=
  ∃ (loads : WriteLog) (word : UInt32), writes = loads ++ [(w.command, word)] ∧
    ∀ access ∈ loads, access.1 ≠ w.command ∧
      (access.1 ∈ w.dataRegisters ∨ access.1 ∈ w.maskRegisters)

theorem Burst.registers {w : Window} {writes : WriteLog} (h : w.Burst writes) :
    ∀ access ∈ writes, access.1 ∈ w.registers := by
  obtain ⟨loads, word, rfl, hloads⟩ := h
  intro access haccess
  unfold Window.registers
  rcases List.mem_append.1 haccess with hload | hcommand
  · exact List.mem_append_left _ (List.mem_append.2 (hloads access hload).2)
  · rw [List.mem_singleton.1 hcommand]
    exact List.mem_append_right _ (List.mem_singleton.2 rfl)

/-- Consecutive registers from `offset` on, with the values that they are given. -/
def given (offset : UInt32) (values : List UInt32) : WriteLog :=
  values.mapIdx fun i value => (offset + UInt32.ofNat (4 * i), value)

end Window

theorem Script.putFrom_writes (offset : UInt32) (index : Nat) (values : List UInt32) :
    (putFrom offset index values).Traces fun _ t => t.reads = [] ∧
      t.writes = values.mapIdx fun i value =>
        (offset + UInt32.ofNat (4 * (index + i)), value) := by
  induction values generalizing index with
  | nil => exact ⟨rfl, rfl⟩
  | cons value values ih =>
    show (ofChecked (offsetAt offset index) >>= fun o => put o value >>= fun _ =>
      putFrom offset (index + 1) values).Traces _
    cases ho : offsetAt offset index with
    | error f => trivial
    | ok o =>
      refine (ih (index + 1)).mono fun _ t ⟨hreads, hwrites⟩ => ⟨hreads, ?_⟩
      rw [Trace.writes_write, hwrites, List.mapIdx_cons, offsetAt_eq_ok ho]
      simp only [Nat.add_zero, Nat.add_assoc, Nat.add_comm 1]

namespace Engine

variable {e : Engine} {c : Command}

/-- A call that is not refused writes a burst. -/
theorem Course.writes {length : Nat} {r : Except AccessError Unit} {t : Trace}
    (hv : e.window.Valid) (h : e.Course c length r t) :
    r = .error .invalidParameter ∧ t.writes = [] ∨ e.window.Burst t.writes := by
  have hburst : ∀ {n : Notice} {word : UInt32} {loads rest : Trace}, e.Loads loads →
      rest.writes = [] →
      e.window.Burst (loads ++ .note n :: .write e.window.command word :: rest).writes := by
    intro n word loads rest hl hrest
    refine ⟨loads.writes, word, ?_, fun access haccess => ?_⟩
    · simp [hrest]
    · exact ⟨hv.ne_command (hl.writes access haccess), hl.writes access haccess⟩
  cases h with
  | refused h ht =>
    obtain ⟨ns, rfl⟩ := ht
    exact .inl ⟨rfl, (Trace.untouched_notices ns).writes⟩
  | done h hl hp hf => exact .inr (hburst hl (by simp [hp.writes, hf.writes]))
  | timedOut h hl hp => exact .inr (hburst hl (by simp [hp.writes]))

/-- Over any device, a call is refused and writes nothing, or writes a burst of its window. -/
theorem perform_writes {σ : Type} (hv : e.window.Valid) (call : Call) (b : Backend σ) (s : σ) :
    ∃ answer s' t, (e.perform call).trace b s = (.ok answer, s', t) ∧
      (answer.1 = .error .invalidParameter ∧ t.writes = [] ∨ e.window.Burst t.writes) :=
  (total_perform hv call).trace
    ((perform_course hv call).mono fun _ _ ⟨hc, _⟩ => hc.writes hv) b s

/-! ## A write of a context -/

/-- What a write of `data` to a context writes. -/
def written (e : Engine) (c : Command) (data : List UInt32) : WriteLog :=
  Window.given e.window.data (data ++ List.replicate (e.window.words - data.length) 0) ++
    Window.given e.window.mask (List.replicate e.window.words 0xFFFFFFFF) ++
    [(e.window.command, c.word e.window.qidMask)]

/-- The busy bit was sampled last, and found to be idle. -/
def Idles (e : Engine) (t : Trace) : Prop :=
  ∃ value, t.reads.getLast? = some (e.window.command, value) ∧
    (value &&& Command.busyMask == 0) = true

theorem putBlock_writes (offset : UInt32) (values : List UInt32) :
    (Script.putBlock offset values).Traces fun _ t => t.reads = [] ∧
      t.writes = Window.given offset values := by
  refine (Script.putFrom_writes offset 0 values).mono fun _ t h => ?_
  simp only [Nat.zero_add] at h
  exact h

theorem issue_writes (e : Engine) (c : Command) (word : UInt32) :
    (e.issue c word).run.Traces fun r t => r = .ok () →
      t.writes = [(e.window.command, word)] ∧ e.Idles t := by
  unfold issue
  simp only [Script.run_lift_bind]
  show (e.waitIdle e.poll.attempts >>= fun idle => _).Traces _
  refine (waitIdle_polls e e.poll.attempts).bind fun idle t hp => ?_
  cases idle with
  | true =>
    intro _
    refine ⟨by simp [hp.writes], ?_⟩
    simpa [Idles] using hp.last
  | false => exact nofun

/-- A write that is done has written its words and its command, and waited for it. -/
theorem write_writes (hv : e.window.Valid) (selector : Selector) (qid : UInt16)
    (data : List UInt32) :
    (e.write selector qid data).run.Traces fun r t => r = .ok () →
      t.writes = e.written ⟨selector, .write, qid⟩ data ∧ e.Idles t := by
  unfold write
  by_cases hlength : data.length > e.window.words
  · rw [if_pos hlength]
    exact nofun
  · rw [if_neg hlength]
    refine command_traces hv (fun hq => ?_) fun hq n => nofun
    simp only [Script.run_lift_bind]
    refine (putBlock_writes _ _).bind fun _ t ⟨hreads, hwrites⟩ => ?_
    refine (putBlock_writes _ _).bind fun _ t' ⟨hreads', hwrites'⟩ => ?_
    refine (issue_writes e _ _).mono fun r t'' h hr => ?_
    obtain ⟨hissued, hidle⟩ := h hr
    refine ⟨?_, ?_⟩
    · rw [Trace.writes_append, Trace.writes_append, hwrites, hwrites', hissued, written,
        List.append_assoc]
    · simpa [Idles, hreads, hreads'] using hidle

end Engine

end DmaQueues
