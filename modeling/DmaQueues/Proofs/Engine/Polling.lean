import DmaQueues.Proofs.Engine.Call

/-!
# How long a command is waited for

The busy bit is sampled up to its first idle sample, with a delay after every busy one but for
the sample that ends the wait. `Backend.sampled` is a device of any kind whose command register
answers a sequence that is given: the sequence decides how a call ends, how many samples it
takes and how long it waits. The sequence is that of the values read (`Script.readsAt_sampled`),
since nothing reads the command register before the command is written.
-/

namespace DmaQueues

namespace Trace

@[simp] theorem delays_nil : delays [] = [] := rfl

@[simp] theorem delays_read (offset value : UInt32) (t : Trace) :
    delays (.read offset value :: t) = delays t := rfl

@[simp] theorem delays_write (offset value : UInt32) (t : Trace) :
    delays (.write offset value :: t) = delays t := rfl

@[simp] theorem delays_delay (us : UInt32) (t : Trace) :
    delays (.delay us :: t) = us.toNat :: delays t := rfl

@[simp] theorem delays_note (n : Notice) (t : Trace) : delays (.note n :: t) = delays t := rfl

@[simp] theorem delays_append (t t' : Trace) : delays (t ++ t') = delays t ++ delays t' :=
  List.filterMap_append

/-- The values that were read at `offset`. -/
def readsAt (offset : UInt32) (t : Trace) : List UInt32 :=
  (t.reads.filter fun access => access.1 == offset).map Prod.snd

variable {offset : UInt32} {t : Trace}

@[simp] theorem readsAt_nil (offset : UInt32) : readsAt offset [] = [] := rfl

@[simp] theorem readsAt_append (offset : UInt32) (t t' : Trace) :
    readsAt offset (t ++ t') = readsAt offset t ++ readsAt offset t' := by
  unfold readsAt
  rw [reads_append, List.filter_append, List.map_append]

@[simp] theorem readsAt_read_self (offset value : UInt32) (t : Trace) :
    readsAt offset (.read offset value :: t) = value :: readsAt offset t := by
  simp [readsAt]

theorem readsAt_read_other {o : UInt32} (h : o ≠ offset) (value : UInt32) (t : Trace) :
    readsAt offset (.read o value :: t) = readsAt offset t := by
  simp [readsAt, h]

@[simp] theorem readsAt_write (offset o value : UInt32) (t : Trace) :
    readsAt offset (.write o value :: t) = readsAt offset t := rfl

@[simp] theorem readsAt_delay (offset us : UInt32) (t : Trace) :
    readsAt offset (.delay us :: t) = readsAt offset t := rfl

@[simp] theorem readsAt_note (offset : UInt32) (n : Notice) (t : Trace) :
    readsAt offset (.note n :: t) = readsAt offset t := rfl

theorem readsAt_eq_nil (h : ∀ access ∈ t.reads, access.1 ≠ offset) : t.readsAt offset = [] := by
  unfold readsAt
  rw [List.filter_eq_nil_iff.2 fun access haccess => by simpa using h access haccess,
    List.map_nil]

end Trace

/-! ## A register with a sequence of values -/

/-- `b`, but the register at `offset` answers `samples` one after the other. The number of samples
taken so far stands beside the state. -/
def Backend.sampled {σ : Type} (b : Backend σ) (offset : UInt32) (samples : Nat → UInt32) :
    Backend (σ × Nat) where
  read s o :=
    match b.read s.1 o with
    | (v, s') => if o = offset then (samples s.2, s', s.2 + 1) else (v, s', s.2)
  write s o value := (b.write s.1 o value, s.2)
  delay s us := (b.delay s.1 us, s.2)
  note s n := (b.note s.1 n, s.2)

/-- What is read there are the samples from the first on. -/
theorem Script.readsAt_sampled {α σ : Type} {b : Backend σ} {offset : UInt32}
    {samples : Nat → UInt32} {p : Script α} {s s' : σ} {i : Nat} {r : Checked α} {t : Trace}
    (h : p.trace (b.sampled offset samples) (s, 0) = (r, (s', i), t)) :
    t.readsAt offset = (List.range i).map samples := by
  -- The counter beside the state is the number of reads there, over every access.
  have hkept := run_keeps (b := (b.sampled offset samples).recorded)
    (I := fun s => Trace.readsAt offset s.2.reverse = (List.range s.1.2).map samples)
    (s := ((s, 0), [])) ?_ ?_ ?_ ?_ p rfl
  · unfold trace at h
    split at h
    next r' s'' history hrun =>
      cases h
      rw [hrun] at hkept
      exact hkept
  · rintro ⟨⟨s, i⟩, history⟩ o hi
    simp only at hi
    by_cases ho : o = offset
    · subst ho
      simp [Backend.recorded, Backend.sampled, hi, List.range_succ]
    · simp [Backend.recorded, Backend.sampled, ho, Trace.readsAt_read_other ho, hi]
  · rintro ⟨⟨s, i⟩, history⟩ o value hi
    simpa [Backend.recorded, Backend.sampled] using hi
  · rintro ⟨⟨s, i⟩, history⟩ us hi
    simpa [Backend.recorded, Backend.sampled] using hi
  · rintro ⟨⟨s, i⟩, history⟩ n hi
    simpa [Backend.recorded, Backend.sampled] using hi

/-! ## The budget -/

namespace Poll

theorem attempts_pos (p : Poll) : 0 < p.attempts := by
  unfold attempts
  split <;> omega

/-- All delays together keep to the timeout, or to the one interval that is waited at least. -/
theorem attempts_mul_le (p : Poll) :
    p.attempts * p.interval.toNat ≤ max p.timeout.toNat p.interval.toNat := by
  unfold attempts
  split
  next h => rw [h]; exact Nat.zero_le _
  next =>
    have hbudget := Nat.div_mul_le_self p.timeout.toNat p.interval.toNat
    rcases Nat.le_total 1 (p.timeout.toNat / p.interval.toNat) with hmany | hone
    · rw [max_eq_right hmany]
      exact hbudget.trans (le_max_left _ _)
    · rw [max_eq_left hone, Nat.one_mul]
      exact le_max_right _ _

end Poll

namespace Engine

open Window

variable {e : Engine}

/-- The busy bit is clear. -/
def Idle (value : UInt32) : Prop :=
  value &&& Command.busyMask = 0

instance : DecidablePred Idle :=
  fun _ => inferInstanceAs (Decidable (_ = _))

/-- The wait as a loop over a counter that goes down after each delay; the last sample is taken
when it is used up, and a counter below zero is a fault. -/
def countDown (e : Engine) (remaining : Nat) : Script Bool := do
  if ← e.sampleIdle then
    return true
  Script.wait e.poll.interval
  match _h : Checked.sub remaining 1 with
  | .error f => Script.halt f
  | .ok rest => if rest = 0 then e.sampleIdle else e.countDown rest
termination_by remaining
decreasing_by
  unfold Checked.sub at _h
  split at _h
  · cases _h
    omega
  · cases _h

/-- The counter starts above zero and ends the loop there, so it is never below. -/
theorem countDown_eq (e : Engine) (n : Nat) : e.countDown (n + 1) = e.waitIdle (n + 1) := by
  induction n with
  | zero =>
    rw [countDown]
    rfl
  | succ n ih =>
    rw [countDown, waitIdle, ← ih]
    rfl

theorem countDown_attempts (e : Engine) :
    e.countDown e.poll.attempts = e.waitIdle e.poll.attempts := by
  rw [← Nat.succ_pred_eq_of_pos e.poll.attempts_pos]
  exact e.countDown_eq _

/-! ## The samples of a wait -/

/-- The busy bit was sampled, busy at first and then once more: the wait ended there, since that
sample was idle or since the attempts were used up. A delay stands after each of the first. -/
structure Polled (e : Engine) (attempts : Nat) (idle : Bool) (busy : List UInt32) (last : UInt32)
    (t : Trace) : Prop where
  samples : t.readsAt e.window.command = busy ++ [last]
  delays : t.delays = List.replicate busy.length e.poll.interval.toNat
  spins : ∀ value ∈ busy, ¬ Idle value
  ends : idle = true ↔ Idle last
  bounded : busy.length ≤ attempts
  exhausted : idle = false → busy.length = attempts

theorem Polled.append {attempts : Nat} {idle : Bool} {busy : List UInt32} {last : UInt32}
    {t t' : Trace} (h : e.Polled attempts idle busy last t)
    (hreads : t'.readsAt e.window.command = []) (hdelays : t'.delays = []) :
    e.Polled attempts idle busy last (t ++ t') :=
  { h with
    samples := by rw [Trace.readsAt_append, hreads, List.append_nil, h.samples]
    delays := by rw [Trace.delays_append, hdelays, List.append_nil, h.delays] }

theorem waitIdle_polled (e : Engine) (attempts : Nat) :
    (e.waitIdle attempts).Traces fun idle t => ∃ busy last, e.Polled attempts idle busy last t := by
  induction attempts with
  | zero =>
    refine fun v => ⟨[], v, ?_⟩
    exact ⟨by simp, rfl, nofun, by simp [Idle], Nat.le_refl _, fun _ => rfl⟩
  | succ n ih =>
    intro v
    show (if (v &&& Command.busyMask == 0) = true then (pure true : Script Bool) else
      Script.wait e.poll.interval >>= fun _ => e.waitIdle n).Traces _
    split
    next hidle =>
      refine ⟨[], v, ?_⟩
      exact ⟨by simp, rfl, nofun, by simpa [Idle] using hidle, Nat.zero_le _, nofun⟩
    next hbusy =>
      refine ih.mono fun idle t ⟨busy, last, h⟩ => ⟨v :: busy, last, ?_⟩
      have hv : ¬ Idle v := by simpa [Idle] using hbusy
      exact ⟨by simp [h.samples], by simp [h.delays, List.replicate_succ],
        List.forall_mem_cons.2 ⟨hv, h.spins⟩, h.ends, Nat.succ_le_succ h.bounded,
        fun hidle => congrArg (· + 1) (h.exhausted hidle)⟩

/-! ## The samples of a call -/

/-- Up to its command a call neither reads nor waits. Then it polls, and the last sample decides
how it ends. -/
def Awaits (e : Engine) (word : UInt32) (r : Except AccessError Unit) (t : Trace) : Prop :=
  ∃ earlier later idle busy last, t = earlier ++ .write e.window.command word :: later ∧
    Trace.reads earlier = [] ∧ Trace.delays earlier = [] ∧
    e.Polled e.poll.attempts idle busy last later ∧
    r = if idle then .ok () else .error .busyTimeout

variable {c : Command} {word : UInt32} {r : Except AccessError Unit} {t t' : Trace}

theorem Awaits.load (h : e.Awaits word r t) (hreads : t'.reads = []) (hdelays : t'.delays = []) :
    e.Awaits word r (t' ++ t) := by
  obtain ⟨earlier, later, idle, busy, last, rfl, hr, hd, hpolled⟩ := h
  refine ⟨t' ++ earlier, later, idle, busy, last, (List.append_assoc _ _ _).symm, ?_, ?_, hpolled⟩
  · rw [Trace.reads_append, hreads, hr, List.append_nil]
  · rw [Trace.delays_append, hdelays, hd, List.append_nil]

theorem Awaits.fetch (h : e.Awaits word r t) (hreads : t'.readsAt e.window.command = [])
    (hdelays : t'.delays = []) : e.Awaits word r (t ++ t') := by
  obtain ⟨earlier, later, idle, busy, last, rfl, hr, hd, hpolled, hres⟩ := h
  exact ⟨earlier, later ++ t', idle, busy, last, List.append_assoc _ _ _, hr, hd,
    hpolled.append hreads hdelays, hres⟩

theorem issue_awaits (e : Engine) (c : Command) (word : UInt32) :
    (e.issue c word).run.Traces (e.Awaits word) := by
  unfold issue
  simp only [Script.run_lift_bind]
  show (e.waitIdle e.poll.attempts >>= fun idle => _).Traces _
  refine (waitIdle_polled e e.poll.attempts).bind fun idle t ⟨busy, last, hpolled⟩ => ?_
  cases idle with
  | true => exact ⟨[_], t ++ [], true, busy, last, rfl, rfl, rfl, hpolled.append rfl rfl, rfl⟩
  | false => exact ⟨[_], t ++ [_], false, busy, last, rfl, rfl, rfl, hpolled.append rfl rfl, rfl⟩

theorem putFrom_delays (offset : UInt32) (index : Nat) (values : List UInt32) :
    (Script.putFrom offset index values).Traces fun _ t => t.delays = [] := by
  induction values generalizing index with
  | nil => rfl
  | cons value values ih =>
    show (Script.ofChecked (Script.offsetAt offset index) >>= fun o => Script.put o value >>=
      fun _ => Script.putFrom offset (index + 1) values).Traces _
    cases Script.offsetAt offset index with
    | error f => trivial
    | ok o => exact ih (index + 1)

theorem getFrom_delays (offset : UInt32) (index length : Nat) :
    (Script.getFrom offset index length).Traces fun _ t => t.delays = [] := by
  induction length generalizing index with
  | zero => rfl
  | succ n ih =>
    show (Script.ofChecked (Script.offsetAt offset index) >>= fun o => Script.get o >>= fun value =>
      Script.getFrom offset (index + 1) n >>= fun values => pure (value :: values)).Traces _
    cases Script.offsetAt offset index with
    | error f => trivial
    | ok o => exact fun v => (ih (index + 1)).bind fun _ t ht => by simpa using ht

theorem simple_awaits (hv : e.window.Valid) (hq : e.Addresses c.qid) :
    (e.simple c).run.Traces (e.Awaits (c.word e.window.qidMask)) :=
  command_traces hv (fun _ => issue_awaits e c _) fun h => absurd hq h

theorem write_awaits (hv : e.window.Valid) (selector : Selector) {qid : UInt16}
    (hq : e.Addresses qid) {data : List UInt32} (hlength : data.length ≤ e.window.words) :
    (e.write selector qid data).run.Traces
      (e.Awaits (Command.word ⟨selector, .write, qid⟩ e.window.qidMask)) := by
  have hloads : ∀ (offset : UInt32) (words : List UInt32),
      (Script.putBlock offset words).Traces fun _ t => t.reads = [] ∧ t.delays = [] := by
    intro offset words
    refine ((Script.putFrom_traces offset 0 words).and (putFrom_delays offset 0 words)).mono ?_
    exact fun _ t ⟨hreads, hdelays⟩ => ⟨hreads.1, hdelays⟩
  unfold write
  rw [if_neg (by omega)]
  refine command_traces hv (fun _ => ?_) fun h => absurd hq h
  simp only [Script.run_lift_bind]
  refine (hloads _ _).bind fun _ t ht => (hloads _ _).bind fun _ t' ht' => ?_
  refine (issue_awaits e _ _).mono fun r t'' h => ?_
  exact (h.load ht'.1 ht'.2).load ht.1 ht.2

theorem read_awaits (hv : e.window.Valid) (selector : Selector) {qid : UInt16}
    (hq : e.Addresses qid) {length : Nat} (hlength : length ≤ e.window.words) :
    (e.read selector qid length).run.Traces fun r t =>
      e.Awaits (Command.word ⟨selector, .read, qid⟩ e.window.qidMask) (r.map fun _ => ()) t := by
  unfold read
  rw [if_neg (by omega)]
  refine command_traces hv (fun _ => ?_) fun h => absurd hq h
  refine (issue_awaits e _ _).action (fun _ t ht => ?_) fun error t ht => ht
  rw [Script.run_lift]
  refine ((getBlock_fetches hlength).and (getFrom_delays _ 0 length)).bind
    fun words fetched ⟨hf, hdelays⟩ => ?_
  rw [Script.traces_pure, List.append_nil]
  exact ht.fetch (Trace.readsAt_eq_nil fun access haccess =>
    hv.ne_command (.inl (hf.reads access haccess))) hdelays

/-- A call that the window takes writes its command and waits for it. -/
theorem perform_awaits (hv : e.window.Valid) {c : Call}
    (hc : e.window.Takes c.command c.data.length) :
    (e.perform c).Traces fun answer t =>
      e.Awaits (c.command.word e.window.qidMask) answer.1 t := by
  obtain ⟨⟨selector, operation, qid⟩, data⟩ := c
  obtain ⟨hlength, hqid⟩ := hc
  have hq : e.Addresses qid := (addresses_iff hv).2 hqid
  have hkept : ∀ {op : Action AccessError Unit} {word : UInt32}, op.run.Traces (e.Awaits word) →
      (op.run >>= fun r => pure (r, data) : Script Answer).Traces fun answer t =>
        e.Awaits word answer.1 t := by
    refine fun h => h.bind fun r t ht => ?_
    rw [Script.traces_pure, List.append_nil]
    exact ht
  cases operation with
  | clear => exact hkept (simple_awaits hv hq)
  | write => exact hkept (write_awaits hv selector hq (hlength (.inl rfl)))
  | read =>
    refine (read_awaits hv selector hq (hlength (.inr rfl))).bind fun r t ht => ?_
    cases r with
    | ok words | error error =>
      rw [Script.traces_pure, List.append_nil]
      exact ht
  | invalidate => exact hkept (simple_awaits hv hq)

section Samples

variable {attempts i : Nat} {idle : Bool} {busy : List UInt32} {last : UInt32}
variable {samples : Nat → UInt32}

/-- Polled values are the samples of a sequence. -/
theorem Polled.sampled (h : e.Polled attempts idle busy last t)
    (hs : t.readsAt e.window.command = (List.range i).map samples) :
    busy = (List.range busy.length).map samples ∧ last = samples busy.length := by
  have hall := h.samples.symm.trans hs
  have hi : i = busy.length + 1 := by simpa using (congrArg List.length hall).symm
  rw [hi, List.range_succ, List.map_append] at hall
  obtain ⟨hbusy, hlast⟩ := List.append_inj hall (by simp)
  exact ⟨hbusy, List.singleton_inj.1 hlast⟩

/-- The number of busy samples is the index of the first idle one, if there was one. -/
theorem Polled.first (h : e.Polled attempts idle busy last t)
    (hs : t.readsAt e.window.command = (List.range i).map samples) :
    (idle = true ↔ Idle (samples busy.length)) ∧ ∀ i < busy.length, ¬ Idle (samples i) := by
  obtain ⟨hbusy, hlast⟩ := h.sampled hs
  refine ⟨hlast ▸ h.ends, fun i hi => h.spins _ ?_⟩
  rw [hbusy]
  exact List.mem_map_of_mem (List.mem_range.2 hi)

/-- A wait is idle at its end exactly if a sample within its attempts is. -/
theorem Polled.idle_iff (h : e.Polled attempts idle busy last t)
    (hs : t.readsAt e.window.command = (List.range i).map samples) :
    idle = true ↔ ∃ i ≤ attempts, Idle (samples i) := by
  obtain ⟨hends, hspins⟩ := h.first hs
  refine ⟨fun hidle => ⟨_, h.bounded, hends.1 hidle⟩, fun ⟨i, hi, hsample⟩ => ?_⟩
  by_contra hbusy
  have hexhausted := h.exhausted (Bool.eq_false_iff.2 hbusy)
  rcases Nat.lt_or_eq_of_le hi with hlt | rfl
  · exact hspins i (by omega) hsample
  · exact hbusy (hends.2 (hexhausted ▸ hsample))

/-- The delays keep to the budget. -/
theorem Polled.sum_delays_le (h : e.Polled e.poll.attempts idle busy last t) :
    t.delays.sum ≤ max e.poll.timeout.toNat e.poll.interval.toNat := by
  rw [h.delays, List.sum_replicate_nat]
  exact (Nat.mul_le_mul_right _ h.bounded).trans e.poll.attempts_mul_le

end Samples

/-- Whatever the device is and whatever its command register answers, once a command is written its
busy bit is sampled up to the first idle sample, but for `attempts` delays at most: the call is done
if there is one in time, and times out otherwise. The delays keep to the budget, and the counter of
the wait never falls below zero. -/
theorem perform_waits_for_first_idle {σ : Type} (hv : e.window.Valid) {c : Call}
    (hc : e.window.Takes c.command c.data.length) (samples : Nat → UInt32) (b : Backend σ) (s : σ) :
    ∃ (k : Nat) (answer : Answer) (s' : σ × Nat) (earlier later : Trace),
      (e.perform c).trace (b.sampled e.window.command samples) (s, 0) =
        (.ok answer, s', earlier ++
          .write e.window.command (c.command.word e.window.qidMask) :: later) ∧
      earlier.reads = [] ∧ earlier.delays = [] ∧
      later.readsAt e.window.command = (List.range (k + 1)).map samples ∧
      later.delays = List.replicate k e.poll.interval.toNat ∧
      (answer.1 = .ok () ↔ ∃ i ≤ e.poll.attempts, Idle (samples i)) ∧
      (answer.1 = .ok () → k ≤ e.poll.attempts ∧ Idle (samples k) ∧ ∀ i < k, ¬ Idle (samples i)) ∧
      (answer.1 ≠ .ok () → answer.1 = .error .busyTimeout ∧ k = e.poll.attempts) ∧
      later.delays.sum ≤ max e.poll.timeout.toNat e.poll.interval.toNat ∧
      e.countDown e.poll.attempts = e.waitIdle e.poll.attempts := by
  obtain ⟨answer, ⟨s', i⟩, t, htrace, earlier, later, idle, busy, last, rfl, hreads, hdelays,
    hpolled, hres⟩ := (total_perform hv c).trace (perform_awaits hv hc)
      (b.sampled e.window.command samples) (s, 0)
  have hsampled := Script.readsAt_sampled htrace
  rw [Trace.readsAt_append, Trace.readsAt_write,
    Trace.readsAt_eq_nil (by rw [hreads]; exact nofun), List.nil_append] at hsampled
  obtain ⟨hbusy, hlast⟩ := hpolled.sampled hsampled
  obtain ⟨hends, hspins⟩ := hpolled.first hsampled
  have hok : answer.1 = .ok () ↔ idle = true := by
    rw [hres]
    cases idle <;> simp
  refine ⟨busy.length, answer, (s', i), earlier, later, htrace, hreads, hdelays, ?_,
    hpolled.delays, hok.trans (hpolled.idle_iff hsampled), fun h => ?_, fun h => ?_,
    hpolled.sum_delays_le, e.countDown_attempts⟩
  · rw [hpolled.samples, List.range_succ, List.map_append, ← hbusy, hlast]
    rfl
  · exact ⟨hpolled.bounded, hends.1 (hok.1 h), hspins⟩
  · have hidle : idle = false := Bool.eq_false_iff.2 fun hidle => h (hok.2 hidle)
    exact ⟨by rw [hres, hidle]; rfl, hpolled.exhausted hidle⟩

/-- A timeout that is no multiple of the interval, and a bit that clears for the last sample. -/
theorem last_sample_ends_wait :
    ∃ (answer : Answer) (s' : Registers × Nat) (earlier later : Trace),
      (perform ⟨.soft, ⟨10, 25⟩⟩ ⟨⟨.softwareC2h, .clear, 1⟩, []⟩).trace
          (Backend.plain.sampled 0x844 fun i => if i < 2 then 1 else 0) (fun _ => 0, 0) =
        (.ok answer, s', earlier ++ .write 0x844 0x81 :: later) ∧
      answer.1 = .ok () ∧ later.readsAt 0x844 = [1, 1, 0] ∧ later.delays = [10, 10] := by
  obtain ⟨k, answer, s', earlier, later, htrace, -, -, hreads, hdelays, hok, hfirst, -⟩ :=
    perform_waits_for_first_idle (e := ⟨.soft, ⟨10, 25⟩⟩) (c := ⟨⟨.softwareC2h, .clear, 1⟩, []⟩)
      (valid_of_mem_all (by decide)) (by decide) (fun i => if i < 2 then 1 else 0) Backend.plain
      fun _ => 0
  have hdone : answer.1 = .ok () := hok.2 ⟨2, by decide, by decide⟩
  obtain ⟨hk, hidle, -⟩ := hfirst hdone
  obtain rfl : k = 2 := by
    have hlate : ¬ k < 2 := fun h => by
      rw [if_pos h] at hidle
      exact absurd hidle (by decide)
    have hbound : k ≤ 2 := hk
    omega
  exact ⟨answer, s', earlier, later, htrace, hdone, hreads, hdelays⟩

end Engine

end DmaQueues
