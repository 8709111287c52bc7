import DmaQueues.Proofs.Checked
import DmaQueues.Proofs.Run

/-!
# Values and their events

`Traces P p` says that `P` holds of the value and of the events of every branch of `p` that
ends in a value, whatever the registers answer. A recorded run of `p` over any backend is one
of these branches (`Traces.of_trace`). Along `>>=` the events stand one after the other.
-/

namespace DmaQueues

namespace Trace

@[simp] theorem reads_nil : reads [] = [] := rfl

@[simp] theorem writes_nil : writes [] = [] := rfl

@[simp] theorem reads_read (offset value : UInt32) (t : Trace) :
    reads (.read offset value :: t) = (offset, value) :: reads t := rfl

@[simp] theorem writes_read (offset value : UInt32) (t : Trace) :
    writes (.read offset value :: t) = writes t := rfl

@[simp] theorem reads_write (offset value : UInt32) (t : Trace) :
    reads (.write offset value :: t) = reads t := rfl

@[simp] theorem writes_write (offset value : UInt32) (t : Trace) :
    writes (.write offset value :: t) = (offset, value) :: writes t := rfl

@[simp] theorem reads_delay (us : UInt32) (t : Trace) : reads (.delay us :: t) = reads t := rfl

@[simp] theorem writes_delay (us : UInt32) (t : Trace) : writes (.delay us :: t) = writes t := rfl

@[simp] theorem reads_note (n : Notice) (t : Trace) : reads (.note n :: t) = reads t := rfl

@[simp] theorem writes_note (n : Notice) (t : Trace) : writes (.note n :: t) = writes t := rfl

@[simp] theorem reads_append (t t' : Trace) : reads (t ++ t') = reads t ++ reads t' :=
  List.filterMap_append

@[simp] theorem writes_append (t t' : Trace) : writes (t ++ t') = writes t ++ writes t' :=
  List.filterMap_append

@[simp] theorem notices_append (t t' : Trace) : notices (t ++ t') = notices t ++ notices t' :=
  List.filterMap_append

/-- No register was read or written. -/
structure Untouched (t : Trace) : Prop where
  reads : t.reads = []
  writes : t.writes = []

theorem Untouched.append {t t' : Trace} (h : t.Untouched) (h' : t'.Untouched) :
    (t ++ t').Untouched :=
  ⟨by rw [reads_append, h.reads, h'.reads, List.append_nil],
    by rw [writes_append, h.writes, h'.writes, List.append_nil]⟩

theorem untouched_notices (ns : List Notice) : Untouched (ns.map Event.note) := by
  induction ns with
  | nil => exact ⟨rfl, rfl⟩
  | cons n ns ih => exact ⟨ih.reads, ih.writes⟩

end Trace

namespace Script

variable {α β ε σ : Type}

def Traces : (α → Trace → Prop) → Script α → Prop
  | P, pure a => P a []
  | _, halt _ => True
  | P, read offset next => ∀ v, (next v).Traces fun a t => P a (.read offset v :: t)
  | P, write offset value next => (next ()).Traces fun a t => P a (.write offset value :: t)
  | P, delay us next => (next ()).Traces fun a t => P a (.delay us :: t)
  | P, note n next => (next ()).Traces fun a t => P a (.note n :: t)

variable {P Q : α → Trace → Prop}

@[simp] theorem traces_pure {a : α} : (Pure.pure a : Script α).Traces P ↔ P a [] := Iff.rfl

theorem Traces.mono {p : Script α} (h : p.Traces P) (hpq : ∀ a t, P a t → Q a t) :
    p.Traces Q := by
  induction p generalizing P Q with
  | pure a => exact hpq a [] h
  | halt f => trivial
  | read offset next ih => exact fun v => ih v (h v) fun a t => hpq a _
  | write offset value next ih => exact ih () h fun a t => hpq a _
  | delay us next ih => exact ih () h fun a t => hpq a _
  | note n next ih => exact ih () h fun a t => hpq a _

theorem Traces.and {p : Script α} (hp : p.Traces P) (hq : p.Traces Q) :
    p.Traces fun a t => P a t ∧ Q a t := by
  induction p generalizing P Q with
  | pure a => exact ⟨hp, hq⟩
  | halt f => trivial
  | read offset next ih => exact fun v => ih v (hp v) (hq v)
  | write offset value next ih => exact ih () hp hq
  | delay us next ih => exact ih () hp hq
  | note n next ih => exact ih () hp hq

/-- What is known of the values is known of them with their events. -/
theorem Ends.traces {p : Script α} {P : α → Prop} (h : p.Ends P) : p.Traces fun a _ => P a := by
  induction p with
  | pure a => exact h
  | halt f => trivial
  | read offset next ih => exact fun v => ih v (h v)
  | write offset value next ih => exact ih () h
  | delay us next ih => exact ih () h
  | note n next ih => exact ih () h

theorem Traces.ends {p : Script α} (h : p.Traces P) : p.Ends fun a => ∃ t, P a t := by
  induction p generalizing P with
  | pure a => exact ⟨[], h⟩
  | halt f => trivial
  | read offset next ih => exact fun v => (ih v (h v)).mono fun a ⟨t, ht⟩ => ⟨_, ht⟩
  | write offset value next ih => exact (ih () h).mono fun a ⟨t, ht⟩ => ⟨_, ht⟩
  | delay us next ih => exact (ih () h).mono fun a ⟨t, ht⟩ => ⟨_, ht⟩
  | note n next ih => exact (ih () h).mono fun a ⟨t, ht⟩ => ⟨_, ht⟩

theorem Offline.traces {p : Script α} (h : p.Offline) :
    p.Traces fun _ t => ∃ ns, t = List.map Event.note ns := by
  induction p with
  | pure a => exact ⟨[], rfl⟩
  | halt f => trivial
  | note n next ih =>
    refine (ih () h).mono ?_
    rintro a _ ⟨ns, rfl⟩
    exact ⟨n :: ns, rfl⟩
  | read offset next ih => exact h.elim
  | write offset value next ih => exact h.elim
  | delay us next ih => exact h.elim

theorem Offline.untouched {p : Script α} (h : p.Offline) : p.Traces fun _ t => t.Untouched := by
  refine h.traces.mono ?_
  rintro a _ ⟨ns, rfl⟩
  exact Trace.untouched_notices ns

theorem Traces.bind {p : Script α} {f : α → Script β} {P : β → Trace → Prop} (h : p.Traces Q)
    (hf : ∀ a t, Q a t → (f a).Traces fun b t' => P b (t ++ t')) : (p >>= f).Traces P := by
  show (p.bind f).Traces P
  induction p generalizing P Q with
  | pure a => exact hf a [] h
  | halt e => trivial
  | read offset next ih => exact fun v => ih v (h v) fun a t hq => hf a _ hq
  | write offset value next ih => exact ih () h fun a t hq => hf a _ hq
  | delay us next ih => exact ih () h fun a t hq => hf a _ hq
  | note n next ih => exact ih () h fun a t hq => hf a _ hq

/-- An error of the first action is the error of the whole. -/
theorem Traces.action {op : Action ε α} {f : α → Action ε β} {Q : Except ε α → Trace → Prop}
    {P : Except ε β → Trace → Prop} (h : op.run.Traces Q)
    (hok : ∀ a t, Q (.ok a) t → (f a).run.Traces fun r t' => P r (t ++ t'))
    (herror : ∀ e t, Q (.error e) t → P (.error e) t) : (op >>= f).run.Traces P := by
  rw [run_action_bind]
  refine h.bind fun r t hq => ?_
  cases r with
  | ok a => exact hok a t hq
  | error e =>
    rw [traces_pure, List.append_nil]
    exact herror e t hq

/-! ## Recorded runs -/

/-- The history of a run stands before what was there, newest first. -/
theorem Traces.of_recorded {b : Backend σ} {p : Script α} (h : p.Traces P) {s s' : σ}
    {earlier history : List Event} {a : α}
    (hr : p.run b.recorded (s, earlier) = (.ok a, s', history)) :
    ∃ t : Trace, history = t.reverse ++ earlier ∧ P a t := by
  induction p generalizing P s earlier with
  | pure a' =>
    cases hr
    exact ⟨[], rfl, h⟩
  | halt f => cases hr
  | read offset next ih =>
    obtain ⟨t, rfl, hp⟩ := ih _ (h _) hr
    exact ⟨_, by rw [List.reverse_cons, List.append_assoc]; rfl, hp⟩
  | write offset value next ih =>
    obtain ⟨t, rfl, hp⟩ := ih () h hr
    exact ⟨_, by rw [List.reverse_cons, List.append_assoc]; rfl, hp⟩
  | delay us next ih =>
    obtain ⟨t, rfl, hp⟩ := ih () h hr
    exact ⟨_, by rw [List.reverse_cons, List.append_assoc]; rfl, hp⟩
  | note n next ih =>
    obtain ⟨t, rfl, hp⟩ := ih () h hr
    exact ⟨_, by rw [List.reverse_cons, List.append_assoc]; rfl, hp⟩

theorem Traces.of_trace {b : Backend σ} {p : Script α} (h : p.Traces P) {s s' : σ} {a : α}
    {t : Trace} (hr : p.trace b s = (.ok a, s', t)) : P a t := by
  unfold trace at hr
  split at hr
  next r s'' history hrun =>
    cases hr
    obtain ⟨t, rfl, hp⟩ := h.of_recorded hrun
    rw [List.append_nil, List.reverse_reverse]
    exact hp

/-- What is done with a value at the end leaves no trace. -/
theorem trace_bind_pure {b : Backend σ} {p : Script α} {s s' : σ} {a : α} {t : Trace}
    (f : α → β) (h : p.trace b s = (.ok a, s', t)) :
    (p >>= fun a => pure (f a)).trace b s = (.ok (f a), s', t) := by
  unfold trace at h ⊢
  split at h
  next r s'' history hrun =>
    cases h
    rw [run_bind, hrun]
    rfl

/-- A script without faults has a trace over every backend. -/
theorem Total.trace {p : Script α} (ht : p.Total) (h : p.Traces P) (b : Backend σ) (s : σ) :
    ∃ a s' t, p.trace b s = (.ok a, s', t) ∧ P a t := by
  obtain ⟨a, ⟨s', history⟩, hrun⟩ := ht.run b.recorded (s, [])
  have htrace : p.trace b s = (.ok a, s', history.reverse) := by
    unfold Script.trace
    rw [hrun]
  exact ⟨a, s', _, htrace, h.of_trace htrace⟩

/-- Every branch of `p` ends in a value, with `P` of it and of the events. -/
structure Gives (P : α → Trace → Prop) (p : Script α) : Prop where
  total : p.Total
  traces : p.Traces P

theorem Gives.trace {p : Script α} (h : p.Gives P) (b : Backend σ) (s : σ) :
    ∃ a s' t, p.trace b s = (.ok a, s', t) ∧ P a t :=
  h.total.trace h.traces b s

theorem gives_pure {a : α} (h : P a []) : (Pure.pure a : Script α).Gives P :=
  ⟨trivial, h⟩

theorem Gives.mono {p : Script α} (h : p.Gives P) (hpq : ∀ a t, P a t → Q a t) : p.Gives Q :=
  ⟨h.total, h.traces.mono hpq⟩

theorem Gives.bind {p : Script α} {f : α → Script β} {P : β → Trace → Prop} (h : p.Gives Q)
    (hf : ∀ a t, Q a t → (f a).Gives fun b t' => P b (t ++ t')) : (p >>= f).Gives P where
  total := h.total.bind_ends (h.traces.ends.mono fun a ⟨t, ht⟩ => (hf a t ht).total)
  traces := h.traces.bind fun a t ht => (hf a t ht).traces

theorem Silent.gives {p : Script α} {P : α → Prop} (h : p.Silent P) :
    p.Gives fun a t => P a ∧ t.Untouched :=
  ⟨h.total, h.ends.traces.and h.offline.untouched⟩

/-! ## Blocks of registers -/

theorem offsetAt_eq_ok {offset o : UInt32} {index : Nat} (h : offsetAt offset index = .ok o) :
    o = offset + UInt32.ofNat (4 * index) := by
  obtain ⟨sum, hsum, hres⟩ := Checked.bind_eq_ok h
  cases hres
  rw [Checked.add_eq_ok hsum, UInt32.ofNat_add, UInt32.ofNat_toNat]

theorem putFrom_traces (offset : UInt32) (index : Nat) (values : List UInt32) :
    (putFrom offset index values).Traces fun _ t => t.reads = [] ∧
      ∀ access ∈ t.writes, ∃ i < index + values.length,
        access.1 = offset + UInt32.ofNat (4 * i) := by
  induction values generalizing index with
  | nil => exact ⟨rfl, nofun⟩
  | cons value values ih =>
    show (ofChecked (offsetAt offset index) >>= fun o => put o value >>= fun _ =>
      putFrom offset (index + 1) values).Traces _
    cases ho : offsetAt offset index with
    | error f => trivial
    | ok o =>
      refine (ih (index + 1)).mono fun _ t ⟨hreads, hwrites⟩ => ⟨hreads, ?_⟩
      simp only [Trace.writes_write, List.forall_mem_cons, List.length_cons]
      refine ⟨⟨index, by omega, offsetAt_eq_ok ho⟩, fun access haccess => ?_⟩
      obtain ⟨i, hi, heq⟩ := hwrites access haccess
      exact ⟨i, by omega, heq⟩

theorem getFrom_traces (offset : UInt32) (index length : Nat) :
    (getFrom offset index length).Traces fun _ t => t.writes = [] ∧
      ∀ access ∈ t.reads, ∃ i < index + length, access.1 = offset + UInt32.ofNat (4 * i) := by
  induction length generalizing index with
  | zero => exact ⟨rfl, nofun⟩
  | succ n ih =>
    show (ofChecked (offsetAt offset index) >>= fun o => get o >>= fun value =>
      getFrom offset (index + 1) n >>= fun values => Pure.pure (value :: values)).Traces _
    cases ho : offsetAt offset index with
    | error f => trivial
    | ok o =>
      intro v
      refine (ih (index + 1)).bind fun values t ⟨hwrites, hreads⟩ => ?_
      rw [traces_pure, List.append_nil]
      refine ⟨hwrites, ?_⟩
      simp only [Trace.reads_read, List.forall_mem_cons]
      refine ⟨⟨index, by omega, offsetAt_eq_ok ho⟩, fun access haccess => ?_⟩
      obtain ⟨i, hi, heq⟩ := hreads access haccess
      exact ⟨i, by omega, heq⟩

end Script

end DmaQueues
