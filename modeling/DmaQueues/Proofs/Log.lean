import DmaQueues.Proofs.Trace

/-!
# Events of every branch

`Logs P p` says that `P` holds of the result and of the events of every branch of `p`, also of
those that end in a fault: what was accessed before the fault was accessed. Every recorded run is
one of these branches (`Logs.of_trace`).
-/

namespace DmaQueues.Script

variable {α β ε σ : Type}

def Logs : (Checked α → Trace → Prop) → Script α → Prop
  | P, pure a => P (.ok a) []
  | P, halt f => P (.error f) []
  | P, read offset next => ∀ v, (next v).Logs fun r t => P r (.read offset v :: t)
  | P, write offset value next => (next ()).Logs fun r t => P r (.write offset value :: t)
  | P, delay us next => (next ()).Logs fun r t => P r (.delay us :: t)
  | P, note n next => (next ()).Logs fun r t => P r (.note n :: t)

variable {P Q : Checked α → Trace → Prop} {p : Script α}

@[simp] theorem logs_pure {a : α} : (Pure.pure a : Script α).Logs P ↔ P (.ok a) [] := Iff.rfl

theorem Logs.mono (h : p.Logs P) (hpq : ∀ r t, P r t → Q r t) : p.Logs Q := by
  induction p generalizing P Q with
  | pure a => exact hpq _ [] h
  | halt f => exact hpq _ [] h
  | read offset next ih => exact fun v => ih v (h v) fun r t => hpq r _
  | write offset value next ih => exact ih () h fun r t => hpq r _
  | delay us next ih => exact ih () h fun r t => hpq r _
  | note n next ih => exact ih () h fun r t => hpq r _

/-- A fault of the first script is the fault of the whole. -/
theorem Logs.bind {f : α → Script β} {P : Checked β → Trace → Prop} (h : p.Logs Q)
    (hf : ∀ a t, Q (.ok a) t → (f a).Logs fun r t' => P r (t ++ t'))
    (hfault : ∀ e t, Q (.error e) t → P (.error e) t) : (p >>= f).Logs P := by
  show (p.bind f).Logs P
  induction p generalizing P Q with
  | pure a => exact hf a [] h
  | halt e => exact hfault e [] h
  | read offset next ih =>
    exact fun v => ih v (h v) (fun a t hq => hf a _ hq) fun e t hq => hfault e _ hq
  | write offset value next ih =>
    exact ih () h (fun a t hq => hf a _ hq) fun e t hq => hfault e _ hq
  | delay us next ih => exact ih () h (fun a t hq => hf a _ hq) fun e t hq => hfault e _ hq
  | note n next ih => exact ih () h (fun a t hq => hf a _ hq) fun e t hq => hfault e _ hq

/-- The branches that end in a value. -/
theorem Logs.traces (h : p.Logs P) : p.Traces fun a t => P (.ok a) t := by
  induction p generalizing P with
  | pure a => exact h
  | halt f => trivial
  | read offset next ih => exact fun v => ih v (h v)
  | write offset value next ih => exact ih () h
  | delay us next ih => exact ih () h
  | note n next ih => exact ih () h

/-- Without faults every branch is known. -/
theorem Gives.logs {P : α → Trace → Prop} (h : p.Gives P) :
    p.Logs fun r t => ∃ a, r = .ok a ∧ P a t := by
  obtain ⟨ht, hp⟩ := h
  induction p generalizing P with
  | pure a => exact ⟨a, rfl, hp⟩
  | halt f => exact ht.elim
  | read offset next ih => exact fun v => ih v (ht v) (hp v)
  | write offset value next ih => exact ih () ht hp
  | delay us next ih => exact ih () ht hp
  | note n next ih => exact ih () ht hp

theorem Offline.logs (h : p.Offline) : p.Logs fun _ t => t.Untouched := by
  have hcons : ∀ {n : Notice} {t : Trace}, t.Untouched → Trace.Untouched (.note n :: t) :=
    fun ht => ⟨ht.reads, ht.writes⟩
  induction p with
  | pure a => exact ⟨rfl, rfl⟩
  | halt f => exact ⟨rfl, rfl⟩
  | note n next ih => exact (ih () h).mono fun _ _ ht => hcons ht
  | read offset next ih => exact h.elim
  | write offset value next ih => exact h.elim
  | delay us next ih => exact h.elim

/-! ## Writes -/

section

variable {P : List (UInt32 × UInt32) → Prop} {f : α → Script β}

/-- What only reads leaves the writes to what follows. -/
theorem Logs.after (h : p.Logs fun _ t => t.writes = []) (hnone : P [])
    (hf : ∀ a, (f a).Logs fun _ t => P t.writes) : (p >>= f).Logs fun _ t => P t.writes := by
  refine h.bind (fun a t ht => (hf a).mono fun r t' ht' => ?_) fun e t ht => ?_
  · rw [Trace.writes_append, ht]
    exact ht'
  · rw [ht]
    exact hnone

theorem Logs.before (h : p.Logs fun _ t => P t.writes)
    (hf : ∀ a, (f a).Logs fun _ t => t.writes = []) : (p >>= f).Logs fun _ t => P t.writes := by
  refine h.bind (fun a t ht => (hf a).mono fun r t' ht' => ?_) fun e t ht => ht
  rw [Trace.writes_append, ht', List.append_nil]
  exact ht

end

theorem Offline.logs_writes (h : p.Offline) : p.Logs fun _ t => t.writes = [] :=
  h.logs.mono fun _ _ ht => ht.writes

/-! ## Recorded runs -/

theorem Logs.of_recorded {b : Backend σ} (h : p.Logs P) {s s' : σ} {earlier history : List Event}
    {r : Checked α} (hr : p.run b.recorded (s, earlier) = (r, s', history)) :
    ∃ t : Trace, history = t.reverse ++ earlier ∧ P r t := by
  induction p generalizing P s earlier with
  | pure a =>
    cases hr
    exact ⟨[], rfl, h⟩
  | halt f =>
    cases hr
    exact ⟨[], rfl, h⟩
  | read offset next ih =>
    obtain ⟨t, rfl, hp⟩ := ih _ (h _) hr
    exact ⟨_, by rw [List.reverse_cons, List.append_assoc]; rfl, hp⟩
  | write offset value next ih =>
    obtain ⟨t, rfl, hp⟩ := ih () h hr
    exact ⟨_, by rw [List.reverse_cons, List.append_assoc]; rfl, hp⟩
  | delay us next ih =>
    obtain ⟨t, rfl, hp⟩ := ih () h hr
    exact ⟨_, by rw [List.reverse_cons, List.append_assoc]; rfl, hp⟩
  | note n next ih =>
    obtain ⟨t, rfl, hp⟩ := ih () h hr
    exact ⟨_, by rw [List.reverse_cons, List.append_assoc]; rfl, hp⟩

theorem Logs.of_trace {b : Backend σ} (h : p.Logs P) {s s' : σ} {r : Checked α} {t : Trace}
    (hr : p.trace b s = (r, s', t)) : P r t := by
  unfold trace at hr
  split at hr
  next r' s'' history hrun =>
    cases hr
    obtain ⟨t, rfl, hp⟩ := h.of_recorded hrun
    rw [List.append_nil, List.reverse_reverse]
    exact hp

end DmaQueues.Script
