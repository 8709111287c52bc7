import DmaQueues.Trace

/-!
# What a script ends in

`Ends P p` says that `P` holds of every value that `p` ends in, whatever the registers
answer; a branch that ends in a fault gives no value. A run of `p` over any backend is one
of these branches (`Ends.of_run`). `Total p` says that no branch ends in a fault, and
`Offline p` that `p` does not access the device.
-/

namespace DmaQueues.Script

variable {α β : Type}

def Ends (P : α → Prop) : Script α → Prop
  | pure a => P a
  | halt _ => True
  | read _ next => ∀ v, (next v).Ends P
  | write _ _ next => (next ()).Ends P
  | delay _ next => (next ()).Ends P
  | note _ next => (next ()).Ends P

variable {P Q : α → Prop}

@[simp] theorem ends_pure {a : α} : (Pure.pure a : Script α).Ends P ↔ P a := Iff.rfl

@[simp] theorem ends_halt {f : Fault} : (halt f : Script α).Ends P := trivial

@[simp] theorem ends_ofChecked {c : Checked α} : (ofChecked c).Ends P ↔ ∀ a, c = .ok a → P a := by
  cases c with
  | error f => exact ⟨fun _ a h => (by cases h), fun _ => trivial⟩
  | ok a => exact ⟨fun h b hb => (by cases hb; exact h), fun h => h a rfl⟩

theorem Ends.mono {p : Script α} (h : p.Ends P) (hpq : ∀ a, P a → Q a) : p.Ends Q := by
  induction p with
  | pure a => exact hpq a h
  | halt f => trivial
  | read offset next ih => exact fun v => ih v (h v)
  | write offset value next ih => exact ih () h
  | delay us next ih => exact ih () h
  | note n next ih => exact ih () h

/-- Where nothing is asked of the values, every script will do. -/
theorem ends_true (p : Script α) : p.Ends fun _ => True := by
  induction p with
  | pure a => trivial
  | halt f => trivial
  | read offset next ih => exact ih
  | write offset value next ih => exact ih ()
  | delay us next ih => exact ih ()
  | note n next ih => exact ih ()

theorem ends_bind {p : Script α} {f : α → Script β} {P : β → Prop} :
    (p >>= f).Ends P ↔ p.Ends fun a => (f a).Ends P := by
  show (p.bind f).Ends P ↔ _
  induction p with
  | pure a => exact Iff.rfl
  | halt e => exact Iff.rfl
  | read offset next ih => exact forall_congr' ih
  | write offset value next ih => exact ih ()
  | delay us next ih => exact ih ()
  | note n next ih => exact ih ()

theorem Ends.bind {p : Script α} {f : α → Script β} {P : β → Prop} (h : p.Ends Q)
    (hf : ∀ a, Q a → (f a).Ends P) : (p >>= f).Ends P :=
  ends_bind.2 (h.mono hf)

/-- Nothing is known of what `p` ends in. -/
theorem ends_bind_of_forall {p : Script α} {f : α → Script β} {P : β → Prop}
    (hf : ∀ a, (f a).Ends P) : (p >>= f).Ends P :=
  (ends_true p).bind fun a _ => hf a

theorem ends_notices_bind {ns : List Notice} {f : Unit → Script β} {P : β → Prop}
    (hf : (f ()).Ends P) : (notices ns >>= f).Ends P :=
  ends_bind_of_forall fun _ => hf

theorem Ends.and {p : Script α} (hp : p.Ends P) (hq : p.Ends Q) : p.Ends fun a => P a ∧ Q a := by
  induction p with
  | pure a => exact ⟨hp, hq⟩
  | halt f => trivial
  | read offset next ih => exact fun v => ih v (hp v) (hq v)
  | write offset value next ih => exact ih () hp hq
  | delay us next ih => exact ih () hp hq
  | note n next ih => exact ih () hp hq

theorem Ends.of_run {σ : Type} {b : Backend σ} {p : Script α} {s s' : σ} {a : α} (h : p.Ends P)
    (hr : p.run b s = (.ok a, s')) : P a := by
  induction p generalizing s with
  | pure a' => cases hr; exact h
  | halt f => cases hr
  | read offset next ih => exact ih _ (h _) hr
  | write offset value next ih => exact ih () h hr
  | delay us next ih => exact ih () h hr
  | note n next ih => exact ih () h hr

/-! ## Scripts without faults -/

def Total : Script α → Prop
  | pure _ => True
  | halt _ => False
  | read _ next => ∀ v, (next v).Total
  | write _ _ next => (next ()).Total
  | delay _ next => (next ()).Total
  | note _ next => (next ()).Total

@[simp] theorem total_pure {a : α} : (Pure.pure a : Script α).Total := trivial

/-- Only the values that `p` ends in are passed on. -/
theorem Total.bind_ends {p : Script α} {f : α → Script β} (h : p.Total)
    (hf : p.Ends fun a => (f a).Total) : (p >>= f).Total := by
  show (p.bind f).Total
  induction p with
  | pure a => exact hf
  | halt e => exact h.elim
  | read offset next ih => exact fun v => ih v (h v) (hf v)
  | write offset value next ih => exact ih () h hf
  | delay us next ih => exact ih () h hf
  | note n next ih => exact ih () h hf

theorem Total.bind {p : Script α} {f : α → Script β} (h : p.Total) (hf : ∀ a, (f a).Total) :
    (p >>= f).Total :=
  h.bind_ends ((ends_true p).mono fun a _ => hf a)

theorem Total.map {p : Script α} (h : p.Total) (f : α → β) : (f <$> p).Total := by
  rw [← bind_pure_comp]
  exact h.bind fun _ => trivial

theorem Total.run {σ : Type} {p : Script α} (h : p.Total) (b : Backend σ) (s : σ) :
    ∃ a s', p.run b s = (.ok a, s') := by
  induction p generalizing s with
  | pure a => exact ⟨a, s, rfl⟩
  | halt f => exact h.elim
  | read offset next ih => exact ih _ (h _) _
  | write offset value next ih => exact ih () h _
  | delay us next ih => exact ih () h _
  | note n next ih => exact ih () h _

/-! ## Scripts that leave the device alone -/

/-- `p` gives notices only. -/
def Offline : Script α → Prop
  | pure _ => True
  | halt _ => True
  | note _ next => (next ()).Offline
  | _ => False

@[simp] theorem offline_pure {a : α} : (Pure.pure a : Script α).Offline := trivial

@[simp] theorem offline_ofChecked (c : Checked α) : (ofChecked c).Offline := by
  cases c <;> trivial

theorem offline_notices (ns : List Notice) : (notices ns).Offline := by
  induction ns with
  | nil => trivial
  | cons n ns ih => exact ih

theorem Offline.bind_ends {p : Script α} {f : α → Script β} (h : p.Offline)
    (hf : p.Ends fun a => (f a).Offline) : (p >>= f).Offline := by
  show (p.bind f).Offline
  induction p with
  | pure a => exact hf
  | halt e => trivial
  | note n next ih => exact ih () h hf
  | read offset next ih => exact h.elim
  | write offset value next ih => exact h.elim
  | delay us next ih => exact h.elim

theorem Offline.bind {p : Script α} {f : α → Script β} (h : p.Offline)
    (hf : ∀ a, (f a).Offline) : (p >>= f).Offline :=
  h.bind_ends ((ends_true p).mono fun a _ => hf a)

/-- Nothing but notices is left in the trace. -/
theorem Offline.trace {σ : Type} {p : Script α} (h : p.Offline) (b : Backend σ) (s : σ) :
    ∃ s' notices, p.trace b s = ((p.run b s).1, s', List.map Event.note notices) := by
  have hrun : ∀ (s : σ) (earlier : List Notice), ∃ s' later,
      p.run b.recorded (s, earlier.map Event.note) =
        ((p.run b s).1, s', List.map Event.note later) := by
    induction p with
    | pure a => exact fun s earlier => ⟨s, earlier, rfl⟩
    | halt e => exact fun s earlier => ⟨s, earlier, rfl⟩
    | note n next ih => exact fun s earlier => ih () h (b.note s n) (n :: earlier)
    | read offset next ih => exact h.elim
    | write offset value next ih => exact h.elim
    | delay us next ih => exact h.elim
  obtain ⟨s', later, hr⟩ := hrun s []
  refine ⟨s', later.reverse, ?_⟩
  rw [List.map_nil] at hr
  rw [Script.trace, hr, List.map_reverse]

/-- `p` reads registers with `P` and gives notices, and does no more. -/
def Peeks (P : UInt32 → Prop) : Script α → Prop
  | pure _ => True
  | halt _ => True
  | read offset next => P offset ∧ ∀ v, (next v).Peeks P
  | note _ next => (next ()).Peeks P
  | _ => False

theorem Offline.peeks {p : Script α} (h : p.Offline) (P : UInt32 → Prop) : p.Peeks P := by
  induction p with
  | pure a => trivial
  | halt f => trivial
  | note n next ih => exact ih () h
  | read offset next ih => exact h.elim
  | write offset value next ih => exact h.elim
  | delay us next ih => exact h.elim

theorem Peeks.bind {P : UInt32 → Prop} {p : Script α} {f : α → Script β} (h : p.Peeks P)
    (hf : ∀ a, (f a).Peeks P) : (p >>= f).Peeks P := by
  show (p.bind f).Peeks P
  induction p with
  | pure a => exact hf a
  | halt e => trivial
  | note n next ih => exact ih () h
  | read offset next ih => exact ⟨h.1, fun v => ih v (h.2 v)⟩
  | write offset value next ih => exact h.elim
  | delay us next ih => exact h.elim

/-- `p` ends in a value with `P`, and has not accessed the device. -/
structure Silent (P : α → Prop) (p : Script α) : Prop where
  offline : p.Offline
  total : p.Total
  ends : p.Ends P

theorem Silent.bind {p : Script α} {f : α → Script β} {P : α → Prop} {Q : β → Prop}
    (h : p.Silent P) (hf : ∀ a, P a → (f a).Silent Q) : (p >>= f).Silent Q where
  offline := h.offline.bind_ends (h.ends.mono fun a ha => (hf a ha).offline)
  total := h.total.bind_ends (h.ends.mono fun a ha => (hf a ha).total)
  ends := h.ends.bind fun a ha => (hf a ha).ends

theorem Silent.trace {σ : Type} {p : Script α} {P : α → Prop} (h : p.Silent P) (b : Backend σ)
    (s : σ) : ∃ a s' notices, p.trace b s = (.ok a, s', List.map Event.note notices) ∧ P a := by
  obtain ⟨a, s'', hr⟩ := h.total.run b s
  obtain ⟨s', notices, htrace⟩ := h.offline.trace b s
  rw [hr] at htrace
  exact ⟨a, s', notices, htrace, h.ends.of_run hr⟩

end DmaQueues.Script
