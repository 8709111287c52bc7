import DmaQueues.Fault
import Mathlib.Algebra.Ring.Nat

/-!
# Checked computations that succeed

Equations for the steps of a `Checked` computation once its bounds are known. A sum
succeeds exactly when its total is a word, since partial sums never exceed it.
-/

namespace DmaQueues.Checked

variable {α β : Type}

@[simp] theorem ok_bind (a : α) (f : α → Checked β) : (Except.ok a >>= f) = f a := rfl

@[simp] theorem error_bind (e : Fault) (f : α → Checked β) :
    ((Except.error e : Checked α) >>= f) = .error e := rfl

@[simp] theorem map_ok (f : α → β) (a : α) : f <$> (Except.ok a : Checked α) = .ok (f a) := rfl

@[simp] theorem map_error (f : α → β) (e : Fault) :
    f <$> (Except.error e : Checked α) = .error e := rfl

@[simp] theorem pure_eq (a : α) : (pure a : Checked α) = .ok a := rfl

/-- What is known of one value of a computation is known of its value. -/
theorem of_exists {op : Checked α} {P : α → Prop} (h : ∃ a, op = .ok a ∧ P a) {a : α}
    (ha : op = .ok a) : P a := by
  obtain ⟨b, hb, hp⟩ := h
  cases ha.symm.trans hb
  exact hp

theorem of_fault_or_exists {op : Checked α} {e : Fault} {P : α → Prop}
    (h : op = .error e ∨ ∃ a, op = .ok a ∧ P a) {a : α} (ha : op = .ok a) : P a := by
  rcases h with hf | hv
  · cases ha.symm.trans hf
  · exact of_exists hv ha

theorem bind_eq_ok {op : Checked α} {f : α → Checked β} {b : β} (h : (op >>= f) = .ok b) :
    ∃ a, op = .ok a ∧ f a = .ok b := by
  cases op with
  | error e => cases h
  | ok a => exact ⟨a, rfl, h⟩

theorem map_eq_ok {f : α → β} {op : Checked α} {b : β} (h : f <$> op = .ok b) :
    ∃ a, op = .ok a ∧ f a = b := by
  cases op with
  | error e => cases h
  | ok a => exact ⟨a, rfl, Except.ok.inj h⟩

theorem map_eq_error {f : α → β} {op : Checked α} {e : Fault} (h : f <$> op = .error e) :
    op = .error e := by
  cases op with
  | error e' =>
    cases h
    rfl
  | ok a => cases h

theorem add_eq {a b : Nat} (h : a + b < wordLimit) : add a b = .ok (a + b) := if_pos h

theorem add_eq_ok {a b n : Nat} (h : add a b = .ok n) : n = a + b := by
  unfold add at h
  split at h
  · cases h
    rfl
  · cases h

theorem sub_eq {a b : Nat} (h : b ≤ a) : sub a b = .ok (a - b) := if_pos h

theorem sumFrom_eq {ns : List Nat} {start : Nat} (h : start + ns.sum < wordLimit) :
    ns.foldlM add start = .ok (start + ns.sum) := by
  induction ns generalizing start with
  | nil => rfl
  | cons n ns ih =>
    simp only [List.sum_cons] at h ⊢
    rw [List.foldlM_cons, add_eq (by omega), ok_bind, ih (by omega), Nat.add_assoc]

theorem sum_eq {ns : List Nat} (h : ns.sum < wordLimit) : sum ns = .ok ns.sum := by
  have hfrom : ns.foldlM add 0 = .ok (0 + ns.sum) := sumFrom_eq (by simpa using h)
  simpa [sum] using hfrom

/-- A list of computations that all succeed. -/
theorem mapM_eq {f : α → Checked β} {g : α → β} {as : List α} (h : ∀ a ∈ as, f a = .ok (g a)) :
    as.mapM f = .ok (as.map g) := by
  induction as with
  | nil => rfl
  | cons a as ih =>
    rw [List.mapM_cons, h a List.mem_cons_self, ok_bind,
      ih fun b hb => h b (List.mem_cons_of_mem _ hb)]
    rfl

end DmaQueues.Checked
