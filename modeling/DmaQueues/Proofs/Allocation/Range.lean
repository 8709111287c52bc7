import DmaQueues.Allocation.Range
import DmaQueues.Proofs.Checked

/-!
# The ids of a range

`Holds` is a range as a set of queue ids. The tests on ranges succeed and mean what they
say where the ends are words; `Covers` is inclusion, and for lists of ranges `AnyHolds`
is the union.
-/

namespace DmaQueues.QueueRange

def Holds (r : QueueRange) (q : Nat) : Prop :=
  r.base ≤ q ∧ q < r.base + r.count

/-- The end of the range is a word. -/
def Bounded (r : QueueRange) : Prop :=
  r.base + r.count < wordLimit

def Covers (r other : QueueRange) : Prop :=
  r.base ≤ other.base ∧ other.base + other.count ≤ r.base + r.count

instance (r : QueueRange) (q : Nat) : Decidable (r.Holds q) :=
  inferInstanceAs (Decidable (_ ∧ _))

instance (r : QueueRange) : Decidable r.Bounded :=
  inferInstanceAs (Decidable (_ < _))

instance (r other : QueueRange) : Decidable (r.Covers other) :=
  inferInstanceAs (Decidable (_ ∧ _))

theorem holds_base {r : QueueRange} (h : 0 < r.count) : r.Holds r.base :=
  ⟨Nat.le_refl _, by omega⟩

theorem Covers.holds {r other : QueueRange} (h : r.Covers other) {q : Nat} (hq : other.Holds q) :
    r.Holds q :=
  ⟨Nat.le_trans h.1 hq.1, Nat.lt_of_lt_of_le hq.2 h.2⟩

/-- Inclusion of the ids is inclusion of the ranges, unless there is no id. -/
theorem covers_of_holds {r other : QueueRange} (h : 0 < other.count)
    (hsub : ∀ q, other.Holds q → r.Holds q) : r.Covers other := by
  have hlo := hsub other.base (holds_base h)
  have hhi := hsub (other.base + other.count - 1) ⟨by omega, by omega⟩
  simp only [Holds] at hlo hhi
  exact ⟨hlo.1, by omega⟩

theorem Bounded.of_holds {r : QueueRange} (h : 0 < r.count)
    (hq : ∀ q, r.Holds q → q + 1 < wordLimit) : r.Bounded := by
  have := hq (r.base + r.count - 1) ⟨by omega, by omega⟩
  unfold Bounded
  omega

/-- No id of the range is the last word. -/
theorem Bounded.lt {r : QueueRange} (h : r.Bounded) {q : Nat} (hq : r.Holds q) :
    q + 1 < wordLimit := by
  have := hq.2
  unfold Bounded at h
  omega

theorem Bounded.mono {r other : QueueRange} (h : r.Bounded) (hc : r.Covers other) :
    other.Bounded :=
  Nat.lt_of_le_of_lt hc.2 h

/-! ## The tests -/

theorem stop_eq {r : QueueRange} (h : r.Bounded) : r.stop = .ok (r.base + r.count) :=
  Checked.add_eq h

theorem contains_eq {r : QueueRange} (h : r.Bounded) (q : Nat) :
    r.contains q = .ok (decide (r.Holds q)) := by
  unfold contains Holds
  rw [stop_eq h]
  by_cases hq : r.base ≤ q <;> simp [hq]

theorem covers_eq {r other : QueueRange} (h : r.Bounded) (ho : other.Bounded) :
    r.covers other = .ok (decide (r.Covers other)) := by
  unfold covers Covers
  rw [stop_eq h, stop_eq ho]
  by_cases hb : r.base ≤ other.base <;> simp [hb]

theorem overlaps_eq {r other : QueueRange} (h : r.Bounded) (ho : other.Bounded) :
    r.overlaps other =
      .ok (decide (r.base < other.base + other.count ∧ other.base < r.base + r.count)) := by
  unfold overlaps
  rw [stop_eq h, stop_eq ho]
  by_cases hb : r.base < other.base + other.count <;> simp [hb]

/-! ## Lists of ranges -/

/-- The id lies in one of the ranges. -/
def AnyHolds (rs : List QueueRange) (q : Nat) : Prop :=
  ∃ r ∈ rs, r.Holds q

@[simp] theorem anyHolds_nil (q : Nat) : ¬ AnyHolds [] q := by
  rintro ⟨r, hr, -⟩; cases hr

@[simp] theorem anyHolds_cons (r : QueueRange) (rs : List QueueRange) (q : Nat) :
    AnyHolds (r :: rs) q ↔ r.Holds q ∨ AnyHolds rs q := by
  simp [AnyHolds]

@[simp] theorem anyHolds_append (rs ss : List QueueRange) (q : Nat) :
    AnyHolds (rs ++ ss) q ↔ AnyHolds rs q ∨ AnyHolds ss q := by
  simp [AnyHolds, or_and_right, exists_or]

theorem anyHolds_of_mem {rs : List QueueRange} {r : QueueRange} {q : Nat} (hr : r ∈ rs)
    (h : r.Holds q) : AnyHolds rs q :=
  ⟨r, hr, h⟩

end DmaQueues.QueueRange
