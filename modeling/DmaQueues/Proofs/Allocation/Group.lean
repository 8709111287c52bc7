import DmaQueues.Allocation.Group
import DmaQueues.Proofs.Allocation.FreeList
import Mathlib.Data.List.Nodup

/-!
# The invariant of a group

`Group.Valid` says that the free list and the ranges of the functions tile the queue
space, that no function has more active queues than its range holds, and that the
counters add up. The operations of a group change it in four ways (`attach`, `detach`,
`assign`, `recount`), each of which keeps `Valid`, and otherwise leave it alone.
-/

namespace DmaQueues

open QueueRange

/-! ## Functions -/

namespace ActiveCounts

def sum (c : ActiveCounts) : Nat :=
  c.h2c + c.c2h + c.cmpt

theorem total_eq {c : ActiveCounts} (h : c.sum < wordLimit) : c.total = .ok c.sum := by
  have hs : [c.h2c, c.c2h, c.cmpt].sum = c.sum := by simp [sum]; omega
  unfold total
  rw [Checked.sum_eq (by omega), hs]

theorem get_le_sum (c : ActiveCounts) (type : QueueType) : c.get type ≤ c.sum := by
  cases type <;> simp only [get, sum] <;> omega

@[simp] theorem get_set (c : ActiveCounts) (type other : QueueType) (n : Nat) :
    (c.set type n).get other = if other = type then n else c.get other := by
  cases type <;> cases other <;> rfl

@[simp] theorem set_set (c : ActiveCounts) (type : QueueType) (n m : Nat) :
    (c.set type n).set type m = c.set type m := by
  cases type <;> rfl

@[simp] theorem set_get (c : ActiveCounts) (type : QueueType) : c.set type (c.get type) = c := by
  cases type <;> rfl

theorem sum_set (c : ActiveCounts) (type : QueueType) (n : Nat) :
    (c.set type n).sum + c.get type = c.sum + n := by
  cases type <;> simp only [set, get, sum] <;> omega

theorem get_eq_zero {c : ActiveCounts} (h : c.sum = 0) (type : QueueType) : c.get type = 0 := by
  have := c.get_le_sum type
  omega

end ActiveCounts

namespace FunctionEntry

/-- The function holds a queue id. -/
def Holds (f : FunctionEntry) (q : Nat) : Prop :=
  ∃ r, f.range = some r ∧ r.Holds q

/-- Number of queues in the range of the function. -/
def size (f : FunctionEntry) : Nat :=
  match f.range with
  | some r => r.count
  | none => 0

/-- The entry with another count of active queues. -/
def recount (f : FunctionEntry) (type : QueueType) (n : Nat) : FunctionEntry :=
  { f with active := f.active.set type n }

@[simp] theorem recount_active (f : FunctionEntry) (type : QueueType) (n : Nat) :
    (f.recount type n).active = f.active.set type n := rfl

end FunctionEntry

namespace Group

/-! ## Looking up functions -/

theorem find?_eq_some {g : Group} {id : UInt16} {e : FunctionEntry} (h : g.find? id = some e) :
    e ∈ g.functions ∧ e.id = id :=
  ⟨List.mem_of_find?_eq_some h, by simpa using List.find?_some h⟩

theorem find?_eq_none {g : Group} {id : UInt16} (h : g.find? id = none) :
    ∀ f ∈ g.functions, f.id ≠ id := by
  simpa [find?] using h

/-- Entries with distinct ids are found by them. -/
theorem find?_of_mem {g : Group} (hn : (g.functions.map FunctionEntry.id).Nodup)
    {e : FunctionEntry} (he : e ∈ g.functions) : g.find? e.id = some e := by
  cases h : g.find? e.id with
  | none => exact absurd rfl (find?_eq_none h e he)
  | some f =>
    obtain ⟨hf, hid⟩ := find?_eq_some h
    rw [List.inj_on_of_nodup_map hn hf he hid]

theorem find?_modify (g : Group) {f : FunctionEntry → FunctionEntry} (hf : ∀ e, (f e).id = e.id)
    (id other : UInt16) :
    (g.modify id f).find? other =
      if other = id then (g.find? id).map f else g.find? other := by
  unfold find? modify
  induction g.functions with
  | nil => simp
  | cons e rest ih =>
    simp only [List.map_cons, List.find?_cons, ih]
    by_cases he : e.id = id
    · subst he
      by_cases ho : other = e.id
      · simp [ho, hf]
      · have hne : (e.id == other) = false := beq_false_of_ne (Ne.symm ho)
        simp [ho, hne, hf]
    · have hne : (e.id == id) = false := beq_false_of_ne he
      by_cases ho : other = id
      · simp [ho, he, hne]
      · simp [ho, he]

theorem mem_modify {g : Group} {id : UInt16} {f : FunctionEntry → FunctionEntry}
    {x : FunctionEntry} :
    x ∈ (g.modify id f).functions ↔
      (∃ e ∈ g.functions, e.id = id ∧ x = f e) ∨ (x ∈ g.functions ∧ x.id ≠ id) := by
  simp only [modify, List.mem_map]
  constructor
  · rintro ⟨e, he, rfl⟩
    by_cases hid : e.id = id
    · exact .inl ⟨e, he, hid, if_pos hid⟩
    · rw [if_neg hid]
      exact .inr ⟨he, hid⟩
  · rintro (⟨e, he, hid, rfl⟩ | ⟨hx, hid⟩)
    · exact ⟨e, he, if_pos hid⟩
    · exact ⟨x, hx, if_neg hid⟩

theorem map_id_modify (g : Group) {f : FunctionEntry → FunctionEntry}
    (hf : ∀ e, (f e).id = e.id) (id : UInt16) :
    (g.modify id f).functions.map FunctionEntry.id = g.functions.map FunctionEntry.id := by
  simp only [modify, List.map_map]
  refine List.map_congr_left fun e _ => ?_
  simp only [Function.comp_apply]
  split
  · exact hf e
  · rfl

/-! ## Changes -/

/-- The group with another function that holds nothing. -/
def attach (g : Group) (id : UInt16) : Group :=
  { g with functions := g.functions ++ [{ id }] }

/-- The group without a function, and with another free list. -/
def detach (g : Group) (id : UInt16) (free : FreeList) : Group :=
  { g with free, functions := g.functions.filter fun e => e.id != id }

/-- The group with another range of a function and another free list. -/
def assign (g : Group) (id : UInt16) (free : FreeList) (range : Option QueueRange) : Group :=
  { g with free }.setRange id range

/-- The group with another count of active queues, and `active` of them in all. -/
def recount (g : Group) (id : UInt16) (type : QueueType) (n active : Nat) : Group :=
  { g.modify id fun e => { e with active := e.active.set type n } with active }

@[simp] theorem assign_free (g : Group) (id : UInt16) (free : FreeList)
    (range : Option QueueRange) : (g.assign id free range).free = free := rfl

theorem mem_assign {g : Group} {id : UInt16} {free : FreeList} {range : Option QueueRange}
    {x : FunctionEntry} :
    x ∈ (g.assign id free range).functions ↔
      (∃ e ∈ g.functions, e.id = id ∧ x = { e with range }) ∨ (x ∈ g.functions ∧ x.id ≠ id) :=
  mem_modify (g := { g with free })

theorem mem_recount {g : Group} {id : UInt16} {type : QueueType} {n active : Nat}
    {x : FunctionEntry} :
    x ∈ (g.recount id type n active).functions ↔
      (∃ e ∈ g.functions, e.id = id ∧ x = { e with active := e.active.set type n }) ∨
        (x ∈ g.functions ∧ x.id ≠ id) :=
  mem_modify (g := g)

theorem mem_attach {g : Group} {id : UInt16} {x : FunctionEntry} :
    x ∈ (g.attach id).functions ↔ x ∈ g.functions ∨ x = { id } := by
  simp [attach]

theorem mem_detach {g : Group} {id : UInt16} {free : FreeList} {x : FunctionEntry} :
    x ∈ (g.detach id free).functions ↔ x ∈ g.functions ∧ x.id ≠ id := by
  simp [detach]

theorem find?_attach {g : Group} {id : UInt16} (h : g.find? id = none) (other : UInt16) :
    (g.attach id).find? other = if other = id then some { id } else g.find? other := by
  unfold find? attach at *
  simp only [List.find?_append, List.find?_singleton, beq_iff_eq]
  by_cases ho : other = id
  · subst ho; simp [h]
  · simp [ho, Ne.symm ho]

theorem find?_detach (g : Group) (id : UInt16) (free : FreeList) (other : UInt16) :
    (g.detach id free).find? other = if other = id then none else g.find? other := by
  unfold find? detach
  induction g.functions with
  | nil => simp
  | cons e rest ih =>
    by_cases he : e.id = id <;> by_cases ho : other = id <;> by_cases hoe : e.id = other <;>
      simp_all

theorem find?_assign (g : Group) (id : UInt16) (free : FreeList) (range : Option QueueRange)
    (other : UInt16) :
    (g.assign id free range).find? other =
      if other = id then (g.find? id).map fun e => { e with range } else g.find? other :=
  find?_modify { g with free } (f := fun e => { e with range }) (fun _ => rfl) id other

theorem find?_recount (g : Group) (id : UInt16) (type : QueueType) (n active : Nat)
    (other : UInt16) :
    (g.recount id type n active).find? other =
      if other = id then (g.find? id).map fun e => e.recount type n else g.find? other :=
  find?_modify g (f := fun e => e.recount type n) (fun _ => rfl) id other

end Group

end DmaQueues
