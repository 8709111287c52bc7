import DmaQueues.Proofs.Allocation.Entry
import DmaQueues.Queue.Manager
import Mathlib.Data.List.Perm.Basic

/-!
# Tables of started queues

`Agrees` relates the table of a manager to the entry of its function: the queues in it are
running, lie in the range of the function, differ in id or kind, and are what the entry
counts. One queue more or less in the table is one more or less in the count
(`tracked_cons`), in any place, since the order of a table does not matter.
-/

namespace DmaQueues

/-- What tells two queues of a function apart. -/
def Slot.key (s : Slot) : UInt16 × QueueType :=
  (s.queue.qid, s.queue.type)

theorem Slot.holds_iff {s : Slot} {qid : UInt16} {type : QueueType} :
    s.holds qid type = true ↔ s.key = (qid, type) := by
  simp [holds, key]

/-- Started queues of a kind. -/
def countType (slots : List Slot) (type : QueueType) : Nat :=
  slots.countP fun s => s.queue.type == type

/-- The table of a function that the registry knows. -/
structure Tracked (e : FunctionEntry) (slots : List Slot) : Prop where
  running : ∀ s ∈ slots, s.running = true
  distinct : (slots.map Slot.key).Nodup
  inRange : ∀ s ∈ slots, e.Holds s.queue.qid.toNat
  counted : ∀ type, countType slots type = e.active.get type

def Agrees : Option FunctionEntry → List Slot → Prop
  | some e, slots => Tracked e slots
  | none, slots => slots = []

section

variable {e : FunctionEntry} {slots rest : List Slot} {slot : Slot}

theorem Tracked.perm (h : Tracked e slots) (hp : slots.Perm rest) : Tracked e rest where
  running s hs := h.running s (hp.mem_iff.2 hs)
  distinct := (hp.map Slot.key).nodup_iff.1 h.distinct
  inRange s hs := h.inRange s (hp.mem_iff.2 hs)
  counted type := (hp.countP_eq _).symm.trans (h.counted type)

theorem countType_cons (slot : Slot) (rest : List Slot) (type : QueueType) :
    countType (slot :: rest) type =
      countType rest type + if type = slot.queue.type then 1 else 0 := by
  unfold countType
  rw [List.countP_cons]
  by_cases ht : type = slot.queue.type
  · simp [ht]
  · simp [ht, Ne.symm ht]

/-- A queue more in the table is a queue more in the count. -/
theorem tracked_cons :
    Tracked e (slot :: rest) ↔
      slot.running = true ∧ e.Holds slot.queue.qid.toNat ∧ slot.key ∉ rest.map Slot.key ∧
        0 < e.active.get slot.queue.type ∧
        Tracked (e.recount slot.queue.type (e.active.get slot.queue.type - 1)) rest := by
  constructor
  · intro h
    have hcount := h.counted slot.queue.type
    rw [countType_cons, if_pos rfl] at hcount
    have hnodup := List.nodup_cons.1 h.distinct
    refine ⟨h.running slot List.mem_cons_self, h.inRange slot List.mem_cons_self, hnodup.1,
      by omega, ?_⟩
    refine ⟨fun s hs => h.running s (List.mem_cons_of_mem _ hs), hnodup.2,
      fun s hs => h.inRange s (List.mem_cons_of_mem _ hs), fun type => ?_⟩
    have htype := h.counted type
    rw [countType_cons] at htype
    rw [FunctionEntry.recount_active, ActiveCounts.get_set]
    by_cases ht : type = slot.queue.type
    · rw [if_pos ht] at htype ⊢
      rw [ht] at htype ⊢
      omega
    · rw [if_neg ht] at htype ⊢
      omega
  · rintro ⟨hrun, hrange, hkey, hpos, h⟩
    refine ⟨?_, List.nodup_cons.2 ⟨hkey, h.distinct⟩, ?_, fun type => ?_⟩
    · intro s hs
      rcases List.mem_cons.1 hs with rfl | hs
      · exact hrun
      · exact h.running s hs
    · intro s hs
      rcases List.mem_cons.1 hs with rfl | hs
      · exact hrange
      · exact h.inRange s hs
    · have htype := h.counted type
      rw [FunctionEntry.recount_active, ActiveCounts.get_set] at htype
      rw [countType_cons]
      by_cases ht : type = slot.queue.type
      · rw [if_pos ht] at htype ⊢
        rw [ht] at htype ⊢
        omega
      · rw [if_neg ht] at htype ⊢
        omega

theorem countType_eq_zero (h : ∀ type, countType slots type = 0) : slots = [] := by
  cases slots with
  | nil => rfl
  | cons slot rest =>
    have hzero := h slot.queue.type
    rw [countType_cons, if_pos rfl] at hzero
    omega

theorem Agrees.eq_nil {entry : Option FunctionEntry} (h : Agrees entry slots)
    (hidle : Idle entry) : slots = [] := by
  cases entry with
  | none => exact h
  | some e =>
    exact countType_eq_zero fun type =>
      (Tracked.counted h type).trans (ActiveCounts.get_eq_zero hidle type)

theorem agrees_nil {entry : Option FunctionEntry} (hidle : Idle entry) : Agrees entry [] := by
  cases entry with
  | none => rfl
  | some e =>
    refine ⟨nofun, .nil, nofun, fun type => ?_⟩
    exact (ActiveCounts.get_eq_zero hidle type).symm

theorem Agrees.quiet {entry entry' : Option FunctionEntry} (h : Agrees entry slots)
    (hq : Quiet entry entry') : Agrees entry' slots := by
  rcases hq with rfl | ⟨hidle, hidle'⟩
  · exact h
  · rw [h.eq_nil hidle]
    exact agrees_nil hidle'

end

/-! ## Changes of a table -/

namespace Manager

theorem dropLast_set_perm {α : Type} (as : List α) (hne : as ≠ []) {i : Nat}
    (hi : i < as.length) : ((as.set i (as.getLast hne)).dropLast).Perm (as.eraseIdx i) := by
  induction as generalizing i with
  | nil => exact absurd rfl hne
  | cons a rest ih =>
    cases rest with
    | nil =>
      obtain rfl : i = 0 := by simpa using hi
      rfl
    | cons b tail =>
      have hrest : b :: tail ≠ [] := by simp
      rw [List.getLast_cons hrest]
      cases i with
      | zero =>
        have hlast := List.dropLast_concat_getLast hrest
        have hperm := List.perm_append_singleton ((b :: tail).getLast hrest) (b :: tail).dropLast
        rw [hlast] at hperm
        exact hperm.symm
      | succ k =>
        have hk : k < (b :: tail).length := by simpa using hi
        have hset : (b :: tail).set k ((b :: tail).getLast hrest) ≠ [] := by simp
        rw [List.set_cons_succ, List.dropLast_cons_of_ne_nil hset, List.eraseIdx_cons_succ]
        exact (ih hrest hk).cons a

/-- The order of the other slots is all that changes besides. -/
theorem swapRemove_perm {slots : List Slot} {i : Nat} (hi : i < slots.length) :
    slots.Perm (slots[i] :: swapRemove slots i) := by
  have hne : slots ≠ [] := List.ne_nil_of_length_pos (by omega)
  have hswap : swapRemove slots i = (slots.set i (slots.getLast hne)).dropLast := by
    unfold swapRemove
    rw [List.getLast?_eq_some_getLast hne]
  rw [hswap]
  exact (List.getElem_cons_eraseIdx_perm hi).symm.trans
    ((dropLast_set_perm slots hne hi).symm.cons _)

theorem swapRemove_map (slots : List Slot) (f : Slot → Slot) (i : Nat) :
    swapRemove (slots.map f) i = (swapRemove slots i).map f := by
  unfold swapRemove
  rw [List.getLast?_map]
  cases slots.getLast? with
  | none => rfl
  | some last => simp [List.map_dropLast, List.map_set]

/-- The last slot is removed without a swap. -/
theorem swapRemove_append (slots : List Slot) (slot : Slot) :
    swapRemove (slots ++ [slot]) slots.length = slots := by
  simp [swapRemove]

variable {m : Manager} {qid : UInt16} {type : QueueType}

@[simp] theorem release_group (m : Manager) (qid : UInt16) (type : QueueType) :
    (m.release qid type).group = m.group := by
  unfold release
  split <;> rfl

@[simp] theorem release_functionId (m : Manager) (qid : UInt16) (type : QueueType) :
    (m.release qid type).functionId = m.functionId := by
  unfold release
  split <;> rfl

@[simp] theorem mark_group (m : Manager) (qid : UInt16) (type : QueueType) (running : Bool) :
    (m.mark qid type running).group = m.group := rfl

@[simp] theorem mark_functionId (m : Manager) (qid : UInt16) (type : QueueType) (running : Bool) :
    (m.mark qid type running).functionId = m.functionId := rfl

theorem mark_eq_self (h : ∀ s ∈ m.slots, ¬ s.holds qid type) (running : Bool) :
    m.mark qid type running = m := by
  have hslots : (m.slots.map fun s => if s.holds qid type then { s with running } else s) =
      m.slots := by
    refine (List.map_congr_left fun s hs => ?_).trans (List.map_id _)
    rw [if_neg (h s hs)]
    rfl
  unfold mark
  rw [hslots]

/-- A slot that was taken and is given back. -/
theorem release_push {slot : Slot} (h : ∀ s ∈ m.slots, ¬ s.holds qid type)
    (hs : slot.holds qid type = true) :
    ({ m with slots := m.slots ++ [slot] } : Manager).release qid type = m := by
  have hnone : m.slots.findIdx? (fun s => s.holds qid type) = none :=
    List.findIdx?_eq_none_iff.2 fun s hm => by simpa using h s hm
  have hidx : (m.slots ++ [slot]).findIdx? (fun s => s.holds qid type) = some m.slots.length := by
    rw [List.findIdx?_append, hnone]
    simp [hs]
  unfold release
  simp only [hidx, swapRemove_append]

/-- A slot that was taken and is marked. -/
theorem mark_push {slot : Slot} (h : ∀ s ∈ m.slots, ¬ s.holds qid type)
    (hs : slot.holds qid type = true) (running : Bool) :
    ({ m with slots := m.slots ++ [slot] } : Manager).mark qid type running =
      { m with slots := m.slots ++ [{ slot with running }] } := by
  have hself := congrArg Manager.slots (mark_eq_self h running)
  simp only [mark] at hself
  simp only [mark, List.map_append, hself, List.map_cons, List.map_nil, hs, if_true]

theorem release_mark (m : Manager) (qid : UInt16) (type : QueueType) (running : Bool) :
    (m.mark qid type running).release qid type = (m.release qid type).mark qid type running := by
  have hholds : ((fun s => s.holds qid type) ∘ fun s : Slot =>
      if s.holds qid type then { s with running } else s) = fun s => s.holds qid type := by
    funext s
    by_cases hs : s.holds qid type
    · simp only [Function.comp_apply, if_pos hs]
      rfl
    · simp only [Function.comp_apply, if_neg hs]
  unfold release mark
  simp only [List.findIdx?_map, hholds]
  cases m.slots.findIdx? fun s => s.holds qid type with
  | none => rfl
  | some i => simp only [swapRemove_map]

theorem release_perm (h : ∃ s ∈ m.slots, s.holds qid type = true) :
    ∃ slot, slot.holds qid type = true ∧ m.slots.Perm (slot :: (m.release qid type).slots) := by
  cases hidx : m.slots.findIdx? fun s => s.holds qid type with
  | none =>
    obtain ⟨s, hs, hh⟩ := h
    have hn := List.findIdx?_eq_none_iff.1 hidx s hs
    rw [hn] at hh
    cases hh
  | some i =>
    obtain ⟨hi, hh, -⟩ := List.findIdx?_eq_some_iff_getElem.1 hidx
    refine ⟨m.slots[i], hh, ?_⟩
    unfold release
    simp only [hidx]
    exact swapRemove_perm hi

/-- The slot of a queue that is stopping is the only one to go. -/
theorem stopped_perm (hn : (m.slots.map Slot.key).Nodup) {slot : Slot} (hs : slot ∈ m.slots)
    (hh : slot.holds qid type = true) :
    m.slots.Perm (slot :: ((m.mark qid type false).release qid type).slots) := by
  obtain ⟨slot', hh', hp⟩ := release_perm ⟨slot, hs, hh⟩
  have hn' := List.nodup_cons.1 ((hp.map Slot.key).nodup_iff.1 hn)
  have hkey' := Slot.holds_iff.1 hh'
  have hrest : ∀ s ∈ (m.release qid type).slots, ¬ s.holds qid type := by
    intro s hm hheld
    have hks := Slot.holds_iff.1 hheld
    exact hn'.1 (List.mem_map.2 ⟨s, hm, hks.trans hkey'.symm⟩)
  have hsame : slot = slot' := by
    rcases List.mem_cons.1 (hp.mem_iff.1 hs) with heq | hm
    · exact heq
    · exact absurd hh (hrest slot hm)
  rw [release_mark, mark_eq_self hrest, hsame]
  exact hp

end Manager

end DmaQueues
