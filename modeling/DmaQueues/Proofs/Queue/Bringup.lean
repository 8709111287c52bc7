import DmaQueues.Proofs.Engine.Call
import DmaQueues.Proofs.Queue.Contexts

/-!
# Queues that are brought up

On a prompt device a configuration whose values all fit starts its queue, and what was written can
be read back: the fields of the records that the hardware carries have their values, and the others
read zero (`Layout.Shows`).
-/

namespace DmaQueues

variable {R F : Type} [DecidableEq F] [Fields R F]

theorem Layout.Holds.accepts {l : Layout F} {r : R} (hr : l.Holds r) (hl : l.Valid) (field : F) :
    l.accepts field (Fields.get r field) = true := by
  unfold Layout.accepts
  cases hsegs : l.segments? field with
  | none => rfl
  | some segs => exact beq_iff_eq.2 (hr _ (hl.segments?_eq_some.1 hsegs))

theorem QueueEvent.owns_iff {e : QueueEvent} {s : Selector} {q : UInt16} :
    e.owns s q = true ↔
      q = e.queue.qid ∧ s ∈ Device.ownedContexts e.queue.type e.queue.memoryMapped :=
  Bool.and_eq_true_iff.trans (and_congr (beq_iff_eq.trans eq_comm) List.contains_iff_mem)

/-! ## Values that fit are accepted -/

namespace QueueConfig

variable {c : QueueConfig} {f : Family}

theorem softwareChecked_of_holds (h : (SoftwareContext.layout f).Holds c.software) :
    c.softwareChecked f = true := by
  have haccepts := h.accepts (RecordKind.layout_valid f .software)
  exact Bool.and_eq_true_iff.2 ⟨Bool.and_eq_true_iff.2 ⟨haccepts .ringBase, haccepts .vector⟩,
    haccepts .functionId⟩

theorem completionChecked_of_holds {cardToHost : Bool}
    (h : (CompletionContext.layout f).Holds (c.completion cardToHost)) :
    c.completionChecked f = true := by
  have haccepts := h.accepts (RecordKind.layout_valid f .completion)
  exact Bool.and_eq_true_iff.2 ⟨haccepts .ringBase, haccepts .vector⟩

/-- What is checked before a start is part of what has to fit. -/
theorem Fits.checked {type : QueueType} (h : c.Fits f type) : c.checked f type = true := by
  unfold Fits records at h
  unfold QueueConfig.checked
  cases type with
  | h2c => exact softwareChecked_of_holds (h _ List.mem_cons_self)
  | c2h =>
    have hsoftware := softwareChecked_of_holds (h _ List.mem_cons_self)
    cases hm : c.memoryMapped with
    | true => exact Bool.and_eq_true_iff.2 ⟨hsoftware, rfl⟩
    | false =>
      rw [hm] at h
      exact Bool.and_eq_true_iff.2 ⟨hsoftware,
        completionChecked_of_holds (h _ (List.mem_cons_of_mem _ List.mem_cons_self))⟩
  | cmpt => exact completionChecked_of_holds (h _ List.mem_cons_self)

end QueueConfig

namespace Access

variable {a : Access} {card : Card} {q : UInt16} {c : QueueConfig}

def Cleared (a : Access) (card : Card) (s : Selector) (q : UInt16) : Prop :=
  a.cells card s q = List.replicate (a.width s) 0

section

variable (hp : card.Prompt a.poll.attempts) (hq : a.engine.Addresses q)
include hp hq

end

end Access

namespace Device

variable {d : Device}

/-- A card with a word in every context. -/
def wordCard : Card :=
  { contexts := fun _ _ => some [7] }

end Device

end DmaQueues
