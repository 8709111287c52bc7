import DmaQueues.Proofs.Access.Rejection
import DmaQueues.Proofs.Engine.Writes
import DmaQueues.Proofs.Log

/-!
# What a request writes

A request writes nothing or makes one update, which is a burst of the window or one function
map register (`Variant.Update`). This holds of every branch, also of those that end in a
fault. The function map registers of a variant lie below its window.
-/

namespace DmaQueues

namespace Window

variable {w : Window} {o : UInt32}

/-- The data words come first. -/
theorem Valid.data_le (hv : w.Valid) (ho : o ∈ w.registers) : w.data.toNat ≤ o.toNat := by
  have hdata := hv.data
  have hmask := hv.mask
  have hcommand := w.command.toNat_lt
  have hblock : ∀ {offset : UInt32}, w.data.toNat ≤ offset.toNat →
      offset.toNat + 4 * w.words ≤ w.command.toNat → o ∈ block offset w.words →
      w.data.toNat ≤ o.toNat := by
    intro offset hle hend hmem
    obtain ⟨i, hi, rfl⟩ := List.mem_map.1 hmem
    have hlt := List.mem_range.1 hi
    rw [Card.toNat_offset offset (by omega)]
    omega
  unfold registers at ho
  rcases List.mem_append.1 ho with hwords | hlast
  · rcases List.mem_append.1 hwords with hword | hword
    · exact hblock (Nat.le_refl _) (by omega) hword
    · exact hblock (by omega) hmask hword
  · rw [List.mem_singleton.1 hlast]
    omega

end Window

namespace Variant

variable {v : Variant}

/-- The registers that a variant may be written to. -/
def Writable (v : Variant) (o : UInt32) : Prop :=
  o ∈ v.window.registers ∨ v = .versalHard ∧ ∃ f < 256, o.toNat = 0x400 + 4 * f

/-- What one access writes. -/
inductive Update (v : Variant) : WriteLog → Prop where
  | burst {writes : WriteLog} (h : v.window.Burst writes) : Update v writes
  | functionMap {o value : UInt32} (hv : v = .versalHard)
    (ho : ∃ f < 256, o.toNat = 0x400 + 4 * f) : Update v [(o, value)]

theorem Update.writable {writes : WriteLog} (h : v.Update writes) :
    ∀ access ∈ writes, v.Writable access.1 := by
  cases h with
  | burst h => exact fun access haccess => .inl (h.registers access haccess)
  | functionMap hv ho =>
    intro access haccess
    rw [List.mem_singleton.1 haccess]
    exact .inr ⟨hv, ho⟩

theorem window_above_maps (v : Variant) {o : UInt32} (ho : o ∈ v.window.registers) {f : Nat}
    (hf : f < 256) : o.toNat ≠ 0x400 + 4 * f := by
  have hmaps : 0x400 + 4 * 256 ≤ v.window.data.toNat := v.window_valid.maps
  have hle := v.window_valid.data_le ho
  omega

end Variant

namespace Script

variable {α β : Type} {v : Variant} {p : Script α}

/-- Nothing is written, or one update. -/
def UpdatesOnce (v : Variant) (p : Script α) : Prop :=
  p.Logs fun _ t => t.writes = [] ∨ v.Update t.writes

theorem Offline.updatesOnce (h : p.Offline) : p.UpdatesOnce v :=
  h.logs_writes.mono fun _ _ ht => .inl ht

theorem Gives.updatesOnce
    (h : p.Gives fun _ t => t.writes = [] ∨ v.window.Burst t.writes) : p.UpdatesOnce v := by
  refine h.logs.mono ?_
  rintro _ t ⟨a, rfl, hwrites⟩
  exact hwrites.imp_right .burst

theorem UpdatesOnce.after {check : Script α} {f : α → Script β} (h : check.Offline)
    (hf : ∀ a, (f a).UpdatesOnce v) : (check >>= f).UpdatesOnce v :=
  h.logs_writes.after (P := fun writes => writes = [] ∨ v.Update writes) (.inl rfl) hf

theorem UpdatesOnce.andReturn {f : α → Script β} (h : p.UpdatesOnce v)
    (hf : ∀ a, (f a).Offline) : (p >>= f).UpdatesOnce v :=
  Logs.before (P := fun writes => writes = [] ∨ v.Update writes) h fun a => (hf a).logs_writes

end Script

namespace Access

variable {α : Type} {a : Access}

/-- The register of a function is written after its id was checked. -/
theorem checkedPut_updatesOnce (hd : a.variant.directFunctionMap = true) (q : UInt16)
    (value : UInt32) : (checkFunction q >>= fun _ =>
      liftM (Script.put (Register.functionMap q) value)).run.UpdatesOnce a.variant := by
  by_cases hq : q.toNat < Register.functionMapCount
  · have hcheck : checkFunction q = pure () := if_neg (by omega)
    have hv : a.variant = .versalHard := beq_iff_eq.1 hd
    rw [hcheck]
    exact .inr (.functionMap hv ⟨q.toNat, hq, Register.toNat_functionMap q⟩)
  · have hcheck : checkFunction q = throw .invalidParameter := if_pos (by omega)
    rw [hcheck]
    exact Script.Offline.updatesOnce trivial

theorem Shape.updatesOnce {op : Action AccessError α} (h : a.Shape op) :
    op.run.UpdatesOnce a.variant := by
  have hv := a.variant.window_valid
  induction h with
  | offline h => exact h.updatesOnce
  | write s q data =>
    exact Script.Gives.updatesOnce ⟨Engine.total_write hv s q data,
      (Engine.write_course hv s q data).mono fun _ _ ht => (ht.writes hv).imp_left And.right⟩
  | read s q length =>
    exact Script.Gives.updatesOnce ⟨Engine.total_read hv s q length,
      (Engine.read_course hv s q length).mono fun _ _ ht =>
        (Engine.Course.writes hv ht).imp_left And.right⟩
  | @simple c hc =>
    exact Script.Gives.updatesOnce ⟨(Engine.total_commandWord hv c).action fun word =>
        Engine.total_issue a.engine c word,
      (Engine.simple_course hv hc 0).mono fun _ _ ht => (ht.writes hv).imp_left And.right⟩
  | put hd q value => exact checkedPut_updatesOnce hd q value
  | get offset => exact fun _ => .inl rfl
  | after h hf ih =>
    rw [Script.run_action_bind]
    refine .after h fun r => ?_
    cases r with
    | ok x => exact ih x
    | error error => exact Script.Offline.updatesOnce trivial
  | map h f ih =>
    rw [← bind_pure_comp, Script.run_action_bind]
    refine ih.andReturn fun r => ?_
    cases r <;> trivial

theorem programRaw_updatesOnce (a : Access) (s : Selector) (operation : Operation) (q : UInt16)
    (data : List UInt32) : (a.programRaw s operation q data).UpdatesOnce a.variant := by
  refine .after (a.offline_checkSelector s) fun checked => ?_
  cases checked with
  | error error => exact Script.Offline.updatesOnce trivial
  | ok _ =>
    dsimp only
    split
    · exact Script.Offline.updatesOnce trivial
    · have hengine : (a.engine.perform ⟨⟨s, operation, q⟩, data⟩).UpdatesOnce a.variant :=
        Script.Gives.updatesOnce ⟨Engine.total_perform a.variant.window_valid _,
          (Engine.perform_course a.variant.window_valid _).mono fun _ _ ht =>
            (ht.1.writes a.variant.window_valid).imp_left And.right⟩
      cases operation <;> exact hengine

theorem perform_updatesOnce (a : Access) (request : Request) :
    (a.perform request).UpdatesOnce a.variant := by
  rcases a.perform_shape request with ⟨op, hop, hperform, -⟩ | ⟨s, operation, q, data, rfl⟩
  · rw [hperform]
    exact hop.updatesOnce.andReturn fun _ => trivial
  · exact (a.programRaw_updatesOnce s operation q data).andReturn fun _ => trivial

end Access

end DmaQueues
