import DmaQueues.Proofs.Queue.Contexts
import DmaQueues.Proofs.Queue.Desk

/-!
# Cells that change

Whatever becomes of its commands, and even if it ends in a fault, an access changes no cell
but its own (`Access.Confined`). So a manager that sets the range of its function changes the
map of the function, one that starts a queue changes contexts of a queue that lies in the
range, and one that stops queues changes contexts of queues that are in its table.
-/

namespace DmaQueues

namespace Access

variable {α β ε : Type} {a : Access} {s : Selector} {q : UInt16} {S : Selector → Prop}
  {C C' : Selector → UInt16 → Prop}

/-- Only cells in `C` change. -/
def Confined (a : Access) (C : Selector → UInt16 → Prop) (p : Script α) : Prop :=
  ∀ card s q, ¬ C s q →
    a.cells (p.run (Card.backend a.variant.window) card).2 s q = a.cells card s q

/-- The cells of the selectors in `S` stay as they are. -/
def Spares (a : Access) (S : Selector → Prop) (p : Script α) : Prop :=
  ∀ card, p.Leads (Card.backend a.variant.window) card fun _ card' =>
    ∀ s, S s → a.cells card' s = a.cells card s

theorem Confined.mono {p : Script α} (h : a.Confined C p) (hC : ∀ s q, C s q → C' s q) :
    a.Confined C' p :=
  fun card s q hn => h card s q fun hc => hn (hC s q hc)

theorem Confined.spares {p : Script α} (h : a.Confined C p) (hS : ∀ s q, S s → ¬ C s q) :
    a.Spares S p := by
  intro card r card' hr s hs
  funext q
  have hcell := h card s q (hS s q hs)
  rw [hr] at hcell
  exact hcell

/-- Only the values that `p` ends in are passed on. -/
theorem Confined.bind_ends {p : Script α} {f : α → Script β} {P : α → Prop}
    (h : a.Confined C p) (hp : p.Ends P) (hf : ∀ v, P v → a.Confined C (f v)) :
    a.Confined C (p >>= f) := by
  intro card s q hn
  have hfirst := h card s q hn
  rw [Script.run_bind]
  split
  · next v card' hr =>
    rw [hr] at hfirst
    exact (hf v (hp.of_run hr) card' s q hn).trans hfirst
  · next e card' hr =>
    rw [hr] at hfirst
    exact hfirst

theorem Confined.bind {p : Script α} {f : α → Script β} (h : a.Confined C p)
    (hf : ∀ v, a.Confined C (f v)) : a.Confined C (p >>= f) :=
  h.bind_ends (Script.ends_true p) fun v _ => hf v

theorem confined_offline {p : Script α} (h : p.Offline) : a.Confined C p :=
  fun _ _ _ _ => by rw [Card.run_offline h]

theorem confined_pure (v : α) : a.Confined C (pure v) :=
  confined_offline trivial

theorem Confined.action {op : Action ε α} {f : α → Action ε β} (h : a.Confined C op.run)
    (hf : ∀ v, a.Confined C (f v).run) : a.Confined C (op >>= f).run := by
  rw [Script.run_action_bind]
  refine h.bind fun r => ?_
  cases r with
  | ok v => exact hf v
  | error e => exact confined_pure _

theorem Confined.lift {op : Action AccessError α} (h : a.Confined C op.run) :
    a.Confined C (Device.lift op).run := by
  rw [Device.lift_run]
  exact h.bind fun _ => confined_pure _

theorem Confined.forM {g : α → Action ε Unit} {items : List α}
    (h : ∀ x ∈ items, a.Confined C (g x).run) : a.Confined C (items.forM g).run := by
  induction items with
  | nil => exact confined_pure _
  | cons x rest ih =>
    exact (h x List.mem_cons_self).action fun _ => ih fun y hy => h y (List.mem_cons_of_mem _ hy)

theorem confined_of_fault {p : Script α} (h : ∃ f, p = .halt f) : a.Confined C p := by
  obtain ⟨f, rfl⟩ := h
  exact confined_offline trivial

/-- An access of a cell in `C`. -/
theorem confined_of_effect {op : Action AccessError α} (hC : C s q)
    (h : ∀ card, ∃ words v, a.Effect op card s q ((a.cells card).store s q words) v) :
    a.Confined C op.run := by
  intro card s' q' hn
  obtain ⟨words, v, r, card', hr, ho⟩ := h card
  rw [hr]
  rcases ho.before_or_stored with hcells | hcells
  · rw [hcells]
  · rw [hcells]
    exact Cells.store_other fun hkey => hn (hkey.1 ▸ hkey.2 ▸ hC)

/-- An access that stores nothing. -/
theorem confined_of_read {op : Action AccessError α}
    (h : ∀ card, ∃ v, a.Effect op card s q (a.cells card) v) : a.Confined C op.run := by
  intro card s' q' _
  obtain ⟨v, r, card', hr, ho⟩ := h card
  rw [hr, ho.before_or_stored.elim id id]

theorem writeFunctionMap_fault {r : FunctionMap}
    (hr : ¬ (FunctionMap.layout a.family).Holds r) (q : UInt16) :
    ∃ f, (a.writeFunctionMap q r).run = .halt f := by
  have hl : (FunctionMap.layout a.family).Valid := RecordKind.layout_valid a.family .functionMap
  obtain ⟨e, -, -, he⟩ := Layout.encode_error hl.segment_fits hr
  unfold writeFunctionMap
  rw [he]
  exact ⟨_, rfl⟩

/-- The contexts of a queue. -/
def QueueCell (q : UInt16) (s : Selector) (q' : UInt16) : Prop :=
  queueContext s = true ∧ q' = q

/-- The map of a function. -/
def MapCell (functionId : UInt16) (s : Selector) (q : UInt16) : Prop :=
  s = .functionMap ∧ q = functionId

end Access

namespace Device

open Access

variable {d : Device} {s : Selector} {q : UInt16} {C : Selector → UInt16 → Prop}

/-- The function maps stay as they are. -/
def SparesMaps {α : Type} (d : Device) (p : Script α) : Prop :=
  d.access.Spares (· = .functionMap) p

/-- Only the function maps change. -/
def SparesContexts {α : Type} (d : Device) (p : Script α) : Prop :=
  d.access.Spares (· ≠ .functionMap) p

theorem ne_functionMap (hs : queueContext s = true) : ¬ s = .functionMap := by
  rintro rfl
  cases hs

/-! ## Starting and stopping -/

theorem clear_confined (d : Device) (hs : queueContext s = true) (hC : C s q) :
    d.access.Confined C (d.clear s q).run :=
  (confined_of_effect hC fun card =>
    ⟨_, _, clear_effect (supports_queueContext _ hs) card q⟩).lift

theorem invalidate_confined (d : Device) (hs : queueContext s = true) (q : UInt16) :
    d.access.Confined C (lift (d.access.invalidate s q)).run :=
  (confined_of_read fun card =>
    ⟨_, invalidate_effect (supports_queueContext _ hs) (isDirect_queueContext _ hs) card q⟩).lift

theorem writePacked_confined {R F : Type} [DecidableEq F] [Fields R F] {l : Layout F}
    (d : Device) (hl : l.Valid) (hw : l.words ≤ d.access.variant.window.words)
    (hs : queueContext s = true) (hC : C s q) (r : R) :
    d.access.Confined C (lift (d.access.writePacked l s q r)).run := by
  by_cases hr : l.Holds r
  · exact (confined_of_effect hC fun card =>
      ⟨_, _, writePacked_effect hl hw (isDirect_queueContext _ hs) hr card q⟩).lift
  · exact (confined_of_fault (writePacked_fault hl hr s q)).lift

theorem writeSoftware_confined (d : Device) {dir : Direction} (hC : C (.software dir) q)
    (r : SoftwareContext) :
    d.access.Confined C (lift (d.access.writeSoftware dir q r)).run :=
  writePacked_confined d (RecordKind.layout_valid d.access.family .software)
    (RecordKind.layout_words_le .software d.access.variant) (queueContext_descriptor dir).1 hC r

theorem writePrefetch_confined (d : Device) (hC : C .prefetch q) (r : PrefetchContext) :
    d.access.Confined C (lift (d.access.writePrefetch q r)).run :=
  writePacked_confined d (RecordKind.layout_valid d.access.family .prefetch)
    (RecordKind.layout_words_le .prefetch d.access.variant) rfl hC r

/-- A record that is not valid is refused before it is packed. -/
theorem writeCompletion_confined (d : Device) (hC : C .completion q) (r : CompletionContext) :
    d.access.Confined C (lift (d.access.writeCompletion q r)).run := by
  by_cases hmode : r.triggerMode.toNat ≤ TriggerMode.maxCode
  · rw [writeCompletion_eq hmode]
    exact writePacked_confined d (RecordKind.layout_valid d.access.family .completion)
      (RecordKind.layout_words_le .completion d.access.variant) rfl hC r
  · refine (confined_offline ?_).lift
    unfold writeCompletion CompletionContext.encodeValid CompletionContext.validate
    rw [if_pos (by omega)]
    trivial

theorem programDescriptor_confined (d : Device) (q : UInt16) (dir : Direction)
    (software : SoftwareContext) (stream : Option (CompletionContext × PrefetchContext)) :
    d.access.Confined (QueueCell q) (d.programDescriptor q dir software stream).run := by
  obtain ⟨hsoftware, hhardware, hcredit⟩ := queueContext_descriptor dir
  have hwrite := writeSoftware_confined (C := QueueCell q) d ⟨hsoftware, rfl⟩ software
  unfold programDescriptor
  refine (clear_confined d hsoftware ⟨hsoftware, rfl⟩).action fun _ => ?_
  refine (clear_confined d hhardware ⟨hhardware, rfl⟩).action fun _ => ?_
  refine (clear_confined d hcredit ⟨hcredit, rfl⟩).action fun _ => ?_
  cases stream with
  | none => exact hwrite
  | some stream =>
    obtain ⟨completion, prefetch⟩ := stream
    refine (clear_confined d rfl ⟨rfl, rfl⟩).action fun _ => ?_
    refine (clear_confined d rfl ⟨rfl, rfl⟩).action fun _ => ?_
    refine (writeCompletion_confined d ⟨rfl, rfl⟩ completion).action fun _ => ?_
    exact (writePrefetch_confined d ⟨rfl, rfl⟩ prefetch).action fun _ => hwrite

theorem Checks.confined {α β : Type} {op : Action QueueError α} {f : α → Action QueueError β}
    {ok : Bool} {v : α} (h : Checks op ok v) (hf : d.access.Confined C (f v).run) :
    d.access.Confined C (op >>= f).run := by
  rw [Script.run_action_bind]
  refine (confined_offline h.offline).bind_ends h.ends ?_
  rintro r rfl
  cases ok with
  | true => exact hf
  | false => exact confined_pure _

theorem launch_confined (d : Device) (q : UInt16) (type : QueueType) (c : QueueConfig) :
    d.access.Confined (QueueCell q) (d.launch q type c).run := by
  have hdescriptor : ∀ dir stream, d.access.Confined (QueueCell q)
      (d.programDescriptor q dir c.software stream >>=
        fun _ => liftM (Script.notice (.queueStarted q type))).run := fun dir stream =>
    (programDescriptor_confined d q dir c.software stream).action fun _ => confined_offline trivial
  unfold launch startDescriptor
  cases type with
  | h2c => exact (softwareContext_checks d c).confined (hdescriptor .h2c none)
  | c2h =>
    refine (softwareContext_checks d c).confined ?_
    cases c.memoryMapped with
    | true => exact hdescriptor .c2h none
    | false => exact (completionContext_checks d c true).confined (hdescriptor .c2h _)
  | cmpt =>
    refine (completionContext_checks d c false).confined ?_
    exact (clear_confined d rfl ⟨rfl, rfl⟩).action fun _ => writeCompletion_confined d ⟨rfl, rfl⟩ _

theorem startQueue_confined (d : Device) (q : UInt16) (type : QueueType) (c : QueueConfig) :
    d.access.Confined (QueueCell q) (d.startQueue q type c).run := by
  rw [startQueue_run]
  refine (launch_confined d q type c).bind fun r => confined_offline ?_
  cases r <;> trivial

theorem stopQueue_confined (d : Device) (q : UInt16) (type : QueueType) (memoryMapped : Bool) :
    d.access.Confined (QueueCell q) (d.stopQueue q type memoryMapped).run := by
  have howned := queueContext_owned type memoryMapped
  unfold stopQueue
  refine (Confined.forM fun s hs => invalidate_confined d (howned s hs) q).action fun _ => ?_
  refine (Confined.forM fun s hs => clear_confined d (howned s hs) ⟨howned s hs, rfl⟩).action
    fun _ => ?_
  exact confined_offline trivial

/-! ## Function maps -/

theorem setFunctionMap_confined (d : Device) (functionId base count : UInt16) :
    d.access.Confined (MapCell functionId) (d.setFunctionMap functionId base count).run := by
  have hwrite : d.access.Confined (MapCell functionId)
      (lift (d.access.writeFunctionMap functionId { base, count })).run := by
    by_cases hr : (FunctionMap.layout d.access.family).Holds ({ base, count } : FunctionMap)
    · exact (confined_of_effect ⟨rfl, rfl⟩ fun card =>
        ⟨_, _, writeFunctionMap_effect hr card functionId⟩).lift
    · exact (confined_of_fault (writeFunctionMap_fault hr functionId)).lift
  unfold setFunctionMap
  refine (checkFits_checks _ _ _).confined ((checkFits_checks _ _ _).confined ?_)
  exact hwrite.action fun _ => confined_offline trivial

end Device

namespace Desk

open Access

variable {α : Type} {d : Device}

/-! ## Managers -/

theorem offline_change (desk : Desk) (reply : Checked (Reply Registry ResourceError α)) :
    (desk.change reply).Offline := by
  show (Script.ofChecked reply >>= fun reply => Script.notices reply.notices >>= fun _ =>
    pure ({ desk with registry := reply.state }, reply.result)).Offline
  exact (Script.offline_ofChecked reply).bind fun _ =>
    (Script.offline_notices _).bind fun _ => trivial

theorem offline_update (desk : Desk) (count : Nat) (hint : Option Nat) :
    (desk.update count hint).Offline :=
  offline_change _ _

theorem offline_dropActive (desk : Desk) (qid : UInt16) (type : QueueType) :
    (desk.dropActive qid type).Offline := by
  refine (offline_change _ _).bind ?_
  rintro ⟨desk', result⟩
  cases result <;> trivial

theorem offline_restore (desk : Desk) (before : Option QueueRange) :
    (desk.restore before).Offline := by
  have hback : (desk.askBack before).Offline := by
    cases before <;> exact offline_update _ _ _
  rw [restore_eq]
  refine hback.bind ?_
  rintro ⟨desk', result⟩
  cases result with
  | error error => trivial
  | ok now =>
    unfold settle
    by_cases hnow : now = before
    · simp only [if_pos hnow]
      trivial
    · simp only [if_neg hnow]
      trivial

theorem offline_checkRange (desk : Desk) (hwQid : Nat) : (desk.checkRange hwQid).run.Offline := by
  rw [checkRange_run]
  refine (Script.offline_ofChecked _).bind fun inside => ?_
  cases inside <;> trivial

theorem programMap_confined (d : Device) (functionId : UInt16) (range : Option QueueRange) :
    d.access.Confined (MapCell functionId) (programMap d functionId range).run := by
  unfold programMap
  cases range with
  | none => exact d.setFunctionMap_confined functionId 0 0
  | some r =>
    by_cases hr : r.base < UInt16.size ∧ r.count < UInt16.size
    · simp only [if_pos hr]
      exact d.setFunctionMap_confined functionId _ _
    · simp only [if_neg hr]
      exact confined_offline trivial

/-- The map that is set is that of the function. -/
theorem setRange_confined (d : Device) (desk : Desk) (count : Nat) (hint : Option Nat) :
    d.access.Confined (MapCell desk.manager.functionId) (desk.setRange d count hint) := by
  have hmanager : (desk.update count hint).Ends fun out => out.1.manager = desk.manager :=
    ends_change fun _ _ => rfl
  unfold setRange
  cases desk.range with
  | error error => exact confined_pure _
  | ok before =>
    refine (confined_offline (offline_update _ _ _)).bind_ends hmanager ?_
    rintro ⟨⟨registry, manager⟩, result⟩ hsame
    obtain rfl : manager = desk.manager := hsame
    cases result with
    | error error => exact confined_pure _
    | ok range =>
      refine (programMap_confined d _ range).bind fun mapped => ?_
      cases mapped with
      | ok _ => exact confined_pure _
      | error error =>
        exact (confined_offline (offline_restore _ _)).bind fun _ => confined_pure _

theorem setRange_sparesContexts (d : Device) (desk : Desk) (count : Nat) (hint : Option Nat) :
    d.SparesContexts (desk.setRange d count hint) :=
  (setRange_confined d desk count hint).spares fun _ _ hs hcell => hs hcell.1

theorem program_confined (d : Device) (desk : Desk) (qid : UInt16) (type : QueueType)
    (c : QueueConfig) : d.access.Confined (QueueCell qid) (desk.program d qid type c) := by
  unfold program
  refine (confined_offline (offline_change _ _)).bind ?_
  rintro ⟨desk', result⟩
  cases result with
  | error error => exact confined_pure _
  | ok _ =>
    refine (d.startQueue_confined qid type _).bind fun started => ?_
    cases started with
    | ok _ => exact confined_pure _
    | error error =>
      exact (confined_offline (offline_dropActive _ _ _)).bind fun _ => confined_pure _

/-- The queue that is started lies in the range of the function. -/
theorem start_confined (d : Device) (desk : Desk) (hwQid : Nat) (type : QueueType)
    (c : QueueConfig) :
    d.access.Confined (fun s q => queueContext s = true ∧
      desk.registry.contains desk.manager.group desk.manager.functionId q.toNat = .ok true)
      (desk.start d hwQid type c) := by
  unfold start
  refine (confined_offline (offline_checkRange _ _)).bind_ends (checkRange_ends desk hwQid) ?_
  intro checked hchecked
  cases checked with
  | error error => exact confined_pure _
  | ok qid =>
    obtain ⟨rfl, hinside⟩ := hchecked qid rfl
    by_cases htaken : (desk.manager.slots.any fun s => s.holds qid type) = true
    · simp only [if_pos htaken]
      exact confined_pure _
    · simp only [if_neg htaken]
      refine ((program_confined d _ qid type c).mono ?_).bind ?_
      · rintro s q ⟨hs, rfl⟩
        exact ⟨hs, hinside⟩
      · rintro ⟨desk', result⟩
        cases result <;> exact confined_pure _

/-- The queue that is stopped is in the table. -/
theorem stop_confined (d : Device) (desk : Desk) (hwQid : Nat) (type : QueueType) :
    d.access.Confined (fun s q => queueContext s = true ∧ q.toNat = hwQid ∧
      ∃ slot ∈ desk.manager.slots, slot.queue.qid = q) (desk.stop d hwQid type) := by
  unfold stop
  by_cases hlt : hwQid < UInt16.size
  · simp only [if_pos hlt]
    split
    · exact confined_pure _
    · next slot hfind =>
      refine ((d.stopQueue_confined _ _ _).mono ?_).bind fun _ =>
        (confined_offline (offline_dropActive _ _ _)).bind fun _ => confined_pure _
      rintro s q ⟨hs, rfl⟩
      have hholds := List.find?_some hfind
      simp only [Slot.holds, Bool.and_eq_true, beq_iff_eq] at hholds
      exact ⟨hs, UInt16.toNat_ofNat_of_lt' hlt, slot, List.mem_of_find?_eq_some hfind, hholds.2.1⟩
  · simp only [if_neg hlt]
    exact confined_pure _

theorem stopEach_confined (d : Device) (desk : Desk) (queues : List StartedQueue) :
    d.access.Confined (fun s q => queueContext s = true ∧ ∃ x ∈ queues, x.qid = q)
      (desk.stopEach d queues) := by
  induction queues generalizing desk with
  | nil => exact confined_pure _
  | cons x rest ih =>
    unfold stopEach
    refine ((stop_confined d desk _ _).mono ?_).bind ?_
    · rintro s q ⟨hs, hq, -⟩
      exact ⟨hs, x, List.mem_cons_self, (UInt16.toNat_inj.1 hq).symm⟩
    · rintro ⟨desk', first⟩
      refine ((ih desk').mono ?_).bind ?_
      · rintro s q ⟨hs, y, hy, hq⟩
        exact ⟨hs, y, List.mem_cons_of_mem _ hy, hq⟩
      · rintro ⟨desk'', later⟩
        cases first <;> exact confined_pure _

/-- The queues that are stopped are in the table. -/
theorem stopAll_confined (d : Device) (desk : Desk) :
    d.access.Confined (fun s q => queueContext s = true ∧
      ∃ slot ∈ desk.manager.slots, slot.queue.qid = q) (desk.stopAll d) := by
  refine (stopEach_confined d desk desk.manager.started).mono ?_
  rintro s q ⟨hs, x, hx, hq⟩
  obtain ⟨slot, hslot, rfl⟩ := List.mem_map.1 hx
  exact ⟨hs, slot, List.mem_of_mem_filter hslot, hq⟩

/-- Contexts of queues are not maps. -/
theorem sparesMaps_of_confined {p : Script α} {P : Selector → UInt16 → Prop}
    (h : d.access.Confined (fun s q => queueContext s = true ∧ P s q) p) : d.SparesMaps p :=
  h.spares fun _ _ hs hcell => Device.ne_functionMap hcell.1 hs

theorem start_sparesMaps (d : Device) (desk : Desk) (hwQid : Nat) (type : QueueType)
    (c : QueueConfig) : d.SparesMaps (desk.start d hwQid type c) :=
  sparesMaps_of_confined (start_confined d desk hwQid type c)

theorem stop_sparesMaps (d : Device) (desk : Desk) (hwQid : Nat) (type : QueueType) :
    d.SparesMaps (desk.stop d hwQid type) :=
  sparesMaps_of_confined (stop_confined d desk hwQid type)

theorem stopAll_sparesMaps (d : Device) (desk : Desk) : d.SparesMaps (desk.stopAll d) :=
  sparesMaps_of_confined (stopAll_confined d desk)

end Desk

end DmaQueues
