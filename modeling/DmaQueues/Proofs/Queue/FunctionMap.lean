import DmaQueues.Proofs.Allocation.Held
import DmaQueues.Proofs.Queue.Frame
import DmaQueues.Proofs.Queue.Site

/-!
# Function maps

A manager that sets the range of its function asks the registry first and the device second.
If the map cannot be set the registry is asked for the range that the function had before,
which it is given back (`Desk.update_met`). So on a device that loses commands, but executes
none late, the maps are the ranges of the registry after every act (`Site.Mapped`).
-/

namespace DmaQueues

/-- First queue and number of queues, zero for no range. -/
def QueueRange.boundsOf : Option QueueRange → Nat × Nat
  | some r => (r.base, r.count)
  | none => (0, 0)

namespace FunctionMap

def bounds (m : FunctionMap) : Nat × Nat :=
  (m.base.toNat, m.count.toNat)

/-- A hardware queue of the function. -/
def Holds (m : FunctionMap) (qid : Nat) : Prop :=
  m.base.toNat ≤ qid ∧ qid < m.base.toNat + m.count.toNat

theorem holds_of_bounds {m : FunctionMap} {range : Option QueueRange}
    (h : m.bounds = QueueRange.boundsOf range) {qid : Nat} (hq : m.Holds qid) :
    ∃ r, range = some r ∧ r.Holds qid := by
  obtain ⟨hbase, hcount⟩ := Prod.mk.inj h
  obtain ⟨hle, hlt⟩ := hq
  rw [hbase] at hle hlt
  rw [hcount] at hlt
  cases range with
  | none => exact absurd hlt (Nat.not_lt_zero _)
  | some r => exact ⟨r, rfl, hle, hlt⟩

/-- Every family carries both fields. -/
theorem trim_eq (f : Family) (m : FunctionMap) : (layout f).trim m = m := by
  have hcarried : ∀ field, (layout f).carries field = true := by
    intro field
    cases f <;> cases field <;> decide
  refine Eq.trans (congrArg Fields.ofValues (funext fun field => ?_)) (LawfulFields.ofValues_get m)
  exact if_pos (hcarried field)

end FunctionMap

namespace Access

variable {a : Access} {card card' : Card}

/-- The function maps as they are read back. -/
def maps (a : Access) (card : Card) (functionId : UInt16) : FunctionMap :=
  (FunctionMap.layout a.family).decode
    ((a.cells card .functionMap functionId).take (FunctionMap.layout a.family).words)

theorem maps_congr (h : a.cells card' .functionMap = a.cells card .functionMap) :
    a.maps card' = a.maps card := by
  unfold maps
  rw [h]

theorem maps_store {functionId : UInt16} {m : FunctionMap}
    (hm : (FunctionMap.layout a.family).Holds m)
    (h : a.cells card' = (a.cells card).store .functionMap functionId
      (a.image (FunctionMap.layout a.family) .functionMap m)) :
    a.maps card' = Function.update (a.maps card) functionId m := by
  have hl : (FunctionMap.layout a.family).Valid := RecordKind.layout_valid a.family .functionMap
  have hw : (FunctionMap.layout a.family).words ≤ a.width .functionMap :=
    words_le_width (k := .functionMap) rfl
  funext id
  unfold maps
  rw [h]
  by_cases hid : id = functionId
  · rw [hid, Function.update_self, Cells.store_self, decode_image hl hw hm, FunctionMap.trim_eq]
  · rw [Function.update_of_ne hid, Cells.store_other fun hkey => hid hkey.2]

end Access

namespace Device

variable {d : Device} {card : Card}

theorem writeFunctionMap_maps (hs : card.Settles d.access.poll.attempts) (functionId : UInt16)
    (m : FunctionMap) :
    (d.access.writeFunctionMap functionId m).run.Leads (Card.backend d.access.variant.window) card
      fun r card' =>
        match r with
        | .ok () => d.access.maps card' = Function.update (d.access.maps card) functionId m
        | .error _ => d.access.maps card' = d.access.maps card := by
  by_cases hm : (FunctionMap.layout d.access.family).Holds m
  · refine (Access.writeFunctionMap_effect hm card functionId).leads.mono fun r card' ho => ?_
    cases r with
    | ok _ => exact Access.maps_store hm ho.of_ok.2.2
    | error e => exact Access.maps_congr (congrFun (ho.of_settles hs) .functionMap)
  · obtain ⟨f, hf⟩ := Access.writeFunctionMap_fault hm functionId
    rw [hf]
    exact fun _ _ hr => by cases hr

/-- The map of a function is set, or all maps stay as they are. -/
theorem setFunctionMap_maps (hs : card.Settles d.access.poll.attempts)
    (functionId base count : UInt16) :
    (d.setFunctionMap functionId base count).run.Leads (Card.backend d.access.variant.window) card
      fun r card' =>
        match r with
        | .ok () =>
          d.access.maps card' = Function.update (d.access.maps card) functionId { base, count }
        | .error _ => d.access.maps card' = d.access.maps card := by
  unfold setFunctionMap
  refine (checkFits_checks _ _ _).leads
    ((checkFits_checks _ _ _).leads ?_ fun _ _ => rfl) fun _ _ => rfl
  have hwrite : (lift (d.access.writeFunctionMap functionId { base, count })).run.Leads
      (Card.backend d.access.variant.window) card fun r card' =>
        match r with
        | .ok () =>
          d.access.maps card' = Function.update (d.access.maps card) functionId { base, count }
        | .error _ => d.access.maps card' = d.access.maps card := by
    rw [lift_run]
    refine (writeFunctionMap_maps hs functionId { base, count }).bind fun r card' hr => ?_
    cases r <;> exact Script.leads_pure.2 hr
  refine hwrite.action (fun _ card' hr r card'' hn => ?_) fun e card' he => he
  cases hn
  exact hr

end Device

namespace Desk

variable {d : Device} {desk : Desk} {card : Card}

/-- The range of the function of the manager. -/
def held (desk : Desk) : Option QueueRange :=
  desk.registry.held desk.manager.group desk.manager.functionId

/-! ## Setting a range -/

theorem programMap_maps (hs : card.Settles d.access.poll.attempts) (functionId : UInt16)
    (range : Option QueueRange) :
    (programMap d functionId range).run.Leads (Card.backend d.access.variant.window) card
      fun r card' =>
        match r with
        | .ok () => ∃ m, m.bounds = QueueRange.boundsOf range ∧
          d.access.maps card' = Function.update (d.access.maps card) functionId m
        | .error _ => d.access.maps card' = d.access.maps card := by
  unfold programMap
  cases range with
  | none =>
    refine (d.setFunctionMap_maps hs functionId 0 0).mono fun r card' hr => ?_
    cases r with
    | ok _ => exact ⟨{ base := 0, count := 0 }, rfl, hr⟩
    | error e => exact hr
  | some range =>
    by_cases hlt : range.base < UInt16.size ∧ range.count < UInt16.size
    · simp only [if_pos hlt]
      refine (d.setFunctionMap_maps hs functionId _ _).mono fun r card' hr => ?_
      cases r with
      | ok _ =>
        refine ⟨_, Prod.ext ?_ ?_, hr⟩
        · exact UInt16.toNat_ofNat_of_lt' hlt.1
        · exact UInt16.toNat_ofNat_of_lt' hlt.2
      | error e => exact hr
    · simp only [if_neg hlt]
      exact Script.leads_pure.2 rfl

theorem held_of_range {before : Option QueueRange} (h : desk.range = .ok before) :
    desk.held = before := by
  unfold range at h
  cases hr : desk.registry.range desk.manager.group desk.manager.functionId with
  | error error =>
    rw [hr] at h
    cases h
  | ok range =>
    rw [hr] at h
    cases h
    exact Registry.held_of_range hr

theorem askBack_eq (desk : Desk) (before : Option QueueRange) :
    desk.askBack before =
      desk.change (desk.registry.askFor desk.manager.group desk.manager.functionId before) := by
  cases before <;> rfl

/-- A request that is refused changes no range. After one that is met the function has what it was
given, and can have back what it had. -/
theorem update_met (hv : desk.registry.Valid) (count : Nat) (hint : Option Nat) :
    (desk.update count hint).Ends fun out =>
      match out.2 with
      | .error _ => out.1.held = desk.held
      | .ok range => out.1.held = range ∧
        (out.1.restore desk.held).Ends fun desk' => desk'.held = desk.held := by
  refine ends_change fun reply hr => ?_
  have hheld := hv.updateFunction_held hr
  obtain ⟨registry, result, notices⟩ := reply
  cases result with
  | error error => exact hheld
  | ok range =>
    refine ⟨hheld, ?_⟩
    have hvalid : registry.Valid := (hv.updateFunction_kept hr).1.valid
    obtain ⟨back, hback, hmet⟩ := hv.updateFunction_back hr rfl
    have hask : (Desk.askBack { desk with registry } desk.held).Ends
        fun out => out.1.held = desk.held := by
      rw [askBack_eq]
      refine ends_change fun reply' hr' => ?_
      cases hback.symm.trans hr'
      have hnow := hvalid.askFor_held hback
      rw [hmet] at hnow
      exact hnow
    rw [restore_eq]
    refine hask.bind fun out hout => ?_
    exact (settle_spec _ _ out).mono fun desk' hsame => hsame ▸ hout

/-- The map of the function follows its range, whether or not the map can be set. -/
theorem setRange_maps (hv : desk.registry.Valid) (hs : card.Settles d.access.poll.attempts)
    (count : Nat) (hint : Option Nat) :
    (desk.setRange d count hint).Leads (Card.backend d.access.variant.window) card fun out card' =>
      (∀ other, other ≠ desk.manager.functionId →
        d.access.maps card' other = d.access.maps card other) ∧
      ((d.access.maps card desk.manager.functionId).bounds = QueueRange.boundsOf desk.held →
        (d.access.maps card' desk.manager.functionId).bounds = QueueRange.boundsOf out.1.held) := by
  have hkeep : ∀ {card' : Card} {desk' : Desk}, d.access.maps card' = d.access.maps card →
      desk'.held = desk.held → (∀ other, other ≠ desk.manager.functionId →
        d.access.maps card' other = d.access.maps card other) ∧
      ((d.access.maps card desk.manager.functionId).bounds = QueueRange.boundsOf desk.held →
        (d.access.maps card' desk.manager.functionId).bounds = QueueRange.boundsOf desk'.held) := by
    intro card' desk' hmaps hheld
    rw [hmaps, hheld]
    exact ⟨fun _ _ => rfl, id⟩
  unfold setRange
  cases hrange : desk.range with
  | error error => exact Script.leads_pure.2 (hkeep rfl rfl)
  | ok before =>
    obtain rfl := held_of_range hrange
    refine ((Card.leads_offline (offline_update _ _ _)).and (Script.Leads.of_ends
      ((update_spec hv count hint).and (update_met hv count hint)))).bind ?_
    rintro ⟨desk', result⟩ card' ⟨rfl, ⟨hmanager, -⟩, hmet⟩
    cases result with
    | error error => exact Script.leads_pure.2 (hkeep rfl hmet)
    | ok range =>
      obtain ⟨hheld, hback⟩ := hmet
      have hfunction : desk'.manager.functionId = desk.manager.functionId :=
        congrArg Manager.functionId hmanager
      refine (programMap_maps hs desk'.manager.functionId range).bind fun mapped card'' hr => ?_
      rw [hfunction] at hr
      cases mapped with
      | ok _ =>
        obtain ⟨m, hbounds, hmaps⟩ := hr
        refine Script.leads_pure.2 ⟨fun other ho => ?_, fun _ => ?_⟩
        · rw [hmaps, Function.update_of_ne ho]
        · rw [hmaps, Function.update_self, hheld, hbounds]
      | error error =>
        refine ((Card.leads_offline (offline_restore _ _)).and (Script.Leads.of_ends hback)).bind ?_
        rintro desk'' card''' ⟨rfl, hheld'⟩
        exact Script.leads_pure.2 (hkeep hr hheld')

/-! ## Starting and stopping -/

/-- No range of the group has changed. -/
def Still (desk desk' : Desk) : Prop :=
  desk'.manager.group = desk.manager.group ∧
    ∀ id, desk'.registry.held desk.manager.group id = desk.registry.held desk.manager.group id

theorem Still.refl (desk : Desk) : desk.Still desk :=
  ⟨rfl, fun _ => rfl⟩

theorem Still.trans {desk' desk'' : Desk} (h : desk.Still desk') (h' : desk'.Still desk'') :
    desk.Still desk'' := by
  obtain ⟨hgroup, hheld⟩ := h
  obtain ⟨hgroup', hheld'⟩ := h'
  rw [hgroup] at hheld'
  exact ⟨hgroup'.trans hgroup, fun id => (hheld' id).trans (hheld id)⟩

theorem start_still (hv : desk.registry.Valid) (hwQid : Nat) (type : QueueType) (c : QueueConfig) :
    (desk.start d hwQid type c).Ends fun out => desk.Still out.1 := by
  refine (start_spec hv hwQid type c).mono ?_
  rintro ⟨desk', result⟩ h
  cases result with
  | error error =>
    cases h
    exact Still.refl _
  | ok _ =>
    obtain ⟨qid, -, -, -, ⟨notices, hcount⟩, hmanager⟩ := h
    refine ⟨by rw [hmanager], fun id => ?_⟩
    exact hv.incrementActive_held hcount id

theorem stop_still (hv : desk.registry.Valid) (hwQid : Nat) (type : QueueType) :
    (desk.stop d hwQid type).Ends fun out => desk.Still out.1 := by
  refine (stop_spec desk hwQid type).mono ?_
  rintro ⟨desk', result⟩ (⟨hsame, -⟩ | ⟨qid, -, -, ⟨reply, hr, hregistry⟩, hmanager⟩)
  · obtain rfl := hsame
    exact Still.refl _
  · refine ⟨by rw [hmanager]; simp, fun id => ?_⟩
    rw [hregistry]
    exact hv.decrementActive_held hr id

theorem stopEach_still (hv : desk.Valid) (queues : List StartedQueue) :
    (desk.stopEach d queues).Ends fun out => desk.Still out.1 := by
  induction queues generalizing desk with
  | nil => exact Still.refl desk
  | cons q rest ih =>
    unfold stopEach
    refine ((stop_moved hv q.qid.toNat q.type).and (stop_still hv.registry _ _)).bind ?_
    rintro ⟨desk', first⟩ ⟨hmoved, hstill⟩
    refine (ih hmoved.valid).bind ?_
    rintro ⟨desk'', later⟩ hstill'
    cases first <;> exact hstill.trans hstill'

end Desk

namespace Site

/-- The act is one of a manager. -/
def Act.Managed : Act → Prop
  | .direct _ _ => False
  | _ => True

/-- Each map that commands can reach is the range of its function. -/
structure Mapped (d : Device) (h : GroupHandle) (card : Card) (s : Site) : Prop where
  valid : s.Valid h
  settles : card.Settles d.access.poll.attempts
  agrees : ∀ id, d.access.Addresses .functionMap id →
    (d.access.maps card id).bounds = QueueRange.boundsOf (s.registry.held h id)

variable {d : Device} {h : GroupHandle} {card card' : Card} {s : Site}

/-- With a registry whose functions hold nothing, and maps that are zero. -/
theorem mapped_vacant {r : Registry} (hv : r.Valid) (hs : card.Settles d.access.poll.attempts)
    (hvacant : ∀ g, r.find? h = some g → ∀ e ∈ g.functions, e.range = none)
    (hzero : ∀ id, d.access.Addresses .functionMap id → d.access.maps card id = {}) :
    Mapped d h card ⟨r, []⟩ where
  valid := ⟨hv, nofun, .nil, nofun, fun id _ => hv.idle_of_held (Registry.held_vacant hvacant id)⟩
  settles := hs
  agrees id hid := by
    rw [hzero id hid, Registry.held_vacant hvacant id]
    rfl

/-! ## Acts keep the maps -/

theorem bind_registry (s : Site) (h : GroupHandle) (functionId : UInt16) :
    (s.bind h functionId).registry = s.registry := by
  unfold Site.bind
  split
  · rfl
  · split <;> rfl

theorem Mapped.work {α : Type} (hm : s.Mapped d h card) {i : Nat} {op : Desk → Script (Desk × α)}
    (hmoved : ∀ desk : Desk, desk.Valid → (op desk).Ends fun out => desk.Moved out.1)
    (hop : ∀ m ∈ s.managers, (op ⟨s.registry, m⟩).Leads (Card.backend d.access.variant.window) card
      fun out card' => ∀ id, d.access.Addresses .functionMap id →
        (d.access.maps card' id).bounds = QueueRange.boundsOf (out.1.registry.held h id)) :
    (s.work i op).Leads (Card.backend d.access.variant.window) card
      fun s' card' => s'.Mapped d h card' := by
  unfold Site.work
  cases hi : s.managers[i]? with
  | none => exact Script.leads_pure.2 hm
  | some m =>
    have hmem := List.mem_of_getElem? hi
    refine ((hm.settles.leads _).and ((Script.Leads.of_ends (hmoved _ (hm.valid.desk hmem))).and
      (hop m hmem))).bind ?_
    rintro ⟨desk, result⟩ card' ⟨hs, hmoved', hagrees⟩
    exact Script.leads_pure.2 ⟨hm.valid.moved hi hmoved', hs, hagrees⟩

/-- An operation that changes no range and spares the maps. -/
theorem Mapped.still {α : Type} (hm : s.Mapped d h card) {i : Nat}
    {op : Desk → Script (Desk × α)}
    (hmoved : ∀ desk : Desk, desk.Valid → (op desk).Ends fun out => desk.Moved out.1)
    (hspares : ∀ desk, d.SparesMaps (op desk))
    (hstill : ∀ desk : Desk, desk.Valid → (op desk).Ends fun out => desk.Still out.1) :
    (s.work i op).Leads (Card.backend d.access.variant.window) card
      fun s' card' => s'.Mapped d h card' := by
  refine hm.work hmoved fun m hmem => ?_
  refine ((hspares _ card).and (Script.Leads.of_ends (hstill _ (hm.valid.desk hmem)))).mono ?_
  rintro ⟨desk, result⟩ card' ⟨hcells, -, hheld⟩ id hid
  have hmaps := Access.maps_congr (hcells .functionMap rfl)
  rw [hm.valid.group m hmem] at hheld
  rw [hmaps, hheld]
  exact hm.agrees id hid

theorem Mapped.setRange (hm : s.Mapped d h card) (i count : Nat) (hint : Option Nat) :
    (s.work i fun desk => desk.setRange d count hint).Leads
      (Card.backend d.access.variant.window) card fun s' card' => s'.Mapped d h card' := by
  refine hm.work (fun _ hd => Desk.setRange_moved hd count hint) fun m hmem => ?_
  have hgroup := hm.valid.group m hmem
  refine ((Desk.setRange_maps hm.valid.registry hm.settles count hint).and
    (Script.Leads.of_ends (Desk.setRange_spec hm.valid.registry count hint))).mono ?_
  rintro ⟨desk, result⟩ card' ⟨⟨hothers, hown⟩, hmanager, hkept, -⟩ id hid
  simp only [hgroup] at hkept
  have hagrees := hm.agrees id hid
  by_cases hself : id = m.functionId
  · subst hself
    have hdesk : Desk.held ⟨s.registry, m⟩ = s.registry.held h m.functionId := by
      rw [Desk.held, hgroup]
    have hdesk' : desk.held = desk.registry.held h m.functionId := by
      rw [Desk.held, hmanager, hgroup]
    rw [hdesk, hdesk'] at hown
    exact hown hagrees
  · rw [hothers id hself, hkept.held_other hself]
    exact hagrees

theorem Mapped.step (hm : s.Mapped d h card) {act : Act} (hact : act.Managed) :
    (s.step d h act).Leads (Card.backend d.access.variant.window) card
      fun s' card' => s'.Mapped d h card' := by
  cases act with
  | direct c hc => exact hact.elim
  | bind functionId =>
    refine Script.leads_pure.2 ⟨hm.valid.bind functionId, hm.settles, ?_⟩
    rw [bind_registry]
    exact hm.agrees
  | setRange i count hint => exact hm.setRange i count hint
  | start i hwQid type c =>
    exact hm.still (fun _ hd => Desk.start_moved hd hwQid type c)
      (fun desk => Desk.start_sparesMaps d desk hwQid type c)
      fun _ hd => Desk.start_still hd.registry hwQid type c
  | stop i hwQid type =>
    exact hm.still (fun _ hd => Desk.stop_moved hd hwQid type)
      (fun desk => Desk.stop_sparesMaps d desk hwQid type)
      fun _ hd => Desk.stop_still hd.registry hwQid type
  | stopAll i =>
    exact hm.still (fun _ hd => Desk.stopAll_moved hd)
      (fun desk => Desk.stopAll_sparesMaps d desk) fun _ hd => Desk.stopEach_still hd _

theorem Mapped.run (hm : s.Mapped d h card) {acts : List Act} (hacts : ∀ act ∈ acts, act.Managed) :
    (s.run d h acts).Leads (Card.backend d.access.variant.window) card
      fun s' card' => s'.Mapped d h card' := by
  induction acts generalizing s card with
  | nil => exact Script.leads_pure.2 hm
  | cons act acts ih =>
    obtain ⟨hact, hrest⟩ := List.forall_mem_cons.1 hacts
    exact (hm.step hact).bind fun s' card' hm' => ih hm' hrest

/-- Maps of two functions have no queue in common. -/
theorem Mapped.disjoint (hm : s.Mapped d h card) {id id' : UInt16}
    (hid : d.access.Addresses .functionMap id) (hid' : d.access.Addresses .functionMap id')
    (hne : id ≠ id') (qid : Nat) :
    ¬ ((d.access.maps card id).Holds qid ∧ (d.access.maps card id').Holds qid) := by
  rintro ⟨hq, hq'⟩
  obtain ⟨a, ha, hqa⟩ := FunctionMap.holds_of_bounds (hm.agrees id hid) hq
  obtain ⟨b, hb, hqb⟩ := FunctionMap.holds_of_bounds (hm.agrees id' hid') hq'
  exact hne (hm.valid.registry.held_disjoint ha hb hqa hqb)

/-- Managers of a group whose functions hold nothing work on a device with zero maps, which may
lose commands. After every run the map of each function that has a manager, and that the device can
address, is the range that the registry knows, zero for none, and no two maps share a queue. -/
theorem function_maps_agree {policy : RequestPolicy} {calls : List Registry.Call} {r : Registry}
    {results : List (Except ResourceError Answer)}
    (hr : (Registry.fresh policy).run calls = .ok (r, results))
    (hvacant : ∀ g, r.find? h = some g → ∀ e ∈ g.functions, e.range = none)
    (hs : card.Settles d.access.poll.attempts)
    (hzero : ∀ id, d.access.Addresses .functionMap id → d.access.maps card id = {})
    {acts : List Act} (hacts : ∀ act ∈ acts, act.Managed)
    (hrun : (run d h ⟨r, []⟩ acts).run (Card.backend d.access.variant.window) card =
      (.ok s, card')) :
    (∀ m ∈ s.managers, d.access.Addresses .functionMap m.functionId →
      (d.access.maps card' m.functionId).bounds =
        QueueRange.boundsOf (s.registry.held h m.functionId)) ∧
    ∀ m ∈ s.managers, ∀ m' ∈ s.managers, d.access.Addresses .functionMap m.functionId →
      d.access.Addresses .functionMap m'.functionId → m ≠ m' → ∀ qid,
        ¬ ((d.access.maps card' m.functionId).Holds qid ∧
          (d.access.maps card' m'.functionId).Holds qid) := by
  have hm := (mapped_vacant (Registry.valid_of_run hr).1 hs hvacant hzero).run hacts s card' hrun
  refine ⟨fun m _ hid => hm.agrees _ hid, fun m hmem m' hmem' hid hid' hne => ?_⟩
  exact hm.disjoint hid hid' fun hsame =>
    hne (List.inj_on_of_nodup_map hm.valid.distinct hmem hmem' hsame)

/-- Two functions without queues. -/
def vacant : List Registry.Call :=
  [.createGroup ⟨1, 2⟩ 0 8, .change ⟨⟨1, 2⟩, 0⟩ (.createFunction 1),
    .change ⟨⟨1, 2⟩, 0⟩ (.createFunction 2)]

/-- The third command is lost, so the first function keeps the range that it has. -/
theorem lost_command_maps_agree :
    ∃ r results s card, (Registry.fresh .releaseFirst).run vacant = .ok (r, results) ∧
      (run Device.softDevice ⟨⟨1, 2⟩, 0⟩ ⟨r, []⟩
        [.bind 1, .bind 2, .setRange 0 2 none, .setRange 1 3 none, .setRange 0 1 none]).run
          (Card.backend .soft) { fate := fun i _ => if i = 2 then .lost else .done 0 } =
        (.ok s, card) ∧
      (Device.softDevice.access.maps card 1).bounds = (0, 2) ∧
      (Device.softDevice.access.maps card 2).bounds = (2, 3) := by
  obtain ⟨r, results, s, card, hr, hvacant, hrun, hmanagers, hfirst, hsecond⟩ :
      ∃ r results s card, (Registry.fresh .releaseFirst).run vacant = .ok (r, results) ∧
        (∀ g, r.find? ⟨⟨1, 2⟩, 0⟩ = some g → ∀ e ∈ g.functions, e.range = none) ∧
        (run Device.softDevice ⟨⟨1, 2⟩, 0⟩ ⟨r, []⟩
          [.bind 1, .bind 2, .setRange 0 2 none, .setRange 1 3 none, .setRange 0 1 none]).run
            (Card.backend .soft) { fate := fun i _ => if i = 2 then .lost else .done 0 } =
          (.ok s, card) ∧
        s.managers = [⟨⟨⟨1, 2⟩, 0⟩, 1, []⟩, ⟨⟨⟨1, 2⟩, 0⟩, 2, []⟩] ∧
        s.registry.held ⟨⟨1, 2⟩, 0⟩ 1 = some ⟨0, 2⟩ ∧
        s.registry.held ⟨⟨1, 2⟩, 0⟩ 2 = some ⟨2, 3⟩ := by
    refine ⟨_, _, _, _, rfl, ?_, rfl, rfl, rfl, rfl⟩
    rintro g ⟨⟩
    decide
  have hsettles : ({ fate := fun i _ => if i = 2 then .lost else .done 0 } : Card).Settles
      Device.softDevice.access.poll.attempts := by
    intro i c
    by_cases hi : i = 2
    · exact .inl (if_pos hi)
    · exact .inr ⟨0, Nat.zero_le _, if_neg hi⟩
  have hzero : ∀ id, Device.softDevice.access.maps
      { fate := fun i _ => if i = 2 then .lost else .done 0 } id = {} := by
    intro id
    show (FunctionMap.layout .soft).decode ((List.replicate 8 0).take 2) = _
    decide
  obtain ⟨hagree, -⟩ := function_maps_agree hr hvacant hsettles (fun id _ => hzero id)
    (by simp [Act.Managed]) hrun
  have hone := hagree ⟨⟨⟨1, 2⟩, 0⟩, 1, []⟩ (by rw [hmanagers]; simp) (by decide)
  have htwo := hagree ⟨⟨⟨1, 2⟩, 0⟩, 2, []⟩ (by rw [hmanagers]; simp) (by decide)
  rw [hfirst] at hone
  rw [hsecond] at htwo
  exact ⟨r, results, s, card, hr, hrun, hone, htwo⟩

end Site

end DmaQueues
