import DmaQueues.Proofs.Engine.History
import DmaQueues.Proofs.Queue.Bringup
import DmaQueues.Proofs.Queue.Commands
import DmaQueues.Proofs.Queue.Frame
import DmaQueues.Proofs.Queue.Shutdown

/-!
# A stop takes back what a start has set up

The slot of a started queue stays in its table, with the mode it was started in, until the queue is
stopped: not even the order in which other queues come and go matters (`Site.Valid.run_keeps`). So
the contexts that a stop addresses are those that the start has addressed
(`Device.mem_startCommands`), and `started_queue_is_taken_back` says what they hold afterwards.
-/

namespace DmaQueues

/-! ## Actions that succeed -/

namespace Access

variable {α β ε : Type} {a : Access} {s : Selector} {q : UInt16} {f f' : Cells → Cells}

/-- On any card, if `op` succeeds it has changed the cells by `f`. -/
def Does (a : Access) (op : Action ε α) (f : Cells → Cells) : Prop :=
  ∀ card, op.run.Leads (Card.backend a.variant.window) card fun r card' =>
    ∀ v, r = .ok v → a.cells card' = f (a.cells card)

theorem Does.bind {op : Action ε α} {g : α → Action ε β} (h : a.Does op f)
    (hg : ∀ v, a.Does (g v) f') : a.Does (op >>= g) (f' ∘ f) := by
  intro card
  refine (h card).action (fun v card' hcells => ?_) fun e card' _ => nofun
  refine (hg v card').mono fun r card'' hr v' hv' => ?_
  exact (hr v' hv').trans (congrArg f' (hcells v rfl))

theorem does_offline {op : Action ε α} (h : op.run.Offline) : a.Does op id :=
  fun _ => (Card.leads_offline h).mono fun _ _ hsame _ _ => congrArg a.cells hsame

theorem Does.andNotice {op : Action ε Unit} (h : a.Does op f) (n : Notice) :
    a.Does (op >>= fun _ => liftM (Script.notice n)) f := by
  have hnotice : a.Does (liftM (Script.notice n) : Action ε Unit) id := does_offline trivial
  exact h.bind fun _ => hnotice

theorem Does.lift {op : Action AccessError α} (h : a.Does op f) : a.Does (Device.lift op) f := by
  intro card
  rw [Device.lift_run]
  refine (h card).bind fun r card' hr => Script.leads_pure.2 fun v hv => ?_
  cases r with
  | ok x => exact hr x rfl
  | error e => cases hv

theorem Does.forM {g : α → Action ε Unit} {f : α → Cells → Cells} {items : List α}
    (h : ∀ x ∈ items, a.Does (g x) (f x)) :
    a.Does (items.forM g) fun cells => items.foldl (fun cells x => f x cells) cells := by
  induction items with
  | nil => exact does_offline trivial
  | cons x rest ih =>
    have hrest := ih fun y hy => h y (List.mem_cons_of_mem _ hy)
    exact (h x List.mem_cons_self).bind fun _ => hrest

theorem does_of_effect {op : Action AccessError α}
    (h : ∀ card, ∃ v, a.Effect op card s q (f (a.cells card)) v) : a.Does op f := by
  intro card
  obtain ⟨v, heffect⟩ := h card
  refine heffect.leads.mono ?_
  rintro _ card' ho v' rfl
  exact ho.of_ok.2.2

end Access

namespace Device

open Access

variable {d : Device}

/-- Whatever the card, a stop that succeeds leaves zeros in the contexts of the queue and nothing
else changed. -/
theorem stopQueue_does (d : Device) (queue : StartedQueue) :
    d.access.Does (d.stopQueue queue.qid queue.type queue.memoryMapped)
      ((stopEvent queue).apply d.access) := by
  have howned := queueContext_owned queue.type queue.memoryMapped
  have hinvalidate : d.access.Does ((ownedContexts queue.type queue.memoryMapped).forM fun s =>
      lift (d.access.invalidate s queue.qid)) _ :=
    .forM (f := fun _ cells => cells) fun s hs => (does_of_effect fun card =>
      ⟨_, invalidate_effect (supports_queueContext _ (howned s hs))
        (isDirect_queueContext _ (howned s hs)) card queue.qid⟩).lift
  have hclear : d.access.Does ((ownedContexts queue.type queue.memoryMapped).forM fun s =>
      d.clear s queue.qid) _ :=
    .forM (f := fun s => d.access.edit queue.qid [(s, none)]) fun s hs =>
      (does_of_effect fun card =>
        ⟨_, clear_effect (supports_queueContext _ (howned s hs)) card queue.qid⟩).lift
  rw [← edit_owned]
  exact hinvalidate.bind fun _ => hclear.andNotice (.queueStopped queue.qid queue.type)

/-- The contexts that a start addresses are those that the queue owns. -/
theorem mem_startCommands {q : UInt16} {type : QueueType} {memoryMapped : Bool} {s : Selector} :
    s ∈ ownedContexts type memoryMapped ↔
      ∃ c ∈ startCommands q type memoryMapped, c.selector = s := by
  have hselectors : (startCommands q type memoryMapped).map Command.selector =
      (startCommands 0 type memoryMapped).map Command.selector := by
    cases type <;> cases memoryMapped <;> rfl
  rw [← List.mem_map, hselectors]
  cases type <;> cases memoryMapped <;> cases s <;> decide

theorem qid_startCommands {q : UInt16} {type : QueueType} {memoryMapped : Bool} :
    ∀ c ∈ startCommands q type memoryMapped, c.qid = q := by
  cases type <;> cases memoryMapped <;>
    simp [startCommands, descriptorCommands, preparation, enabling, streams]

end Device

namespace Desk

variable {d : Device} {desk : Desk}

/-- A start that succeeds has issued all commands of its queue. -/
theorem program_commands (d : Device) (desk : Desk) (qid : UInt16) (type : QueueType)
    (c : QueueConfig) : (desk.program d qid type c).Traces fun out t => out.2 = .ok () →
      d.variant.window.commands t = Device.startCommands qid type c.memoryMapped := by
  have hstart := (d.startQueue_issues qid type { c with functionId := desk.manager.functionId }).traces
  unfold program
  refine (offline_change _ _).untouched.bind ?_
  rintro ⟨desk', result⟩ t ht
  cases result with
  | error error => exact nofun
  | ok _ =>
    refine hstart.bind fun started t' ht' => ?_
    cases started with
    | ok _ =>
      rw [Script.traces_pure, List.append_nil, Window.commands_append,
        Window.commands_of_writes_nil ht.writes]
      exact fun _ => (ht'.2.2 () rfl).1
    | error error =>
      exact (Script.ends_true _).traces.bind fun _ _ _ => nofun

theorem start_commands (d : Device) (desk : Desk) (hwQid : Nat) (type : QueueType)
    (c : QueueConfig) : (desk.start d hwQid type c).Traces fun out t => out.2 = .ok () →
      ∃ qid : UInt16, qid.toNat = hwQid ∧
        d.variant.window.commands t = Device.startCommands qid type c.memoryMapped := by
  unfold start
  have hcheck := (offline_checkRange desk hwQid).untouched.and (checkRange_ends desk hwQid).traces
  refine hcheck.bind fun checked t ⟨ht, hchecked⟩ => ?_
  cases checked with
  | error error => exact nofun
  | ok qid =>
    by_cases htaken : (desk.manager.slots.any fun s => s.holds qid type) = true
    · simp only [if_pos htaken]
      exact nofun
    · simp only [if_neg htaken]
      refine (program_commands d _ qid type c).bind ?_
      rintro ⟨desk', result⟩ t' ht'
      cases result with
      | ok _ =>
        rw [Script.traces_pure, List.append_nil, Window.commands_append,
          Window.commands_of_writes_nil ht.writes]
        exact fun _ => ⟨qid, (hchecked qid rfl).1, ht' rfl⟩
      | error error => exact nofun

end Desk

/-! ## Slots that stay -/

namespace Desk

variable {d : Device} {desk : Desk} {slot : Slot}

theorem start_keeps (hv : desk.Valid) (hslot : slot ∈ desk.manager.slots) (hwQid : Nat)
    (type : QueueType) (c : QueueConfig) :
    (desk.start d hwQid type c).Ends fun out => slot ∈ out.1.manager.slots := by
  refine (start_spec hv.registry hwQid type c).mono ?_
  rintro ⟨desk', result⟩ h
  cases result with
  | error error =>
    cases h
    exact hslot
  | ok _ =>
    obtain ⟨qid, -, -, -, -, hm⟩ := h
    rw [hm]
    exact List.mem_append_left _ hslot

/-- The last slot of the table takes the place of the one that goes, but no other goes. -/
theorem stop_keeps (hv : desk.Valid) (hslot : slot ∈ desk.manager.slots) {hwQid : Nat}
    {type : QueueType} (hother : ¬ (slot.queue.qid.toNat = hwQid ∧ slot.queue.type = type)) :
    (desk.stop d hwQid type).Ends fun out => slot ∈ out.1.manager.slots := by
  refine (stop_spec desk hwQid type).mono ?_
  rintro ⟨desk', result⟩ (⟨rfl, -⟩ | ⟨qid, hqid, ⟨gone, hgone, -, hheld⟩, -, hm⟩)
  · exact hslot
  · obtain ⟨e, -, htracked, -⟩ := hv.find_slot hslot
    have hkey := Slot.holds_iff.1 hheld
    rw [hm]
    refine List.mem_of_ne_of_mem ?_
      ((Manager.stopped_perm htracked.distinct hgone hheld).mem_iff.1 hslot)
    rintro rfl
    exact hother ⟨(congrArg (·.1.toNat) hkey).trans hqid, congrArg Prod.snd hkey⟩

theorem setRange_keeps (hv : desk.Valid) (hslot : slot ∈ desk.manager.slots) (count : Nat)
    (hint : Option Nat) : (desk.setRange d count hint).Ends fun out =>
      slot ∈ out.1.manager.slots := by
  refine (setRange_spec hv.registry count hint).mono fun out hr => ?_
  rw [hr.1]
  exact hslot

end Desk

namespace Site

/-- The act stops the queue of the manager at `i`. -/
def Act.Stops (i hwQid : Nat) (type : QueueType) : Act → Prop
  | .stop j hwQid' type' => j = i ∧ hwQid' = hwQid ∧ type' = type
  | .stopAll j => j = i
  | _ => False

/-- The manager at `i` has the slot. -/
def Holds (s : Site) (i : Nat) (slot : Slot) : Prop :=
  ∃ m, s.managers[i]? = some m ∧ slot ∈ m.slots

variable {d : Device} {h : GroupHandle} {s : Site} {i : Nat} {slot : Slot}

theorem Valid.work_keeps {α : Type} (hv : s.Valid h) (hslot : s.Holds i slot) {j : Nat}
    {op : Desk → Script (Desk × α)}
    (hop : j = i → ∀ desk : Desk, desk.Valid → slot ∈ desk.manager.slots →
      (op desk).Ends fun out => slot ∈ out.1.manager.slots) :
    (s.work j op).Ends fun s' => s'.Holds i slot := by
  obtain ⟨m, hi, hmem⟩ := hslot
  unfold Site.work
  cases hj : s.managers[j]? with
  | none => exact ⟨m, hi, hmem⟩
  | some m' =>
    by_cases hij : j = i
    · obtain rfl := hij
      cases hi.symm.trans hj
      have hlt := (List.getElem?_eq_some_iff.1 hi).1
      refine (hop rfl ⟨s.registry, m⟩ (hv.desk (List.mem_of_getElem? hi)) hmem).bind ?_
      rintro ⟨desk, result⟩ hkept
      exact ⟨desk.manager, List.getElem?_set_self hlt, hkept⟩
    · refine Script.ends_bind_of_forall ?_
      rintro ⟨desk, result⟩
      exact ⟨m, (List.getElem?_set_ne hij).trans hi, hmem⟩

/-- A new manager comes last. -/
theorem Holds.bind (hslot : s.Holds i slot) (h : GroupHandle) (functionId : UInt16) :
    (s.bind h functionId).Holds i slot := by
  obtain ⟨m, hi, hmem⟩ := hslot
  have hlt := (List.getElem?_eq_some_iff.1 hi).1
  unfold Site.bind
  split
  · exact ⟨m, hi, hmem⟩
  · split
    · exact ⟨m, (List.getElem?_append_left hlt).trans hi, hmem⟩
    · exact ⟨m, hi, hmem⟩

theorem Valid.step_keeps (hv : s.Valid h) (d : Device) (hslot : s.Holds i slot) {act : Act}
    (hact : ¬ act.Stops i slot.queue.qid.toNat slot.queue.type) :
    (s.step d h act).Ends fun s' => s'.Holds i slot := by
  cases act with
  | direct c hc =>
    exact Script.ends_bind_of_forall fun reply => Script.ends_bind_of_forall fun _ => hslot
  | bind functionId => exact hslot.bind h functionId
  | setRange j count hint =>
    exact hv.work_keeps hslot fun _ _ hd hmem => Desk.setRange_keeps hd hmem count hint
  | start j hwQid type c =>
    exact hv.work_keeps hslot fun _ _ hd hmem => Desk.start_keeps hd hmem hwQid type c
  | stop j hwQid type =>
    exact hv.work_keeps hslot fun hij _ hd hmem => Desk.stop_keeps hd hmem fun hkey =>
      hact ⟨hij, hkey.1.symm, hkey.2.symm⟩
  | stopAll j => exact hv.work_keeps hslot fun hij => absurd hij hact

/-- As long as it is not stopped, a queue has its slot. -/
theorem Valid.run_keeps (hv : s.Valid h) (d : Device) (hslot : s.Holds i slot) {acts : List Act}
    (hacts : ∀ act ∈ acts, ¬ act.Stops i slot.queue.qid.toNat slot.queue.type) :
    (s.run d h acts).Ends fun s' => s'.Valid h ∧ s'.Holds i slot := by
  induction acts generalizing s with
  | nil => exact ⟨hv, hslot⟩
  | cons act acts ih =>
    obtain ⟨hact, hrest⟩ := List.forall_mem_cons.1 hacts
    exact ((hv.step d act).and (hv.step_keeps d hslot hact)).bind fun s' hs =>
      ih hs.1 hs.2 hrest

end Site

/-! ## A start and its stop -/

namespace Device

variable {d : Device}

/-- A stop with the commands `stopped` takes back what a start with the commands `started` has set up:
it leaves zeros where the start was at work, it is at work nowhere else, and it clears nothing
before all is invalidated. -/
structure TakesBack (d : Device) (started stopped : List Command) (card card' : Card) : Prop where
  zeroed : ∀ c ∈ started, d.access.Cleared card' c.selector c.qid
  others : ∀ s q, (∀ c ∈ started, ¬ (c.selector = s ∧ c.qid = q)) →
    d.access.cells card' s q = d.access.cells card s q
  order : ∃ (q : UInt16) (contexts : List Selector),
    stopped = contexts.map (⟨·, .invalidate, q⟩) ++ contexts.map (⟨·, .clear, q⟩) ∧
    (∀ s, s ∈ contexts ↔ ∃ c ∈ started, c.selector = s) ∧ ∀ c ∈ started, c.qid = q

theorem takesBack_of_apply {queue : StartedQueue} {card card' : Card}
    (hcells : d.access.cells card' = (stopEvent queue).apply d.access (d.access.cells card)) :
    d.TakesBack (startCommands queue.qid queue.type queue.memoryMapped)
      (stopCommands queue.qid queue.type queue.memoryMapped) card card' where
  zeroed c hc := by
    have howns : (stopEvent queue).owns c.selector c.qid = true :=
      QueueEvent.owns_iff.2 ⟨qid_startCommands c hc, mem_startCommands.2 ⟨c, hc, rfl⟩⟩
    unfold Access.Cleared
    rw [hcells, QueueEvent.apply, if_pos howns]
    rfl
  others s q hother := by
    rw [hcells]
    refine if_neg fun howns => ?_
    obtain ⟨rfl, howned⟩ := QueueEvent.owns_iff.1 howns
    obtain ⟨c, hc, hs⟩ := mem_startCommands.1 howned
    exact hother c hc ⟨hs, qid_startCommands c hc⟩
  order := ⟨queue.qid, _, rfl, fun _ => mem_startCommands, qid_startCommands⟩

end Device

namespace Site

variable {d : Device} {h : GroupHandle} {s : Site} {i : Nat}

/-- After any run of the managers and the registry a manager starts a queue. Further acts follow, of
this manager or others, which do not stop the queue; the device may do what it wants. If the
manager then stops the queue, and the stop succeeds on a card with whatever contents, it takes back
what the start has set up. So a memory-mapped card-to-host queue is stopped without its completion
and prefetch contexts, and a stream with both. -/
theorem started_queue_is_taken_back {σ τ υ : Type} {b : Backend σ} {b₁ : Backend τ}
    {b₂ : Backend υ} {policy : RequestPolicy} {earlier later : List Act} {state state' : σ}
    {state₁ state₁' : τ} {state₂ state₂' : υ} {s' : Site} {m m' : Manager} {hwQid : Nat}
    {type : QueueType} {c : QueueConfig} {started stopped : Desk} {t t' : Trace} {card card' : Card}
    (hr : (run d h ⟨.fresh policy, []⟩ earlier).run b state = (.ok s, state'))
    (hm : s.managers[i]? = some m)
    (hstart : (Desk.start d ⟨s.registry, m⟩ hwQid type c).trace b₁ state₁ =
      (.ok (started, .ok ()), state₁', t))
    (hr' : (run d h ⟨started.registry, s.managers.set i started.manager⟩ later).run b₂ state₂ =
      (.ok s', state₂'))
    (hlater : ∀ act ∈ later, ¬ act.Stops i hwQid type)
    (hm' : s'.managers[i]? = some m')
    (hstop : (Desk.stop d ⟨s'.registry, m'⟩ hwQid type).trace (Card.backend d.variant.window) card =
      (.ok (stopped, .ok ()), card', t')) :
    d.TakesBack (d.variant.window.commands t) (d.variant.window.commands t') card card' ∧
      (type = .c2h → c.memoryMapped = true → ∀ command ∈ d.variant.window.commands t',
        command.selector ≠ .completion ∧ command.selector ≠ .prefetch) ∧
      (type = .c2h → c.memoryMapped = false → ∀ s ∈ [Selector.completion, .prefetch],
        ∃ q, ⟨s, .clear, q⟩ ∈ d.variant.window.commands t') := by
  have hv : s.Valid h := ((valid_fresh policy h).run d earlier).of_run hr
  have hdesk := hv.desk (List.mem_of_getElem? hm)
  obtain ⟨qid, hqid, hcommands⟩ := (Desk.start_commands d _ hwQid type c).of_trace hstart rfl
  obtain ⟨qid', hqid', -, -, -, hslots⟩ :=
    (Desk.start_spec hdesk.registry hwQid type c).traces.of_trace hstart
  obtain rfl : qid' = qid := UInt16.toNat_inj.1 (hqid'.trans hqid.symm)
  subst hqid
  let slot : Slot := ⟨⟨qid', type, c.memoryMapped⟩, true⟩
  have hmoved := (Desk.start_moved hdesk qid'.toNat type c).traces.of_trace hstart
  have hholds : Site.Holds ⟨started.registry, s.managers.set i started.manager⟩ i slot := by
    refine ⟨started.manager, List.getElem?_set_self (List.getElem?_eq_some_iff.1 hm).1, ?_⟩
    rw [hslots]
    exact List.mem_append_right _ (List.mem_singleton_self slot)
  obtain ⟨hv', m'', hm'', hslot⟩ := ((hv.moved hm hmoved).run_keeps d hholds hlater).of_run hr'
  cases hm'.symm.trans hm''
  obtain ⟨desk', -, -, heq⟩ := (hv'.desk (List.mem_of_getElem? hm')).stop_eq d hslot
  -- The slot holds the mode of the start, so this is the queue that the device stops.
  obtain ⟨result, card₁, t₁, htrace, -, -, hissued⟩ :=
    (d.total_stopQueue qid' type c.memoryMapped).trace
      (d.stopQueue_issues qid' type c.memoryMapped).traces (Card.backend d.variant.window) card
  have hwhole := (congrArg (Script.trace (Card.backend d.variant.window) · card) heq).trans
    (Script.trace_bind_pure (fun result => (desk', result)) htrace)
  cases hstop.symm.trans hwhole
  have hcells := d.stopQueue_does ⟨qid', type, c.memoryMapped⟩ card _ _
    (Script.run_of_trace htrace).1 () rfl
  rw [hcommands, (hissued () rfl).1]
  refine ⟨Device.takesBack_of_apply hcells, ?_, ?_⟩
  · rintro rfl hmapped command hmem
    rw [hmapped] at hmem
    revert command
    simp [Device.stopCommands, Device.ownedContexts]
  · rintro rfl hstream s hs
    rw [hstream]
    revert s
    simp [Device.stopCommands, Device.ownedContexts]

/-- A queue is running. -/
def mappedBefore : Desk :=
  fourOfEight [⟨⟨0, .h2c, false⟩, true⟩] { h2c := 1 }

/-- A memory-mapped queue is started. -/
def mappedStart : Checked (Desk × Except QueueError Unit) × Unit × Trace :=
  (Desk.start Device.softDevice mappedBefore 1 .c2h { memoryMapped := true }).trace idleDevice ()

def mappedStarted : Desk :=
  fourOfEight [⟨⟨0, .h2c, false⟩, true⟩, ⟨⟨1, .c2h, true⟩, true⟩] { h2c := 1, c2h := 1 }

/-- The first queue is stopped after two more are started. -/
def meanwhile : List Act :=
  [.start 0 1 .cmpt {}, .start 0 2 .c2h {}, .stop 0 0 .h2c]

/-- A stream stands before the memory-mapped queue, and a completion queue shares its id. -/
def mappedLater : Desk :=
  fourOfEight [⟨⟨2, .c2h, false⟩, true⟩, ⟨⟨1, .c2h, true⟩, true⟩, ⟨⟨1, .cmpt, false⟩, true⟩]
    { c2h := 2, cmpt := 1 }

def mappedStop : Checked (Desk × Except QueueError Unit) × Card × Trace :=
  (Desk.stop Device.softDevice mappedLater 1 .c2h).trace (Card.backend .soft) Device.wordCard

/-- The completion context, which the completion queue uses, is left alone. -/
theorem mapped_queue_is_taken_back :
    mappedStart.1 = .ok (mappedStarted, .ok ()) ∧
      (∃ stopped, mappedStop.1 = .ok (stopped, .ok ())) ∧
      Device.softDevice.TakesBack (Window.soft.commands mappedStart.2.2)
        (Window.soft.commands mappedStop.2.2) Device.wordCard mappedStop.2.1 ∧
      Device.softDevice.access.cells mappedStop.2.1 .completion 1 = [7, 0, 0, 0, 0, 0, 0, 0] := by
  have hr : (run Device.softDevice ⟨⟨1, 2⟩, 0⟩ ⟨.fresh .transactional, []⟩
      [.direct (.createGroup ⟨1, 2⟩ 0 8) trivial,
        .direct (.change ⟨⟨1, 2⟩, 0⟩ (.createFunction 1)) trivial,
        .bind 1, .setRange 0 4 none, .start 0 0 .h2c {}]).run idleDevice () =
      (.ok ⟨mappedBefore.registry, [mappedBefore.manager]⟩, ()) := by
    decide +kernel
  have hm : [mappedBefore.manager][0]? = some mappedBefore.manager := rfl
  have hstart : mappedStart.1 = .ok (mappedStarted, .ok ()) := by decide +kernel
  have hstarted : mappedStart = (.ok (mappedStarted, .ok ()), (), mappedStart.2.2) :=
    Prod.ext hstart Prod.mk.eta.symm
  have hr' : (run Device.softDevice ⟨⟨1, 2⟩, 0⟩ ⟨mappedStarted.registry, [mappedStarted.manager]⟩
      meanwhile).run idleDevice () = (.ok ⟨mappedLater.registry, [mappedLater.manager]⟩, ()) := by
    decide +kernel
  have hlater : ∀ act ∈ meanwhile, ¬ act.Stops 0 1 .c2h := by simp [meanwhile, Act.Stops]
  have hm' : [mappedLater.manager][0]? = some mappedLater.manager := rfl
  have hstop : mappedStop.1 = .ok (fourOfEight [⟨⟨2, .c2h, false⟩, true⟩,
      ⟨⟨1, .cmpt, false⟩, true⟩] { c2h := 1, cmpt := 1 }, .ok ()) := by
    decide +kernel
  have hstopped : mappedStop = (.ok (_, .ok ()), mappedStop.2.1, mappedStop.2.2) :=
    Prod.ext hstop Prod.mk.eta.symm
  have htaken := (started_queue_is_taken_back hr hm hstarted hr' hlater hm' hstopped).1
  have hcommands : Device.softDevice.variant.window.commands mappedStart.2.2 =
      Device.startCommands 1 .c2h true := by
    decide +kernel
  have hothers := htaken.others .completion 1
  rw [hcommands] at hothers
  exact ⟨hstart, ⟨_, hstop⟩, htaken, hothers (by decide)⟩

end Site

end DmaQueues
