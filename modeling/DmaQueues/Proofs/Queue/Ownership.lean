import DmaQueues.Proofs.Queue.Frame

/-!
# The contexts of started queues

A `Session` is a manager at work with the starts and stops that it has carried out. On a
device that is always prompt the contexts are what these leave behind, the newest last
(`Sound.cells`), and the newest about a started queue is its start (`Sound.newest`). So a
queue still has its records, except that the completion context of a queue id is shared:
a completion queue and a card-to-host stream of the same id both own it.
-/

namespace DmaQueues

/-! ## Starts and stops, one after the other -/

namespace QueueEvent

variable {a : Access} {e : QueueEvent} {s : Selector} {q : UInt16}

/-- The queue that the event is about. -/
def key (e : QueueEvent) : UInt16 × QueueType :=
  (e.queue.qid, e.queue.type)

/-- What is left in the cells by events, the newest first. -/
def replay (a : Access) (events : List QueueEvent) (cells : Cells) : Cells :=
  events.foldr (apply a) cells

theorem replay_append (a : Access) (later earlier : List QueueEvent) (cells : Cells) :
    replay a (later ++ earlier) cells = replay a later (replay a earlier cells) :=
  List.foldr_append

/-- Only the cells of a selector matter to it. -/
theorem apply_congr {cells cells' : Cells} (h : cells s = cells' s) :
    e.apply a cells s = e.apply a cells' s := by
  unfold apply
  rw [h]

theorem replay_congr {cells cells' : Cells} (events : List QueueEvent)
    (h : cells s = cells' s) : replay a events cells s = replay a events cells' s := by
  induction events with
  | nil => exact h
  | cons e rest ih => exact apply_congr ih

theorem apply_owned (h : e.owns s q = true) (cells : Cells) :
    e.apply a cells s q = a.packed s (e.record? s) :=
  if_pos h

theorem apply_other (h : e.owns s q = false) (cells : Cells) : e.apply a cells s q = cells s q := by
  unfold apply
  rw [h]
  rfl

end QueueEvent

open QueueEvent

/-- Queues of different kinds share no context but the completion context. -/
theorem Device.shared_context {t t' : QueueType} (ht : t ≠ t') (m m' : Bool) :
    ∀ s ∈ ownedContexts t m, s ∈ ownedContexts t' m' → s = .completion := by
  cases t <;> cases t' <;> first | exact absurd rfl ht | cases m <;> cases m' <;> decide

/-- A queue owns the contexts that its start writes. -/
theorem QueueConfig.records_owned {c : QueueConfig} {type : QueueType} {s : Selector} {r : Record}
    (h : (s, r) ∈ c.records type) :
    s ∈ Device.ownedContexts type c.memoryMapped ∧ (c.records type).lookup s = some r := by
  cases type with
  | h2c =>
    obtain ⟨rfl, rfl⟩ := Prod.mk.inj (List.mem_singleton.1 h)
    exact ⟨List.mem_cons_self, rfl⟩
  | cmpt =>
    obtain ⟨rfl, rfl⟩ := Prod.mk.inj (List.mem_singleton.1 h)
    exact ⟨List.mem_cons_self, rfl⟩
  | c2h =>
    unfold records at h ⊢
    cases hm : c.memoryMapped with
    | true =>
      rw [hm] at h
      obtain ⟨rfl, rfl⟩ := Prod.mk.inj (List.mem_singleton.1 h)
      exact ⟨by decide, rfl⟩
    | false =>
      rw [hm] at h
      rcases List.mem_cons.1 h with h | h
      · obtain ⟨rfl, rfl⟩ := Prod.mk.inj h
        exact ⟨by decide, rfl⟩
      rcases List.mem_cons.1 h with h | h
      · obtain ⟨rfl, rfl⟩ := Prod.mk.inj h
        exact ⟨by decide, rfl⟩
      · obtain ⟨rfl, rfl⟩ := Prod.mk.inj (List.mem_singleton.1 h)
        exact ⟨by decide, rfl⟩

/-- A start leaves its records, and only the completion record can be lost to events about other
queues. -/
theorem QueueEvent.kept_or_covered (a : Access) {q : UInt16} {type : QueueType} {c : QueueConfig}
    (later : List QueueEvent) (hlater : ∀ e ∈ later, e.key ≠ (q, type)) (cells : Cells)
    {s : Selector} {r : Record} (h : (s, r) ∈ c.records type) :
    replay a later ((Device.startEvent q type c).apply a cells) s q = a.packed s (some r) ∨
      s = .completion ∧ ∃ e ∈ later, e.queue.type ≠ type ∧ e.owns .completion q = true := by
  obtain ⟨howned, hlookup⟩ := QueueConfig.records_owned h
  induction later with
  | nil =>
    have howns : (Device.startEvent q type c).owns s q = true :=
      Bool.and_eq_true_iff.2 ⟨beq_self_eq_true q, List.contains_iff_mem.2 howned⟩
    refine .inl ((apply_owned howns cells).trans ?_)
    exact congrArg (a.packed s) hlookup
  | cons e rest ih =>
    cases he : e.owns s q with
    | true =>
      right
      obtain ⟨hqid, hcontext⟩ := Bool.and_eq_true_iff.1 he
      have htype : e.queue.type ≠ type := fun ht =>
        hlater e List.mem_cons_self (Prod.ext (beq_iff_eq.1 hqid) ht)
      obtain rfl := Device.shared_context htype _ _ s (List.contains_iff_mem.1 hcontext) howned
      exact ⟨rfl, e, List.mem_cons_self, htype, he⟩
    | false =>
      rcases ih fun e' he' => hlater e' (List.mem_cons_of_mem _ he') with hkept | ⟨hs, e', he', ho⟩
      · exact .inl ((apply_other he _).trans hkept)
      · exact .inr ⟨hs, e', List.mem_cons_of_mem _ he', ho⟩

namespace Desk

open Device Access

variable {d : Device} {desk : Desk} {card : Card}

/-! ## Tables whose queues can be reached -/

/-- The queues of a table run, differ, and have contexts that commands can name. -/
structure Reachable (d : Device) (slots : List Slot) : Prop where
  running : ∀ slot ∈ slots, slot.running = true
  distinct : (slots.map Slot.key).Nodup
  addressed : ∀ slot ∈ slots, d.access.engine.Addresses slot.queue.qid

theorem Reachable.perm {slots slots' : List Slot} (h : Reachable d slots)
    (hp : slots.Perm slots') : Reachable d slots' where
  running slot hs := h.running slot (hp.mem_iff.2 hs)
  distinct := (hp.map Slot.key).nodup_iff.1 h.distinct
  addressed slot hs := h.addressed slot (hp.mem_iff.2 hs)

theorem reachable_cons {slot : Slot} {rest : List Slot} :
    Reachable d (slot :: rest) ↔ slot.running = true ∧ slot.key ∉ rest.map Slot.key ∧
      d.access.engine.Addresses slot.queue.qid ∧ Reachable d rest := by
  constructor
  · intro h
    have hnodup := List.nodup_cons.1 h.distinct
    exact ⟨h.running slot List.mem_cons_self, hnodup.1, h.addressed slot List.mem_cons_self,
      fun s hs => h.running s (List.mem_cons_of_mem _ hs), hnodup.2,
      fun s hs => h.addressed s (List.mem_cons_of_mem _ hs)⟩
  · rintro ⟨hrun, hkey, haddressed, h⟩
    exact ⟨List.forall_mem_cons.2 ⟨hrun, h.running⟩, List.nodup_cons.2 ⟨hkey, h.distinct⟩,
      List.forall_mem_cons.2 ⟨haddressed, h.addressed⟩⟩

/-- In such a table only the id and the kind of a queue matter to finding it. -/
theorem Reachable.find_running {slots : List Slot} (h : Reachable d slots) (qid : UInt16)
    (type : QueueType) :
    match slots.find? fun s => s.running && s.holds qid type with
    | some slot => slot ∈ slots ∧ slot.key = (qid, type)
    | none => ∀ slot ∈ slots, slot.key ≠ (qid, type) := by
  cases hfind : slots.find? fun s => s.running && s.holds qid type with
  | some slot =>
    have hfound := List.find?_some hfind
    obtain ⟨-, hholds⟩ := Bool.and_eq_true_iff.1 hfound
    exact ⟨List.mem_of_find?_eq_some hfind, Slot.holds_iff.1 hholds⟩
  | none =>
    intro slot hslot hkey
    exact List.find?_eq_none.1 hfind slot hslot
      (Bool.and_eq_true_iff.2 ⟨h.running slot hslot, Slot.holds_iff.2 hkey⟩)

/-! ## Operations on a prompt device -/

theorem program_leads (hp : card.Prompt d.access.poll.attempts) (desk : Desk) (qid : UInt16)
    (type : QueueType) (c : QueueConfig) :
    (desk.program d qid type c).Leads (Card.backend d.access.variant.window) card fun out card' =>
      match out.2 with
      | .ok () => d.access.engine.Addresses qid ∧ d.access.cells card' =
          (startEvent qid type { c with functionId := desk.manager.functionId }).apply d.access
            (d.access.cells card)
      | .error _ => d.access.cells card' = d.access.cells card := by
  unfold program
  refine (Card.leads_offline (offline_change _ _)).bind ?_
  rintro ⟨desk', result⟩ card' rfl
  cases result with
  | error error => exact Script.leads_pure.2 rfl
  | ok _ =>
    refine (startQueue_installs d qid type _ card' hp).bind fun started card'' hs => ?_
    cases started with
    | ok _ => exact Script.leads_pure.2 hs
    | error error =>
      refine (Card.leads_offline (offline_dropActive _ _ _)).bind ?_
      rintro desk'' card''' rfl
      exact Script.leads_pure.2 hs.2

/-- A start changes the contexts of its queue, or fails and changes none. -/
theorem start_leads (hv : desk.registry.Valid) (hp : card.Prompt d.access.poll.attempts)
    (hwQid : Nat) (type : QueueType) (c : QueueConfig) :
    (desk.start d hwQid type c).Leads (Card.backend d.access.variant.window) card fun out card' =>
      match out.2 with
      | .ok () => d.access.engine.Addresses (UInt16.ofNat hwQid) ∧ d.access.cells card' =
          (startEvent (UInt16.ofNat hwQid) type
            { c with functionId := desk.manager.functionId }).apply d.access (d.access.cells card)
      | .error _ => d.access.cells card' = d.access.cells card := by
  unfold start
  refine ((Script.Leads.of_ends (checkRange_spec hv hwQid)).and
    (Card.leads_offline (offline_checkRange _ _))).bind ?_
  rintro checked card' ⟨hchecked, rfl⟩
  cases checked with
  | error error => exact Script.leads_pure.2 rfl
  | ok qid =>
    obtain rfl : UInt16.ofNat hwQid = qid := by
      rw [← (hchecked qid rfl).1, UInt16.ofNat_toNat]
    by_cases htaken : (desk.manager.slots.any fun s => s.holds (UInt16.ofNat hwQid) type) = true
    · simp only [if_pos htaken]
      exact Script.leads_pure.2 rfl
    · simp only [if_neg htaken]
      refine (program_leads hp _ (UInt16.ofNat hwQid) type c).bind ?_
      rintro ⟨desk', result⟩ card'' hprogram
      cases result <;> exact Script.leads_pure.2 hprogram

/-- A stop of a started queue takes it from the table and clears its contexts; there is nothing to
stop otherwise. -/
theorem stop_leads (ht : Reachable d desk.manager.slots)
    (hp : card.Prompt d.access.poll.attempts) (hwQid : Nat) (type : QueueType) :
    (desk.stop d hwQid type).Leads (Card.backend d.access.variant.window) card fun out card' =>
      (out.1 = desk ∧ d.access.cells card' = d.access.cells card ∧
        ∀ slot ∈ desk.manager.slots,
          ¬ (slot.queue.qid.toNat = hwQid ∧ slot.queue.type = type)) ∨
      ∃ slot, slot.queue.qid.toNat = hwQid ∧ slot.queue.type = type ∧
        desk.manager.slots.Perm (slot :: out.1.manager.slots) ∧
        d.access.cells card' = (stopEvent slot.queue).apply d.access (d.access.cells card) := by
  unfold stop
  by_cases hlt : hwQid < UInt16.size
  · simp only [if_pos hlt]
    have hqid : (UInt16.ofNat hwQid).toNat = hwQid := UInt16.toNat_ofNat_of_lt' hlt
    have hfound := ht.find_running (UInt16.ofNat hwQid) type
    cases hfind : desk.manager.slots.find? fun s =>
        s.running && s.holds (UInt16.ofNat hwQid) type with
    | none =>
      rw [hfind] at hfound
      refine Script.leads_pure.2 (.inl ⟨rfl, rfl, ?_⟩)
      rintro slot hslot ⟨hq, rfl⟩
      exact hfound slot hslot (Prod.ext (UInt16.toNat_inj.1 (hq.trans hqid.symm)) rfl)
    | some slot =>
      rw [hfind] at hfound
      obtain ⟨hslot, hkey⟩ := hfound
      have hq : slot.queue.qid = UInt16.ofNat hwQid := congrArg Prod.fst hkey
      have htype : slot.queue.type = type := congrArg Prod.snd hkey
      have hperm := Manager.stopped_perm ht.distinct hslot (Slot.holds_iff.2 hkey)
      have hstop := stopQueue_succeeds d slot.queue (ht.addressed slot hslot) card hp
      rw [hq, htype] at hstop
      refine hstop.bind ?_
      rintro result card' ⟨-, hcells⟩
      refine ((Script.Leads.of_ends (ends_dropActive (P := fun back : Desk =>
        back.manager = desk.manager.mark (UInt16.ofNat hwQid) type false)
          fun _ _ => rfl)).and (Card.leads_offline (offline_dropActive _ _ _))).bind ?_
      rintro back card'' ⟨hback, rfl⟩
      refine Script.leads_pure.2 (.inr ⟨slot, by rw [hq, hqid], htype, ?_, hcells⟩)
      rw [hback]
      exact hperm
  · simp only [if_neg hlt]
    refine Script.leads_pure.2 (.inl ⟨rfl, rfl, ?_⟩)
    rintro slot - ⟨hq, -⟩
    exact hlt (hq ▸ slot.queue.qid.toNat_lt)

/-- Stopping the queues of a table one by one empties it. -/
theorem stopEach_leads (ht : Reachable d desk.manager.slots)
    (hp : card.Prompt d.access.poll.attempts) {queues : List StartedQueue}
    (hqueues : (desk.manager.slots.map Slot.queue).Perm queues) :
    (desk.stopEach d queues).Leads (Card.backend d.access.variant.window) card fun out card' =>
      out.1.manager.slots = [] ∧
        d.access.cells card' = replay d.access (queues.reverse.map stopEvent)
          (d.access.cells card) := by
  induction queues generalizing desk card with
  | nil => exact Script.leads_pure.2 ⟨List.map_eq_nil_iff.1 hqueues.eq_nil, rfl⟩
  | cons q rest ih =>
    obtain ⟨slot, hslot, rfl⟩ := List.mem_map.1 (hqueues.mem_iff.2 List.mem_cons_self)
    unfold stopEach
    refine ((hp.leads _).and (stop_leads ht hp _ _)).bind ?_
    rintro ⟨desk', first⟩ card' ⟨hp', ⟨-, -, hnone⟩ | ⟨stopped, hq, htype, hperm, hcells⟩⟩
    · exact absurd ⟨rfl, rfl⟩ (hnone slot hslot)
    · have hkey : stopped.key = slot.key := Prod.ext (UInt16.toNat_inj.1 hq) htype
      have hmem : stopped ∈ desk.manager.slots := hperm.mem_iff.2 List.mem_cons_self
      obtain rfl := List.inj_on_of_nodup_map ht.distinct hmem hslot hkey
      have hrest := (hperm.map Slot.queue).symm.trans hqueues
      have hreachable := (reachable_cons.1 (ht.perm hperm)).2.2.2
      refine (ih hreachable hp' hrest.cons_inv).bind ?_
      rintro ⟨desk'', later⟩ card'' ⟨hempty, hcells'⟩
      have hall : d.access.cells card'' = replay d.access
          ((stopped.queue :: rest).reverse.map stopEvent) (d.access.cells card) := by
        rw [List.reverse_cons, List.map_append, replay_append, hcells', hcells]
        rfl
      cases first <;> exact Script.leads_pure.2 ⟨hempty, hall⟩

theorem Reachable.started_eq {m : Manager} (h : Reachable d m.slots) :
    m.started = m.slots.map Slot.queue := by
  unfold Manager.started
  rw [List.filter_eq_self.2 h.running]

/-- Only one queue of a table has its id and kind. -/
theorem Reachable.filter_queue {slots rest : List Slot} {slot : Slot} (h : Reachable d slots)
    (hperm : slots.Perm (slot :: rest)) {hwQid : Nat} {type : QueueType}
    (hq : slot.queue.qid.toNat = hwQid) (htype : slot.queue.type = type) :
    (slots.map Slot.queue).filter (fun q => q.qid.toNat == hwQid && q.type == type) =
      [slot.queue] := by
  obtain ⟨-, hkey, -, -⟩ := reachable_cons.1 (h.perm hperm)
  refine List.perm_singleton.1 (((hperm.map Slot.queue).filter _).trans ?_)
  rw [List.map_cons, List.filter_cons_of_pos (by simp [hq, htype]), List.filter_eq_nil_iff.2]
  rintro q hmem hsame
  obtain ⟨other, hother, rfl⟩ := List.mem_map.1 hmem
  obtain ⟨hq', htype'⟩ : other.queue.qid.toNat = hwQid ∧ other.queue.type = type := by
    simpa using hsame
  refine hkey (List.mem_map.2 ⟨other, hother, ?_⟩)
  exact Prod.ext (UInt16.toNat_inj.1 (hq'.trans hq.symm)) (htype'.trans htype.symm)

/-! ## The registry -/

theorem stop_valid (hv : desk.registry.Valid) (hwQid : Nat) (type : QueueType) :
    (desk.stop d hwQid type).Ends fun out => out.1.registry.Valid := by
  refine (stop_spec desk hwQid type).mono ?_
  rintro ⟨desk', result⟩ (⟨rfl, -⟩ | ⟨qid, -, -, ⟨reply, hr, hregistry⟩, -⟩)
  · exact hv
  · rw [hregistry]
    exact (hv.decrementActive_kept hr).valid

theorem stopEach_valid (hv : desk.registry.Valid) (queues : List StartedQueue) :
    (desk.stopEach d queues).Ends fun out => out.1.registry.Valid := by
  induction queues generalizing desk with
  | nil => exact hv
  | cons q rest ih =>
    unfold stopEach
    refine (stop_valid hv _ _).bind ?_
    rintro ⟨desk', first⟩ hv'
    refine (ih hv').bind ?_
    rintro ⟨desk'', later⟩ hv''
    cases first <;> exact hv''

/-! ## What a manager is asked to do -/

inductive Act where
  /-- A call of the registry by someone else. -/
  | direct (c : Registry.Call)
  | setRange (count : Nat) (hint : Option Nat)
  | start (hwQid : Nat) (type : QueueType) (c : QueueConfig)
  | stop (hwQid : Nat) (type : QueueType)
  | stopAll

/-- A call of the registry, which is none of the business of the manager. -/
def direct (desk : Desk) (c : Registry.Call) : Script Desk := do
  let reply ← desk.registry.step c
  Script.notices reply.notices
  return { desk with registry := reply.state }

theorem offline_direct (desk : Desk) (c : Registry.Call) : (desk.direct c).Offline := by
  show (Script.ofChecked (desk.registry.step c) >>= fun reply => Script.notices reply.notices >>=
    fun _ => pure { desk with registry := reply.state }).Offline
  exact (Script.offline_ofChecked _).bind fun _ => (Script.offline_notices _).bind fun _ => trivial

theorem direct_spec (hv : desk.registry.Valid) (c : Registry.Call) :
    (desk.direct c).Ends fun desk' => desk'.registry.Valid ∧ desk'.manager = desk.manager := by
  show (Script.ofChecked (desk.registry.step c) >>= fun reply => Script.notices reply.notices >>=
    fun _ => pure { desk with registry := reply.state }).Ends _
  refine Script.ends_bind.2 (Script.ends_ofChecked.2 fun reply hr => ?_)
  exact Script.ends_notices_bind ⟨(Checked.of_fault_or_exists (hv.step_spec c) hr).1, rfl⟩

def perform (d : Device) (desk : Desk) : Act → Script (Desk × Except QueueError Unit)
  | .direct c => return (← desk.direct c, .ok ())
  | .setRange count hint => do
    let (desk, result) ← desk.setRange d count hint
    return (desk, result.map fun _ => ())
  | .start hwQid type c => desk.start d hwQid type c
  | .stop hwQid type => desk.stop d hwQid type
  | .stopAll => desk.stopAll d

/-- The starts and stops that an act with such a result has carried out, newest first. A queue is
stopped whatever the result. -/
def events (desk : Desk) (result : Except QueueError Unit) : Act → List QueueEvent
  | .start hwQid type c =>
    match result with
    | .ok () =>
      [startEvent (UInt16.ofNat hwQid) type { c with functionId := desk.manager.functionId }]
    | .error _ => []
  | .stop hwQid type =>
    (desk.manager.started.filter fun q => q.qid.toNat == hwQid && q.type == type).map stopEvent
  | .stopAll => desk.manager.started.reverse.map stopEvent
  | .direct _ | .setRange _ _ => []

end Desk

/-- A manager at work, with its starts and stops so far, newest first. -/
structure Session where
  desk : Desk
  past : List QueueEvent := []

namespace Session

open Device Access Desk

def step (d : Device) (s : Session) (act : Desk.Act) : Script Session := do
  let (desk, result) ← s.desk.perform d act
  return ⟨desk, s.desk.events result act ++ s.past⟩

def run (d : Device) (s : Session) : List Desk.Act → Script Session
  | [] => return s
  | act :: acts => do (← s.step d act).run d acts

/-- The contexts are those that the past left behind, and the table tells which queues it left
running. -/
structure Sound (d : Device) (initial : Cells) (card : Card) (s : Session) : Prop where
  prompt : card.Prompt d.access.poll.attempts
  registry : s.desk.registry.Valid
  cells : ∀ sel, sel ≠ .functionMap →
    d.access.cells card sel = replay d.access s.past initial sel
  reachable : Reachable d s.desk.manager.slots
  newest : ∀ slot ∈ s.desk.manager.slots, ∃ c : QueueConfig,
    s.past.find? (fun e => e.key == slot.key) =
      some (startEvent slot.queue.qid slot.queue.type c) ∧
    c.memoryMapped = slot.queue.memoryMapped

variable {d : Device} {initial : Cells} {card card' : Card} {s : Session} {desk' : Desk}

/-- What starts and stops no queue. -/
theorem Sound.quiet (h : s.Sound d initial card) (hp : card'.Prompt d.access.poll.attempts)
    (hregistry : desk'.registry.Valid) (hmanager : desk'.manager = s.desk.manager)
    (hcells : ∀ sel, sel ≠ .functionMap → d.access.cells card' sel = d.access.cells card sel) :
    Sound d initial card' ⟨desk', s.past⟩ where
  prompt := hp
  registry := hregistry
  cells sel hsel := (hcells sel hsel).trans (h.cells sel hsel)
  reachable := by
    rw [hmanager]
    exact h.reachable
  newest := by
    rw [hmanager]
    exact h.newest

/-- A start adds a queue that was not in the table. -/
theorem Sound.started (h : s.Sound d initial card) (hp : card'.Prompt d.access.poll.attempts)
    (hregistry : desk'.registry.Valid) {qid : UInt16} {type : QueueType} {c : QueueConfig}
    (hfree : ∀ slot ∈ s.desk.manager.slots, ¬ slot.holds qid type)
    (hslots : desk'.manager.slots =
      s.desk.manager.slots ++ [⟨⟨qid, type, c.memoryMapped⟩, true⟩])
    (haddressed : d.access.engine.Addresses qid)
    (hcells : d.access.cells card' = (startEvent qid type c).apply d.access (d.access.cells card)) :
    Sound d initial card' ⟨desk', startEvent qid type c :: s.past⟩ := by
  have hother : ∀ slot ∈ s.desk.manager.slots, slot.key ≠ (qid, type) := fun slot hslot hkey =>
    hfree slot hslot (Slot.holds_iff.2 hkey)
  refine ⟨hp, hregistry, fun sel hsel => ?_, ?_, ?_⟩
  · rw [hcells]
    exact apply_congr (h.cells sel hsel)
  · rw [hslots]
    refine Reachable.perm (reachable_cons.2 ⟨rfl, ?_, haddressed, h.reachable⟩)
      (List.perm_append_singleton _ _).symm
    intro hkey
    obtain ⟨slot, hslot, hsame⟩ := List.mem_map.1 hkey
    exact hother slot hslot hsame
  · rw [hslots]
    intro slot hslot
    rcases List.mem_append.1 hslot with hslot | hslot
    · obtain ⟨c', hfind, hm⟩ := h.newest slot hslot
      refine ⟨c', ?_, hm⟩
      rw [List.find?_cons_of_neg (by simpa [startEvent, key] using (hother slot hslot).symm)]
      exact hfind
    · rw [List.mem_singleton.1 hslot]
      exact ⟨c, List.find?_cons_of_pos (by simp [startEvent, key, Slot.key]), rfl⟩

/-- A stop takes a queue from the table. -/
theorem Sound.stopped (h : s.Sound d initial card) (hp : card'.Prompt d.access.poll.attempts)
    (hregistry : desk'.registry.Valid) {slot : Slot}
    (hperm : s.desk.manager.slots.Perm (slot :: desk'.manager.slots))
    (hcells : d.access.cells card' =
      (stopEvent slot.queue).apply d.access (d.access.cells card)) :
    Sound d initial card' ⟨desk', stopEvent slot.queue :: s.past⟩ := by
  obtain ⟨-, hkey, -, hreachable⟩ := reachable_cons.1 (h.reachable.perm hperm)
  refine ⟨hp, hregistry, fun sel hsel => ?_, hreachable, fun other hother => ?_⟩
  · rw [hcells]
    exact apply_congr (h.cells sel hsel)
  · obtain ⟨c, hfind, hm⟩ := h.newest other (hperm.mem_iff.2 (List.mem_cons_of_mem _ hother))
    have hne : slot.key ≠ other.key := fun heq => hkey (heq ▸ List.mem_map_of_mem hother)
    refine ⟨c, ?_, hm⟩
    rw [List.find?_cons_of_neg (by simpa [stopEvent, key, Slot.key] using hne)]
    exact hfind

/-! ## Acts keep a session sound -/

theorem Sound.setRange (h : s.Sound d initial card) (count : Nat) (hint : Option Nat) :
    (s.step d (.setRange count hint)).Leads (Card.backend d.access.variant.window) card
      fun s' card' => s'.Sound d initial card' := by
  have hrange : (s.desk.setRange d count hint).Leads (Card.backend d.access.variant.window) card
      fun out card' => Sound d initial card' ⟨out.1, s.past⟩ := by
    refine ((h.prompt.leads _).and ((setRange_sparesContexts d s.desk count hint card).and
      (Script.Leads.of_ends (setRange_spec h.registry count hint)))).mono ?_
    rintro ⟨desk', result⟩ card' ⟨hp, hcells, hmanager, hkept, -⟩
    exact h.quiet hp hkept.valid hmanager hcells
  refine (hrange.bind (R := fun out card' => Sound d initial card' ⟨out.1, s.past⟩) ?_).bind ?_
  · exact fun out card' hs => Script.leads_pure.2 hs
  · exact fun out card' hs => Script.leads_pure.2 hs

theorem Sound.start (h : s.Sound d initial card) (hwQid : Nat) (type : QueueType)
    (c : QueueConfig) :
    (s.step d (.start hwQid type c)).Leads (Card.backend d.access.variant.window) card
      fun s' card' => s'.Sound d initial card' := by
  refine ((h.prompt.leads _).and ((start_leads h.registry h.prompt hwQid type c).and
    (Script.Leads.of_ends (start_spec h.registry hwQid type c)))).bind ?_
  rintro ⟨desk', result⟩ card' ⟨hp, hcells, hspec⟩
  refine Script.leads_pure.2 ?_
  cases result with
  | error error =>
    obtain rfl := hspec
    exact h.quiet hp h.registry rfl fun sel _ => by rw [hcells]
  | ok _ =>
    obtain ⟨qid, rfl, -, hfree, ⟨notices, hcount⟩, hmanager⟩ := hspec
    rw [UInt16.ofNat_toNat] at hcells
    have hvalid := (h.registry.incrementActive_kept hcount).valid
    have hslots := congrArg Manager.slots hmanager
    show Sound d initial card' ⟨desk', [startEvent (UInt16.ofNat qid.toNat) type _] ++ s.past⟩
    rw [UInt16.ofNat_toNat]
    exact h.started hp hvalid hfree hslots hcells.1 hcells.2

theorem Sound.direct (h : s.Sound d initial card) (c : Registry.Call) :
    (s.step d (.direct c)).Leads (Card.backend d.access.variant.window) card
      fun s' card' => s'.Sound d initial card' := by
  have hdirect : (s.desk.direct c).Leads (Card.backend d.access.variant.window) card
      fun desk' card' => Sound d initial card' ⟨desk', s.past⟩ := by
    refine ((Card.leads_offline (offline_direct s.desk c)).and
      (Script.Leads.of_ends (direct_spec h.registry c))).mono ?_
    rintro desk' card' ⟨rfl, hvalid, hmanager⟩
    exact h.quiet h.prompt hvalid hmanager fun _ _ => rfl
  refine (hdirect.bind (R := fun out card' => Sound d initial card' ⟨out.1, s.past⟩) ?_).bind ?_
  · exact fun desk' card' hs => Script.leads_pure.2 hs
  · exact fun out card' hs => Script.leads_pure.2 hs

theorem Sound.stop (h : s.Sound d initial card) (hwQid : Nat) (type : QueueType) :
    (s.step d (.stop hwQid type)).Leads (Card.backend d.access.variant.window) card
      fun s' card' => s'.Sound d initial card' := by
  refine ((h.prompt.leads _).and ((stop_leads h.reachable h.prompt hwQid type).and
    (Script.Leads.of_ends (stop_valid h.registry hwQid type)))).bind ?_
  rintro ⟨desk', result⟩ card'
    ⟨hp, ⟨hsame, hcells, hnone⟩ | ⟨slot, hq, htype, hperm, hcells⟩, hvalid⟩
  · obtain rfl := hsame
    refine Script.leads_pure.2 ?_
    show Sound d initial card' ⟨s.desk, List.map stopEvent (List.filter _ _) ++ s.past⟩
    rw [h.reachable.started_eq, List.filter_eq_nil_iff.2]
    · exact h.quiet hp h.registry rfl fun sel _ => by rw [hcells]
    · rintro q hmem hkey
      obtain ⟨slot, hslot, rfl⟩ := List.mem_map.1 hmem
      exact hnone slot hslot (by simpa using hkey)
  · refine Script.leads_pure.2 ?_
    show Sound d initial card' ⟨desk', List.map stopEvent (List.filter _ _) ++ s.past⟩
    rw [h.reachable.started_eq, h.reachable.filter_queue hperm hq htype]
    exact h.stopped hp hvalid hperm hcells

theorem Sound.stopAll (h : s.Sound d initial card) :
    (s.step d .stopAll).Leads (Card.backend d.access.variant.window) card
      fun s' card' => s'.Sound d initial card' := by
  have hqueues : (s.desk.manager.slots.map Slot.queue).Perm s.desk.manager.started := by
    rw [h.reachable.started_eq]
  refine ((h.prompt.leads _).and ((stopEach_leads h.reachable h.prompt hqueues).and
    (Script.Leads.of_ends (stopEach_valid h.registry _)))).bind ?_
  rintro ⟨desk', result⟩ card' ⟨hp, ⟨hempty, hcells⟩, hvalid⟩
  refine Script.leads_pure.2 ⟨hp, hvalid, fun sel hsel => ?_, ?_, ?_⟩
  · show d.access.cells card' sel =
      replay d.access (List.map stopEvent s.desk.manager.started.reverse ++ s.past) initial sel
    rw [replay_append, hcells]
    exact replay_congr _ (h.cells sel hsel)
  · rw [hempty]
    exact ⟨nofun, .nil, nofun⟩
  · rw [hempty]
    exact nofun

theorem Sound.step (h : s.Sound d initial card) (act : Desk.Act) :
    (s.step d act).Leads (Card.backend d.access.variant.window) card
      fun s' card' => s'.Sound d initial card' := by
  cases act with
  | direct c => exact h.direct c
  | setRange count hint => exact h.setRange count hint
  | start hwQid type c => exact h.start hwQid type c
  | stop hwQid type => exact h.stop hwQid type
  | stopAll => exact h.stopAll

theorem Sound.run (h : s.Sound d initial card) (acts : List Desk.Act) :
    (s.run d acts).Leads (Card.backend d.access.variant.window) card
      fun s' card' => s'.Sound d initial card' := by
  induction acts generalizing s card with
  | nil => exact Script.leads_pure.2 h
  | cons act acts ih => exact (h.step act).bind fun s' card' hs => ih hs

/-- The manager of a function before it is asked to do anything, with an empty registry. -/
def fresh (policy : RequestPolicy) (group : GroupHandle) (functionId : UInt16) : Session :=
  ⟨⟨.fresh policy, { group, functionId }⟩, []⟩

/-- Over every run on a prompt device, a queue that is in the table was started, and not stopped or
started since. Each context that this start wrote still holds its record, or it is the completion
context and a queue of another kind with the same id, which owns it too, was started or stopped
since. -/
theorem started_contexts (policy : RequestPolicy) (group : GroupHandle) (functionId : UInt16)
    (acts : List Desk.Act) (hp : card.Prompt d.access.poll.attempts)
    (hr : ((fresh policy group functionId).run d acts).run
      (Card.backend d.access.variant.window) card = (.ok s, card')) :
    ∀ q ∈ s.desk.manager.started, ∃ c later earlier,
      s.past = later ++ startEvent q.qid q.type c :: earlier ∧
      c.memoryMapped = q.memoryMapped ∧ (∀ e ∈ later, e.key ≠ (q.qid, q.type)) ∧
      ∀ sel r, (sel, r) ∈ c.records q.type →
        d.access.cells card' sel q.qid = d.access.packed sel (some r) ∨
        sel = .completion ∧ ∃ e ∈ later, e.queue.type ≠ q.type ∧
          e.owns .completion q.qid = true := by
  have hfresh : (fresh policy group functionId).Sound d (d.access.cells card) card :=
    ⟨hp, Registry.valid_fresh policy, fun _ _ => rfl, ⟨nofun, .nil, nofun⟩, nofun⟩
  have hs := hfresh.run acts s card' hr
  intro q hq
  rw [hs.reachable.started_eq] at hq
  obtain ⟨slot, hslot, rfl⟩ := List.mem_map.1 hq
  obtain ⟨c, hfind, hm⟩ := hs.newest slot hslot
  obtain ⟨-, later, earlier, hpast, hlater⟩ := List.find?_eq_some_iff_append.1 hfind
  have hkeys : ∀ e ∈ later, e.key ≠ (slot.queue.qid, slot.queue.type) := fun e he => by
    simpa [Slot.key] using hlater e he
  refine ⟨c, later, earlier, hpast, hm, hkeys, fun sel r hsel => ?_⟩
  have hmaps : sel ≠ .functionMap := fun heq =>
    ne_functionMap (queueContext_owned _ _ sel (QueueConfig.records_owned hsel).1) heq
  rw [hs.cells sel hmaps, hpast, replay_append]
  exact kept_or_covered d.access later hkeys _ hsel

/-- A card-to-host stream and a completion queue of the same id; the latter is stopped again. -/
def sharedId : List Desk.Act :=
  [.direct (.createGroup ⟨1, 2⟩ 0 8), .direct (.change ⟨⟨1, 2⟩, 0⟩ (.createFunction 1)),
    .setRange 4 none, .start 1 .c2h {}, .start 1 .cmpt {}, .stop 1 .cmpt]

theorem shared_id_contexts :
    ∃ s card, ((fresh .transactional ⟨⟨1, 2⟩, 0⟩ 1).run softDevice sharedId).run
        (Card.backend .soft) {} = (.ok s, card) ∧
      s.desk.manager.started = [⟨1, .c2h, false⟩] ∧
      ∃ c later earlier, s.past = later ++ startEvent 1 .c2h c :: earlier ∧
        ∀ sel r, (sel, r) ∈ c.records .c2h → sel ≠ .completion →
          softDevice.access.cells card sel 1 = softDevice.access.packed sel (some r) := by
  have hreturns : ((fresh .transactional ⟨⟨1, 2⟩, 0⟩ 1).run softDevice sharedId).Returns
      (Card.backend .soft) {} fun s _ => s.desk.manager.started = [⟨1, .c2h, false⟩] := by
    decide +kernel
  obtain ⟨s, card, hrun, hstarted⟩ := hreturns
  have hprompt : ({} : Card).Prompt softDevice.access.poll.attempts :=
    fun _ _ => ⟨0, Nat.zero_le _, rfl⟩
  obtain ⟨c, later, earlier, hpast, -, -, hkept⟩ :=
    started_contexts .transactional ⟨⟨1, 2⟩, 0⟩ 1 sharedId hprompt hrun ⟨1, .c2h, false⟩
      (by rw [hstarted]; exact List.mem_singleton.2 rfl)
  refine ⟨s, card, hrun, hstarted, c, later, earlier, hpast, fun sel r hsel hne => ?_⟩
  exact (hkept sel r hsel).resolve_right fun h => hne h.1

/-- The stream is still running, but its completion record is gone. -/
theorem completion_stop_clears_stream :
    ∃ s card, ((fresh .transactional ⟨⟨1, 2⟩, 0⟩ 1).run softDevice sharedId).run
        (Card.backend .soft) {} = (.ok s, card) ∧
      s.desk.manager.started = [⟨1, .c2h, false⟩] ∧
      s.past = [stopEvent ⟨1, .cmpt, false⟩, startEvent 1 .cmpt { functionId := 1 },
        startEvent 1 .c2h { functionId := 1 }] ∧
      softDevice.access.cells card .completion 1 ≠ softDevice.access.packed .completion
        (some (.completion (({ functionId := 1 } : QueueConfig).completion true))) := by
  have hreturns : ((fresh .transactional ⟨⟨1, 2⟩, 0⟩ 1).run softDevice sharedId).Returns
      (Card.backend .soft) {} fun s card => s.desk.manager.started = [⟨1, .c2h, false⟩] ∧
        s.past = [stopEvent ⟨1, .cmpt, false⟩, startEvent 1 .cmpt { functionId := 1 },
          startEvent 1 .c2h { functionId := 1 }] ∧
        softDevice.access.cells card .completion 1 ≠ softDevice.access.packed .completion
          (some (.completion (({ functionId := 1 } : QueueConfig).completion true))) := by
    decide +kernel
  exact hreturns

end Session

end DmaQueues
