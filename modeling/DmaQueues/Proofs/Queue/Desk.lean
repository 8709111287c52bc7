import DmaQueues.Proofs.Queue.Table
import DmaQueues.Proofs.Script

/-!
# What the operations of a manager do

Each operation is specified by what it ends in, whatever the device answers. A failed
`start` leaves the registry and the table as they were (`start_spec`), a started queue
that is stopped leaves both even if its contexts could not be cleared (`stop_spec`), and
`setRange` never touches a function with started queues. `Moved` is what they have in
common: only the function of the manager changes, and its table agrees with the registry.
-/

namespace DmaQueues.Desk

variable {α : Type} {d : Device} {desk desk' : Desk}

/-- What the registry knows of the function. -/
def lookup? (desk : Desk) : Option FunctionEntry :=
  desk.registry.lookup? desk.manager.group desk.manager.functionId

structure Valid (desk : Desk) : Prop where
  registry : desk.registry.Valid
  agrees : Agrees desk.lookup? desk.manager.slots

/-- The manager worked on its function. -/
structure Moved (desk desk' : Desk) : Prop where
  group : desk'.manager.group = desk.manager.group
  functionId : desk'.manager.functionId = desk.manager.functionId
  kept : Registry.Kept desk.manager.group desk.manager.functionId desk.registry desk'.registry
  agrees : Agrees desk'.lookup? desk'.manager.slots

theorem Moved.refl (h : desk.Valid) : desk.Moved desk :=
  ⟨rfl, rfl, .refl h.registry, h.agrees⟩

theorem Moved.valid (hm : desk.Moved desk') : desk'.Valid :=
  ⟨hm.kept.valid, hm.agrees⟩

theorem Moved.trans {desk'' : Desk} (hm : desk.Moved desk') (hm' : desk'.Moved desk'') :
    desk.Moved desk'' where
  group := hm'.group.trans hm.group
  functionId := hm'.functionId.trans hm.functionId
  kept := by
    have hk := hm'.kept
    rw [hm.group, hm.functionId] at hk
    exact hm.kept.trans hk
  agrees := hm'.agrees

/-! ## Changes of the registry -/

theorem ends_change {op : Checked (Reply Registry ResourceError α)}
    {P : Desk × Except ResourceError α → Prop}
    (h : ∀ reply, op = .ok reply → P ({ desk with registry := reply.state }, reply.result)) :
    (desk.change op).Ends P := by
  show (Script.ofChecked op >>= fun reply => Script.notices reply.notices >>= fun _ =>
    pure ({ desk with registry := reply.state }, reply.result)).Ends P
  refine Script.ends_bind.2 (Script.ends_ofChecked.2 fun reply hr => ?_)
  exact Script.ends_notices_bind (h reply hr)

/-- Another range for the function, which has no active queues or keeps its range. -/
theorem update_spec (hv : desk.registry.Valid) (count : Nat) (hint : Option Nat) :
    (desk.update count hint).Ends fun out =>
      out.1.manager = desk.manager ∧
        Registry.Kept desk.manager.group desk.manager.functionId desk.registry out.1.registry ∧
        Quiet desk.lookup? out.1.lookup? := by
  refine ends_change fun reply hr => ?_
  obtain ⟨hkept, hquiet⟩ := hv.updateFunction_kept hr
  exact ⟨rfl, hkept, hquiet⟩

theorem ends_dropActive {qid : UInt16} {type : QueueType} {P : Desk → Prop}
    (h : ∀ reply, desk.registry.decrementActive desk.manager.group desk.manager.functionId type =
      .ok reply → P { desk with registry := reply.state }) :
    (desk.dropActive qid type).Ends P := by
  unfold dropActive
  have hchange : (desk.change (desk.registry.decrementActive desk.manager.group
      desk.manager.functionId type)).Ends fun out => P out.1 := ends_change h
  refine hchange.bind ?_
  rintro ⟨desk', result⟩ hp
  cases result with
  | ok _ => exact hp
  | error error => exact Script.ends_bind_of_forall fun _ => hp

/-! ## The range of the function -/

/-- Nothing but the range of an idle function changes. -/
def Ranged (desk desk' : Desk) : Prop :=
  desk'.manager = desk.manager ∧
    Registry.Kept desk.manager.group desk.manager.functionId desk.registry desk'.registry ∧
    Quiet desk.lookup? desk'.lookup?

theorem Ranged.trans {desk'' : Desk} (h : desk.Ranged desk') (h' : desk'.Ranged desk'') :
    desk.Ranged desk'' := by
  obtain ⟨hm, hk, hq⟩ := h
  obtain ⟨hm', hk', hq'⟩ := h'
  rw [hm] at hk'
  exact ⟨hm'.trans hm, hk.trans hk', hq.trans hq'⟩

theorem Ranged.moved (h : desk.Ranged desk') (hv : desk.Valid) : desk.Moved desk' := by
  obtain ⟨hm, hk, hq⟩ := h
  exact ⟨by rw [hm], by rw [hm], hk, by rw [hm]; exact hv.agrees.quiet hq⟩

/-- The request for the range that the function had before. -/
def askBack (desk : Desk) : Option QueueRange →
    Script (Desk × Except ResourceError (Option QueueRange))
  | some r => desk.update r.count (some r.base)
  | none => desk.update 0 none

/-- Notices an answer that is not that range. -/
def settle (functionId : UInt16) (before : Option QueueRange)
    (out : Desk × Except ResourceError (Option QueueRange)) : Script Desk := do
  match out.2 with
  | .ok now =>
    if now = before then
      return out.1
    else
      Script.notice (.rangeNotRestored functionId before now)
      return out.1
  | .error error =>
    Script.notice (.rangeRestoreFailed functionId before error)
    return out.1

theorem restore_eq (desk : Desk) (before : Option QueueRange) :
    desk.restore before = desk.askBack before >>= settle desk.manager.functionId before := by
  cases before <;> rfl

theorem settle_spec (functionId : UInt16) (before : Option QueueRange)
    (out : Desk × Except ResourceError (Option QueueRange)) :
    (settle functionId before out).Ends fun desk' => desk' = out.1 := by
  obtain ⟨desk', result⟩ := out
  cases result with
  | error error => exact Script.ends_bind_of_forall fun _ => rfl
  | ok now =>
    unfold settle
    by_cases hnow : now = before
    · simp only [if_pos hnow]
      rfl
    · simp only [if_neg hnow]
      exact Script.ends_bind_of_forall fun _ => rfl

theorem restore_spec (hv : desk.registry.Valid) (before : Option QueueRange) :
    (desk.restore before).Ends desk.Ranged := by
  have hback : (desk.askBack before).Ends fun out => desk.Ranged out.1 := by
    cases before with
    | some r => exact update_spec hv _ _
    | none => exact update_spec hv _ _
  rw [restore_eq]
  refine hback.bind fun out hr => ?_
  exact (settle_spec _ before out).mono fun desk' heq => heq ▸ hr

theorem setRange_spec (hv : desk.registry.Valid) (count : Nat) (hint : Option Nat) :
    (desk.setRange d count hint).Ends fun out => desk.Ranged out.1 := by
  unfold setRange
  cases desk.range with
  | error error => exact ⟨rfl, .refl hv, .refl _⟩
  | ok before =>
    refine (update_spec hv count hint).bind ?_
    rintro ⟨desk', result⟩ hr
    cases result with
    | error error => exact hr
    | ok range =>
      refine Script.ends_bind_of_forall fun mapped => ?_
      cases mapped with
      | ok _ => exact hr
      | error error =>
        exact (restore_spec hr.2.1.valid before).bind fun desk'' hb => Ranged.trans hr hb

theorem setRange_moved (hv : desk.Valid) (count : Nat) (hint : Option Nat) :
    (desk.setRange d count hint).Ends fun out => desk.Moved out.1 :=
  (setRange_spec hv.registry count hint).mono fun _ h => h.moved hv

/-! ## Starting a queue -/

/-- `desk'` has counted one more active queue of the function. -/
def Counted (desk : Desk) (type : QueueType) (desk' : Desk) : Prop :=
  ∃ notices, desk.registry.incrementActive desk.manager.group desk.manager.functionId type =
    .ok ⟨desk'.registry, .ok (), notices⟩

/-- Programming fails as a whole or succeeds as a whole, as far as the registry knows. -/
theorem program_spec (desk : Desk) (hv : desk.registry.Valid) (qid : UInt16) (type : QueueType)
    (c : QueueConfig) :
    (desk.program d qid type c).Ends fun out =>
      match out.2 with
      | .error _ => out.1 = desk
      | .ok () => out.1.manager = desk.manager ∧ desk.Counted type out.1 := by
  have hcount : (desk.change (desk.registry.incrementActive desk.manager.group
      desk.manager.functionId type)).Ends fun out => out.1.manager = desk.manager ∧
        match out.2 with
        | .error _ => out.1 = desk
        | .ok () => desk.Counted type out.1 := by
    refine ends_change fun reply hr => ⟨rfl, ?_⟩
    obtain ⟨state, result, notices⟩ := reply
    cases result with
    | ok _ => exact ⟨notices, hr⟩
    | error error =>
      rcases hv.incrementActive_inv hr with ⟨-, hs, -⟩ | ⟨_, _, _, -, -, -, -, hs⟩
      · simp only at hs ⊢
        rw [hs]
      · cases hs
  unfold program
  refine hcount.bind ?_
  rintro ⟨desk', result⟩ ⟨hm, hc⟩
  cases result with
  | error error => exact hc
  | ok _ =>
    obtain ⟨registry, manager⟩ := desk'
    cases hm
    refine Script.ends_bind_of_forall fun started => ?_
    cases started with
    | ok _ => exact ⟨rfl, hc⟩
    | error error =>
      obtain ⟨notices, hr⟩ := hc
      refine Script.Ends.bind (ends_dropActive (P := fun back => back = desk) ?_) fun back hb => hb
      intro reply hdrop
      cases (hv.decrement_increment hr).symm.trans hdrop
      rfl

theorem checkRange_run (desk : Desk) (hwQid : Nat) :
    (desk.checkRange hwQid).run =
      Script.ofChecked (desk.registry.contains desk.manager.group desk.manager.functionId hwQid) >>=
        fun inside =>
          if inside then
            return if hwQid < UInt16.size then .ok (UInt16.ofNat hwQid) else .error .notInRange
          else do
            Script.notice (.queueOutsideRange desk.manager.functionId hwQid)
            return .error .notInRange := by
  simp only [checkRange]
  cases desk.registry.contains desk.manager.group desk.manager.functionId hwQid with
  | error fault => rfl
  | ok inside =>
    cases inside with
    | false => rfl
    | true => by_cases hlt : hwQid < UInt16.size <;> simp only [hlt] <;> rfl

theorem checkRange_ends (desk : Desk) (hwQid : Nat) :
    (desk.checkRange hwQid).run.Ends fun result => ∀ qid, result = .ok qid →
      qid.toNat = hwQid ∧
        desk.registry.contains desk.manager.group desk.manager.functionId hwQid = .ok true := by
  rw [checkRange_run]
  refine Script.ends_bind.2 (Script.ends_ofChecked.2 fun inside hinside => ?_)
  cases inside with
  | false => exact Script.ends_bind_of_forall fun _ _ hq => by cases hq
  | true =>
    rw [if_pos rfl]
    intro qid hq
    by_cases hlt : hwQid < UInt16.size
    · rw [if_pos hlt] at hq
      cases hq
      exact ⟨UInt16.toNat_ofNat_of_lt' hlt, hinside⟩
    · rw [if_neg hlt] at hq
      cases hq

/-- A queue id that passes lies in the range of the function. -/
theorem checkRange_spec (hv : desk.registry.Valid) (hwQid : Nat) :
    (desk.checkRange hwQid).run.Ends fun result => ∀ qid, result = .ok qid →
      qid.toNat = hwQid ∧ ∃ e, desk.lookup? = some e ∧ e.Holds hwQid :=
  (checkRange_ends desk hwQid).mono fun _ h qid hq =>
    ⟨(h qid hq).1, hv.holds_of_contains (h qid hq).2⟩

/-- A failed start changes nothing; else the queue is counted and its slot is the last. -/
theorem start_spec (hv : desk.registry.Valid) (hwQid : Nat) (type : QueueType)
    (c : QueueConfig) :
    (desk.start d hwQid type c).Ends fun out =>
      match out.2 with
      | .error _ => out.1 = desk
      | .ok () => ∃ qid : UInt16, qid.toNat = hwQid ∧
          (∃ e, desk.lookup? = some e ∧ e.Holds hwQid) ∧
          (∀ s ∈ desk.manager.slots, ¬ s.holds qid type) ∧ desk.Counted type out.1 ∧
          out.1.manager = { desk.manager with
            slots := desk.manager.slots ++ [⟨⟨qid, type, c.memoryMapped⟩, true⟩] } := by
  unfold start
  refine (checkRange_spec hv hwQid).bind ?_
  intro checked hchecked
  cases checked with
  | error error => rfl
  | ok qid =>
    obtain ⟨hqid, hrange⟩ := hchecked qid rfl
    by_cases htaken : (desk.manager.slots.any fun s => s.holds qid type) = true
    · simp only [if_pos htaken]
      rfl
    · simp only [if_neg htaken]
      have hfree : ∀ s ∈ desk.manager.slots, ¬ s.holds qid type := fun s hs hh =>
        htaken (List.any_eq_true.2 ⟨s, hs, hh⟩)
      have hholds : (⟨⟨qid, type, c.memoryMapped⟩, false⟩ : Slot).holds qid type = true := by
        simp [Slot.holds]
      let slot : Slot := ⟨⟨qid, type, c.memoryMapped⟩, false⟩
      let taken : Manager := { desk.manager with slots := desk.manager.slots ++ [slot] }
      refine Script.Ends.bind (program_spec ⟨desk.registry, taken⟩ hv qid type c) ?_
      rintro ⟨desk', result⟩ hp
      cases result with
      | error error =>
        cases hp
        show Desk.mk _ _ = _
        rw [Manager.release_push hfree hholds]
      | ok _ =>
        obtain ⟨hm, hc⟩ := hp
        refine ⟨qid, hqid, hrange, hfree, hc, ?_⟩
        show desk'.manager.mark qid type true = _
        rw [hm, Manager.mark_push hfree hholds]

theorem start_moved (hv : desk.Valid) (hwQid : Nat) (type : QueueType) (c : QueueConfig) :
    (desk.start d hwQid type c).Ends fun out => desk.Moved out.1 := by
  refine (start_spec hv.registry hwQid type c).mono ?_
  rintro ⟨desk', result⟩ h
  cases result with
  | error error =>
    cases h
    exact .refl hv
  | ok _ =>
    obtain ⟨qid, rfl, ⟨e, he, hholds⟩, hfree, ⟨notices, hr⟩, hm⟩ := h
    obtain ⟨registry, manager⟩ := desk'
    simp only at hm hr
    subst hm
    refine ⟨rfl, rfl, hv.registry.incrementActive_kept hr, ?_⟩
    obtain ⟨e', he', hentry⟩ := hv.registry.incremented hr
    obtain rfl : e = e' := Option.some.inj (he.symm.trans he')
    have htracked : Tracked e desk.manager.slots := by
      have hagrees := hv.agrees
      rw [he] at hagrees
      exact hagrees
    show Agrees (registry.lookup? _ _) _
    rw [hentry]
    have hcons : Tracked (e.recount type (e.active.get type + 1))
        (⟨⟨qid, type, c.memoryMapped⟩, true⟩ :: desk.manager.slots) := by
      refine tracked_cons.2 ⟨rfl, hholds, ?_, by simp, ?_⟩
      · intro hkey
        obtain ⟨s, hs, hsk⟩ := List.mem_map.1 hkey
        exact hfree s hs (Slot.holds_iff.2 hsk)
      · simpa [FunctionEntry.recount] using htracked
    exact hcons.perm (List.perm_append_singleton _ _).symm

/-! ## Stopping queues -/

/-- Without a running queue nothing happens; else its slot and one active queue are gone, whatever
became of its contexts. -/
theorem stop_spec (desk : Desk) (hwQid : Nat) (type : QueueType) :
    (desk.stop d hwQid type).Ends fun out =>
      (out.1 = desk ∧ out.2 = .error .notStarted) ∨
        ∃ qid : UInt16, qid.toNat = hwQid ∧
          (∃ slot ∈ desk.manager.slots, slot.running = true ∧ slot.holds qid type = true) ∧
          (∃ reply, desk.registry.decrementActive desk.manager.group desk.manager.functionId type =
            .ok reply ∧ out.1.registry = reply.state) ∧
          out.1.manager = (desk.manager.mark qid type false).release qid type := by
  unfold stop
  by_cases hlt : hwQid < UInt16.size
  · simp only [if_pos hlt]
    cases hfind : desk.manager.slots.find? fun s => s.running && s.holds (UInt16.ofNat hwQid) type with
    | none => exact .inl ⟨rfl, rfl⟩
    | some slot =>
      refine Script.ends_bind_of_forall fun stopped => ?_
      refine Script.Ends.bind (ends_dropActive (P := fun back => (∃ reply,
        desk.registry.decrementActive desk.manager.group desk.manager.functionId type =
          .ok reply ∧ back.registry = reply.state) ∧
        back.manager = desk.manager.mark (UInt16.ofNat hwQid) type false) ?_) ?_
      · exact fun reply hr => ⟨⟨reply, hr, rfl⟩, rfl⟩
      · rintro back ⟨hr, hm⟩
        have hprop := List.find?_some hfind
        simp only [Bool.and_eq_true] at hprop
        refine .inr ⟨UInt16.ofNat hwQid, UInt16.toNat_ofNat_of_lt' hlt,
          ⟨slot, List.mem_of_find?_eq_some hfind, hprop.1, hprop.2⟩, hr, ?_⟩
        show back.manager.release _ _ = _
        rw [hm]
  · simp only [if_neg hlt]
    exact .inl ⟨rfl, rfl⟩

/-- The slot of a started queue goes together with one active queue. -/
theorem Valid.stopped (hv : desk.Valid) {qid : UInt16} {type : QueueType} {slot : Slot}
    (hslot : slot ∈ desk.manager.slots) (hheld : slot.holds qid type = true)
    {reply : Reply Registry ResourceError Unit}
    (hr : desk.registry.decrementActive desk.manager.group desk.manager.functionId type =
      .ok reply) :
    desk.Moved ⟨reply.state, (desk.manager.mark qid type false).release qid type⟩ := by
  have hagrees := hv.agrees
  cases he : desk.lookup? with
  | none =>
    rw [he] at hagrees
    rw [show desk.manager.slots = [] from hagrees] at hslot
    cases hslot
  | some e =>
    rw [he] at hagrees
    have hperm := Manager.stopped_perm hagrees.distinct hslot hheld
    obtain ⟨-, -, -, hpos, hrest⟩ := tracked_cons.1 (hagrees.perm hperm)
    have htype : slot.queue.type = type := congrArg Prod.snd (Slot.holds_iff.1 hheld)
    rw [htype] at hpos hrest
    have hentry := hv.registry.decremented hr he hpos
    refine ⟨by simp, by simp, hv.registry.decrementActive_kept hr, ?_⟩
    simp only [lookup?, Manager.release_group, Manager.release_functionId, Manager.mark_group,
      Manager.mark_functionId]
    rw [hentry]
    exact hrest

theorem stop_moved (hv : desk.Valid) (hwQid : Nat) (type : QueueType) :
    (desk.stop d hwQid type).Ends fun out => desk.Moved out.1 := by
  refine (stop_spec desk hwQid type).mono ?_
  rintro ⟨desk', result⟩ (⟨hsame, -⟩ | ⟨qid, -, ⟨slot, hslot, -, hheld⟩, ⟨reply, hr, hreg⟩, hm⟩)
  · simp only at hsame
    rw [hsame]
    exact .refl hv
  · obtain ⟨registry, manager⟩ := desk'
    simp only at hm hreg
    subst hm hreg
    exact hv.stopped hslot hheld hr

theorem stopEach_moved (hv : desk.Valid) (queues : List StartedQueue) :
    (desk.stopEach d queues).Ends fun out => desk.Moved out.1 := by
  induction queues generalizing desk with
  | nil => exact .refl hv
  | cons q rest ih =>
    unfold stopEach
    refine (stop_moved hv q.qid.toNat q.type).bind ?_
    rintro ⟨desk', first⟩ hm
    refine (ih hm.valid).bind ?_
    rintro ⟨desk'', later⟩ hm'
    cases first with
    | ok _ => exact hm.trans hm'
    | error error => exact hm.trans hm'

theorem stopAll_moved (hv : desk.Valid) : (desk.stopAll d).Ends fun out => desk.Moved out.1 :=
  stopEach_moved hv desk.manager.started

end DmaQueues.Desk
