import DmaQueues.Proofs.Queue.Site
import DmaQueues.Proofs.Queue.Validation
import DmaQueues.Proofs.Engine.Flight

/-!
# Stopping all queues

To stop all queues of a manager is to tear down the queues of its table in order, each of them
whatever became of the ones before (`Device.tearDown`), and to report the first failure. The
registry goes along with any failure: the queue is counted no more. So the table is empty
afterwards, and nothing of the function is counted (`Desk.Emptied`), as long as no other manager
works for it.
-/

namespace DmaQueues

/-- The first error, if there is one. -/
def firstError {ε : Type} : List (Except ε Unit) → Except ε Unit
  | [] => .ok ()
  | .ok () :: rest => firstError rest
  | .error error :: _ => .error error

theorem firstError_eq_ok {ε : Type} {results : List (Except ε Unit)} :
    firstError results = .ok () ↔ ∀ r ∈ results, r = .ok () := by
  induction results with
  | nil => exact iff_of_true rfl nofun
  | cons r rest ih =>
    rw [List.forall_mem_cons]
    cases r with
    | ok _ => exact ih.trans (and_iff_right rfl).symm
    | error error => exact iff_of_false nofun fun h => nomatch h.1

theorem firstError_eq_error {ε : Type} {results : List (Except ε Unit)} {error : ε} :
    firstError results = .error error ↔
      ∃ done rest, results = done ++ .error error :: rest ∧ ∀ r ∈ done, r = .ok () := by
  induction results with
  | nil =>
    refine iff_of_false nofun ?_
    rintro ⟨done, rest, hnil, -⟩
    simp at hnil
  | cons r results ih =>
    cases r with
    | ok u =>
      refine ih.trans ⟨?_, ?_⟩
      · rintro ⟨done, rest, rfl, hdone⟩
        exact ⟨.ok () :: done, rest, rfl, List.forall_mem_cons.2 ⟨rfl, hdone⟩⟩
      · rintro ⟨done, rest, heq, hdone⟩
        cases done with
        | nil => cases heq
        | cons first done =>
          cases heq
          exact ⟨done, rest, rfl, fun r hr => hdone r (List.mem_cons_of_mem _ hr)⟩
    | error first =>
      refine ⟨?_, ?_⟩
      · rintro ⟨⟩
        exact ⟨[], results, rfl, nofun⟩
      · rintro ⟨done, rest, heq, hdone⟩
        cases done with
        | nil =>
          cases heq
          rfl
        | cons first done =>
          cases heq
          cases hdone _ List.mem_cons_self

theorem ActiveCounts.eq_zero {counts : ActiveCounts} (h : ∀ type, counts.get type = 0) :
    counts = {} := by
  obtain ⟨h2c, c2h, cmpt⟩ := counts
  obtain rfl : h2c = 0 := h .h2c
  obtain rfl : c2h = 0 := h .c2h
  obtain rfl : cmpt = 0 := h .cmpt
  rfl

namespace Device

/-- Stops queues one after the other, whatever becomes of them, and gives all results. -/
def tearDown (d : Device) : List StartedQueue → Script (List (Except QueueError Unit))
  | [] => return []
  | q :: rest => do
    let result ← (d.stopQueue q.qid q.type q.memoryMapped).run
    return result :: (← d.tearDown rest)

theorem total_forM {α ε : Type} {g : α → Action ε Unit} {items : List α}
    (h : ∀ x, (g x).run.Total) : (items.forM g).run.Total := by
  induction items with
  | nil => trivial
  | cons x rest ih => exact (h x).action fun _ => ih

theorem total_invalidate (d : Device) (s : Selector) (q : UInt16) :
    (lift (d.access.invalidate s q)).run.Total := by
  have hcheck : (d.access.checkSelector s).run.Total := by
    unfold Access.checkSelector
    split <;> trivial
  refine total_lift (hcheck.action fun _ => ?_)
  split
  · trivial
  · exact Engine.total_invalidate (e := d.access.engine) d.access.variant.window_valid s q

theorem total_stopQueue (d : Device) (qid : UInt16) (type : QueueType) (memoryMapped : Bool) :
    (d.stopQueue qid type memoryMapped).run.Total := by
  refine Script.Total.action (total_forM fun s => total_invalidate d s qid) fun _ => ?_
  exact (total_forM fun s => total_clear d s qid).action fun _ => trivial

theorem total_tearDown (d : Device) (queues : List StartedQueue) : (d.tearDown queues).Total := by
  induction queues with
  | nil => trivial
  | cons q rest ih =>
    exact (total_stopQueue d q.qid q.type q.memoryMapped).bind fun _ => ih.bind fun _ => trivial

theorem tearDown_length (d : Device) (queues : List StartedQueue) :
    (d.tearDown queues).Ends fun results => results.length = queues.length := by
  induction queues with
  | nil => rfl
  | cons q rest ih =>
    refine Script.ends_bind_of_forall fun result => ih.bind fun results hlength => ?_
    exact congrArg (· + 1) hlength

end Device

namespace Desk

variable {d : Device} {desk desk' desk'' : Desk}

/-- `n` queues of the function stopped: what the registry knows of the function besides its counts,
and all other functions, stay as they are, and the sum of the group is lower by `n`. -/
structure Lowered (desk desk' : Desk) (n : Nat) : Prop where
  moved : desk.Moved desk'
  range : desk'.lookup?.map FunctionEntry.range = desk.lookup?.map FunctionEntry.range
  sum : ∀ g, desk.registry.find? desk.manager.group = some g →
    ∃ g', desk'.registry.find? desk.manager.group = some g' ∧ g'.active + n = g.active

theorem Lowered.refl (hv : desk.Valid) : desk.Lowered desk 0 :=
  ⟨.refl hv, rfl, fun g hf => ⟨g, hf, rfl⟩⟩

theorem Lowered.trans {n n' : Nat} (h : desk.Lowered desk' n) (h' : desk'.Lowered desk'' n') :
    desk.Lowered desk'' (n + n') where
  moved := h.moved.trans h'.moved
  range := h'.range.trans h.range
  sum g hf := by
    obtain ⟨g', hf', hsum⟩ := h.sum g hf
    rw [← h.moved.group] at hf'
    obtain ⟨g'', hf'', hsum'⟩ := h'.sum g' hf'
    rw [h.moved.group] at hf''
    exact ⟨g'', hf'', by omega⟩

/-- The slot of a queue in the table is found by the id and the kind of the queue. -/
theorem Valid.find_slot (hv : desk.Valid) {slot : Slot} (hslot : slot ∈ desk.manager.slots) :
    ∃ e, desk.lookup? = some e ∧ Tracked e desk.manager.slots ∧
      desk.manager.slots.find? (fun s => s.running && s.holds slot.queue.qid slot.queue.type) =
        some slot := by
  have hagrees := hv.agrees
  cases he : desk.lookup? with
  | none =>
    rw [he] at hagrees
    rw [show desk.manager.slots = [] from hagrees] at hslot
    cases hslot
  | some e =>
    rw [he] at hagrees
    refine ⟨e, rfl, hagrees, ?_⟩
    let held := fun s : Slot => s.running && s.holds slot.queue.qid slot.queue.type
    have hself : held slot = true :=
      Bool.and_eq_true_iff.2 ⟨hagrees.running slot hslot, Slot.holds_iff.2 rfl⟩
    obtain ⟨found, hfind⟩ := Option.isSome_iff_exists.1 (List.find?_isSome.2 ⟨slot, hslot, hself⟩)
    have hfound : held found = true := List.find?_some hfind
    have hholds := (Bool.and_eq_true_iff.1 hfound).2
    obtain rfl : found = slot := List.inj_on_of_nodup_map hagrees.distinct
      (List.mem_of_find?_eq_some hfind) hslot (Slot.holds_iff.1 hholds)
    exact hfind

/-- To stop a queue of the table is to tear it down. Whatever comes of that, its slot and one active
queue are gone. -/
theorem Valid.stop_eq (hv : desk.Valid) (d : Device) {slot : Slot}
    (hslot : slot ∈ desk.manager.slots) :
    ∃ desk', desk.Lowered desk' 1 ∧ desk.manager.slots.Perm (slot :: desk'.manager.slots) ∧
      desk.stop d slot.queue.qid.toNat slot.queue.type =
        (d.stopQueue slot.queue.qid slot.queue.type slot.queue.memoryMapped).run >>= fun result =>
          pure (desk', result) := by
  obtain ⟨e, he, htracked, hfind⟩ := hv.find_slot hslot
  have hperm := Manager.stopped_perm htracked.distinct hslot (Slot.holds_iff.2 rfl)
  obtain ⟨-, -, -, hpos, -⟩ := tracked_cons.1 (htracked.perm hperm)
  obtain ⟨g, hf, hge⟩ := Registry.lookup?_eq_some he
  obtain ⟨hzero, -⟩ | ⟨-, hsum, hdrop⟩ :=
    hv.registry.decrementActive_eq hf hge slot.queue.type
  · omega
  · have hmoved := hv.stopped hslot (Slot.holds_iff.2 rfl) hdrop
    have hentry := hv.registry.decremented hdrop he hpos
    refine ⟨_, ⟨hmoved, ?_, fun g' hf' => ?_⟩, hperm, ?_⟩
    · simp only [lookup?, Manager.release_group, Manager.release_functionId, Manager.mark_group,
        Manager.mark_functionId]
      rw [hentry, show desk.registry.lookup? _ _ = some e from he]
      rfl
    · cases hf.symm.trans hf'
      exact ⟨_, Registry.replace_find? hf rfl, Nat.sub_add_cancel hsum⟩
    · unfold stop
      rw [if_pos slot.queue.qid.toNat_lt]
      simp only [UInt16.ofNat_toNat, hfind]
      refine congrArg (_ >>= ·) (funext fun result => ?_)
      unfold dropActive
      show (Script.bind (Script.bind (Script.bind (Script.ofChecked (desk.registry.decrementActive
        desk.manager.group desk.manager.functionId slot.queue.type)) _) _) _) = _
      rw [hdrop]
      rfl

/-- Stopping the queues of a table one by one is tearing them down in that order. -/
theorem Valid.stopEach_eq (hv : desk.Valid) (d : Device) {queues : List StartedQueue}
    (hqueues : (desk.manager.slots.map Slot.queue).Perm queues) :
    ∃ desk', desk.Lowered desk' queues.length ∧ desk'.manager.slots = [] ∧
      desk.stopEach d queues =
        d.tearDown queues >>= fun results => pure (desk', firstError results) := by
  induction queues generalizing desk with
  | nil => exact ⟨desk, .refl hv, List.map_eq_nil_iff.1 hqueues.eq_nil, rfl⟩
  | cons q rest ih =>
    obtain ⟨slot, hslot, rfl⟩ := List.mem_map.1 (hqueues.mem_iff.2 List.mem_cons_self)
    obtain ⟨desk', hlowered, hperm, hstop⟩ := hv.stop_eq d hslot
    have hrest := (hperm.map Slot.queue).symm.trans hqueues
    obtain ⟨desk'', hlowered', hempty, heach⟩ := ih hlowered.moved.valid hrest.cons_inv
    refine ⟨desk'', ?_, hempty, ?_⟩
    · rw [List.length_cons, Nat.add_comm]
      exact hlowered.trans hlowered'
    · unfold stopEach Device.tearDown
      rw [hstop]
      simp only [bind_assoc, pure_bind, heach]
      refine congrArg (_ >>= ·) (funext fun result => ?_)
      refine congrArg (_ >>= ·) (funext fun results => ?_)
      cases result <;> rfl

/-- The manager at `before` has no queues any more, and nothing of its function is counted; it had
`n` queues that counted. -/
structure Emptied (before after : Desk) (n : Nat) : Prop where
  manager : after.manager = { before.manager with slots := [] }
  entry : after.lookup? = before.lookup?.map fun e => { e with active := {} }
  sum : ∀ g, before.registry.find? before.manager.group = some g →
    ∃ g', after.registry.find? before.manager.group = some g' ∧ g'.active + n = g.active
  others : Registry.Kept before.manager.group before.manager.functionId before.registry
    after.registry

theorem Lowered.emptied {n : Nat} (h : desk.Lowered desk' n) (hempty : desk'.manager.slots = []) :
    desk.Emptied desk' n where
  manager := by
    obtain ⟨registry, ⟨group, functionId, slots⟩⟩ := desk'
    obtain rfl := hempty
    obtain rfl := h.moved.group
    obtain rfl := h.moved.functionId
    rfl
  entry := by
    have hagrees := h.moved.agrees
    have hrange := h.range
    rw [hempty] at hagrees
    cases he' : desk'.lookup? with
    | none =>
      cases he : desk.lookup? with
      | none => rfl
      | some e =>
        rw [he, he'] at hrange
        cases hrange
    | some e' =>
      cases he : desk.lookup? with
      | none =>
        rw [he, he'] at hrange
        cases hrange
      | some e =>
        rw [he'] at hagrees
        rw [he, he'] at hrange
        obtain ⟨g, -, hge⟩ := Registry.lookup?_eq_some he
        obtain ⟨g', -, hge'⟩ := Registry.lookup?_eq_some he'
        have hid : e'.id = e.id := by
          rw [(Group.find?_eq_some hge).2, (Group.find?_eq_some hge').2, h.moved.functionId]
        have hactive : e'.active = {} := ActiveCounts.eq_zero fun type =>
          (Tracked.counted hagrees type).symm
        obtain ⟨id, range, active⟩ := e'
        obtain rfl := hid
        obtain rfl := hactive
        obtain rfl := Option.some.inj hrange
        rfl
  sum := h.sum
  others := h.moved.kept

/-- All running queues are torn down in table order, and the first failure is reported. -/
theorem Valid.stopAll_eq (hv : desk.Valid) (d : Device) :
    desk.manager.started = desk.manager.slots.map Slot.queue ∧
      ∃ desk', desk.Emptied desk' desk.manager.started.length ∧
        desk.stopAll d =
          d.tearDown desk.manager.started >>= fun results => pure (desk', firstError results) := by
  have hrunning : ∀ slot ∈ desk.manager.slots, slot.running = true := by
    intro slot hslot
    obtain ⟨e, -, htracked, -⟩ := hv.find_slot hslot
    exact htracked.running slot hslot
  have hstarted : desk.manager.started = desk.manager.slots.map Slot.queue := by
    unfold Manager.started
    rw [List.filter_eq_self.2 hrunning]
  obtain ⟨desk', hlowered, hempty, heach⟩ := hv.stopEach_eq d (.of_eq hstarted.symm)
  exact ⟨hstarted, desk', hlowered.emptied hempty, heach⟩

end Desk

namespace Site

/-- After any run of the managers and the registry a manager stops all its queues, over any device.
Each running queue is torn down once, in table order and whatever becomes of the others, and nothing
else is done to the device. The first failure is the result. Whether there is one or not, the table
is empty and the function has no active queues any more; the group has as many less as were torn
down. -/
theorem stopAll_outcome {σ τ : Type} {b : Backend σ} {d : Device} {policy : RequestPolicy}
    {h : GroupHandle} {acts : List Act} {before after : σ} {s : Site}
    (hr : (run d h ⟨.fresh policy, []⟩ acts).run b before = (.ok s, after)) {m : Manager}
    (hm : m ∈ s.managers) (b' : Backend τ) (state : τ) :
    m.started = m.slots.map Slot.queue ∧
    ∃ results desk' state' t,
      (d.tearDown m.started).trace b' state = (.ok results, state', t) ∧
      results.length = m.started.length ∧
      (Desk.stopAll d ⟨s.registry, m⟩).trace b' state =
        (.ok (desk', firstError results), state', t) ∧
      Desk.Emptied ⟨s.registry, m⟩ desk' m.started.length := by
  have hv : s.Valid h := ((valid_fresh policy h).run d acts).of_run hr
  obtain ⟨hstarted, desk', hemptied, heq⟩ := (hv.desk hm).stopAll_eq d
  obtain ⟨results, state', t, htrace, hlength⟩ :=
    (d.total_tearDown m.started).trace (d.tearDown_length m.started).traces b' state
  refine ⟨hstarted, results, desk', state', t, htrace, hlength, ?_, hemptied⟩
  rw [heq]
  exact Script.trace_bind_pure _ htrace

/-- A function that has four of eight queues, some of which are running. -/
def fourOfEight (slots : List Slot) (active : ActiveCounts) : Desk where
  registry := ⟨.transactional, [⟨⟨1, 2⟩, 0, ⟨0, 8⟩, ⟨[⟨4, 4⟩]⟩, [⟨1, some ⟨0, 4⟩, active⟩],
    active.h2c + active.c2h + active.cmpt⟩], 1⟩
  manager := ⟨⟨⟨1, 2⟩, 0⟩, 1, slots⟩

/-- Three queues, whose order in the table is not the one that they are started in. -/
def threeQueues : Desk :=
  fourOfEight [⟨⟨1, .c2h, true⟩, true⟩, ⟨⟨1, .h2c, false⟩, true⟩, ⟨⟨2, .cmpt, false⟩, true⟩]
    { h2c := 1, c2h := 1, cmpt := 1 }

theorem threeQueues_reached :
    (run Device.softDevice ⟨⟨1, 2⟩, 0⟩ ⟨.fresh .transactional, []⟩
      [.direct (.createGroup ⟨1, 2⟩ 0 8) trivial,
        .direct (.change ⟨⟨1, 2⟩, 0⟩ (.createFunction 1)) trivial,
        .bind 1, .setRange 0 4 none, .start 0 0 .h2c {}, .start 0 1 .h2c {}, .start 0 2 .cmpt {},
        .start 0 1 .c2h { memoryMapped := true }, .stop 0 0 .h2c]).run idleDevice () =
      (.ok ⟨threeQueues.registry, [threeQueues.manager]⟩, ()) := by
  decide +kernel

/-- The card loses the commands for contexts of one queue, the first in the table. The others are
torn down, and the queue counts no more. -/
theorem lost_queue_stopAll :
    ∃ desk' card' t, (Desk.stopAll Device.softDevice threeQueues).trace (Card.backend .soft)
        (Engine.losing .softwareC2h) =
          (.ok (desk', .error (.access .busyTimeout)), card', t) ∧
      card'.accepted = 9 ∧ desk'.manager = { threeQueues.manager with slots := [] } := by
  obtain ⟨-, results, desk', card', t, htrace, -, hstop, hemptied⟩ :=
    stopAll_outcome threeQueues_reached (List.mem_singleton_self _) (Card.backend .soft)
      (Engine.losing .softwareC2h)
  have hresults : ((Device.softDevice.tearDown threeQueues.manager.started).trace
      (Card.backend .soft) (Engine.losing .softwareC2h)).1 =
        .ok [.error (.access .busyTimeout), .ok (), .ok ()] := by
    decide +kernel
  have haccepted : ((Device.softDevice.tearDown threeQueues.manager.started).trace
      (Card.backend .soft) (Engine.losing .softwareC2h)).2.1.accepted = 9 := by
    decide +kernel
  rw [htrace] at hresults haccepted
  obtain rfl := Except.ok.inj hresults
  exact ⟨desk', card', t, hstop, haccepted, hemptied.manager⟩

/-- Two queues of the function count. The manager has started one of them. -/
def sharedDesk (qid : UInt16) : Desk :=
  fourOfEight [⟨⟨qid, .h2c, false⟩, true⟩] { h2c := 2 }

/-- Two managers of one function start a queue each. When the first stops all its queues, that of
the second still counts. -/
theorem second_manager_keeps_count :
    (∃ s m, (run Device.softDevice ⟨⟨1, 2⟩, 0⟩ ⟨.fresh .transactional, []⟩
        [.direct (.createGroup ⟨1, 2⟩ 0 8) trivial,
          .direct (.change ⟨⟨1, 2⟩, 0⟩ (.createFunction 1)) trivial,
          .bind 1, .setRange 0 4 none]).run idleDevice () = (.ok s, ()) ∧
      Manager.forFunction s.registry ⟨⟨1, 2⟩, 0⟩ 1 = .ok m ∧
      (run Device.softDevice ⟨⟨1, 2⟩, 0⟩ ⟨s.registry, s.managers ++ [m]⟩
        [.start 0 0 .h2c {}, .start 1 1 .h2c {}]).run idleDevice () =
          (.ok ⟨(sharedDesk 0).registry, [(sharedDesk 0).manager, (sharedDesk 1).manager]⟩, ())) ∧
    ∃ desk', (Desk.stopAll Device.softDevice (sharedDesk 0)).run idleDevice () =
        (.ok (desk', .ok ()), ()) ∧
      desk'.manager.slots = [] ∧
      desk'.lookup?.map FunctionEntry.active = some { h2c := 1 } ∧
      ¬ Desk.Emptied (sharedDesk 0) desk' (sharedDesk 0).manager.started.length := by
  have hstop : (Desk.stopAll Device.softDevice (sharedDesk 0)).run idleDevice () =
      (.ok (fourOfEight [] { h2c := 1 }, .ok ()), ()) := by
    decide +kernel
  refine ⟨⟨⟨(fourOfEight [] {}).registry, [(fourOfEight [] {}).manager]⟩,
    (fourOfEight [] {}).manager, by decide +kernel, rfl, by decide +kernel⟩, _, hstop, rfl, rfl,
    fun hemptied => ?_⟩
  have hentry : (fourOfEight [] { h2c := 1 }).lookup? =
      (sharedDesk 0).lookup?.map fun e => { e with active := {} } := hemptied.entry
  exact absurd hentry (by decide)

end Site

end DmaQueues
