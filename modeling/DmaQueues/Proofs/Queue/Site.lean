import DmaQueues.Proofs.Queue.Desk
import DmaQueues.Proofs.Run

/-!
# Managers that share a registry

A site is a registry with managers of different functions of one group. Its acts are the
operations of the managers and the calls of the registry that count no queue, in any order.
After every act each table agrees with the registry (`Valid`): since only started queues
are counted, and a function with a count keeps its range, no call takes the range of a
running queue away.
-/

namespace DmaQueues

structure Site where
  registry : Registry
  managers : List Manager := []
  deriving DecidableEq, Repr

/-- The table of a manager holds what the registry answers about its function. -/
structure Manager.Consistent (m : Manager) (r : Registry) : Prop where
  running : ∀ slot ∈ m.slots, slot.running = true
  distinct : (m.slots.map Slot.key).Nodup
  inRange : ∀ slot ∈ m.slots, ∃ range, r.range m.group m.functionId = .ok (some range) ∧
    range.Holds slot.queue.qid.toNat
  /-- A function that was detached has no started queues. -/
  counted : ∀ type, r.activeQueues m.group m.functionId type = .ok (.ok (countType m.slots type)) ∨
    r.activeQueues m.group m.functionId type = .ok (.error .notFound) ∧ m.slots = []

namespace Site

inductive Act where
  | direct (c : Registry.Call) (uncounted : c.Uncounted)
  /-- A manager for a function, which has none yet. -/
  | bind (functionId : UInt16)
  | setRange (i count : Nat) (hint : Option Nat)
  | start (i hwQid : Nat) (type : QueueType) (c : QueueConfig)
  | stop (i hwQid : Nat) (type : QueueType)
  | stopAll (i : Nat)

/-- Lets a manager work. -/
def work {α : Type} (s : Site) (i : Nat) (op : Desk → Script (Desk × α)) : Script Site :=
  match s.managers[i]? with
  | none => return s
  | some m => do
    let (desk, _) ← op ⟨s.registry, m⟩
    return ⟨desk.registry, s.managers.set i desk.manager⟩

def direct (s : Site) (c : Registry.Call) : Script Site := do
  let reply ← s.registry.step c
  Script.notices reply.notices
  return { s with registry := reply.state }

def bind (h : GroupHandle) (s : Site) (functionId : UInt16) : Site :=
  if s.managers.any fun m => m.functionId == functionId then s
  else
    match Manager.forFunction s.registry h functionId with
    | .ok m => { s with managers := s.managers ++ [m] }
    | .error _ => s

def step (d : Device) (h : GroupHandle) (s : Site) : Act → Script Site
  | .direct c _ => s.direct c
  | .bind functionId => return s.bind h functionId
  | .setRange i count hint => s.work i fun desk => desk.setRange d count hint
  | .start i hwQid type c => s.work i fun desk => desk.start d hwQid type c
  | .stop i hwQid type => s.work i fun desk => desk.stop d hwQid type
  | .stopAll i => s.work i fun desk => desk.stopAll d

def run (d : Device) (h : GroupHandle) (s : Site) : List Act → Script Site
  | [] => return s
  | act :: acts => do (← s.step d h act).run d h acts

/-- Every table agrees with the registry, and functions without a manager are idle. -/
structure Valid (h : GroupHandle) (s : Site) : Prop where
  registry : s.registry.Valid
  group : ∀ m ∈ s.managers, m.group = h
  distinct : (s.managers.map Manager.functionId).Nodup
  agrees : ∀ m ∈ s.managers, Agrees (s.registry.lookup? h m.functionId) m.slots
  idle : ∀ id, (∀ m ∈ s.managers, m.functionId ≠ id) → Idle (s.registry.lookup? h id)

variable {d : Device} {h : GroupHandle} {s : Site}

theorem valid_fresh (policy : RequestPolicy) (h : GroupHandle) :
    Valid h ⟨.fresh policy, []⟩ where
  registry := Registry.valid_fresh policy
  group := nofun
  distinct := .nil
  agrees := nofun
  idle _ _ := trivial

/-! ## Acts keep a site valid -/

theorem Valid.direct (hv : s.Valid h) {c : Registry.Call} (hc : c.Uncounted) :
    (s.direct c).Ends (Valid h) := by
  show (Script.ofChecked (s.registry.step c) >>= fun reply => Script.notices reply.notices >>=
    fun _ => pure { s with registry := reply.state }).Ends (Valid h)
  refine Script.ends_bind.2 (Script.ends_ofChecked.2 fun reply hr => ?_)
  refine Script.ends_notices_bind ?_
  have hquiet := hv.registry.step_quiet hc hr h
  have hstep := hv.registry.step_spec c
  have hkeep := Checked.of_fault_or_exists hstep hr
  exact ⟨hkeep.1, hv.group, hv.distinct,
    fun m hm => (hv.agrees m hm).quiet (hquiet m.functionId),
    fun id hid => (hquiet id).idle (hv.idle id hid)⟩

theorem Valid.bind (hv : s.Valid h) (functionId : UInt16) : (s.bind h functionId).Valid h := by
  unfold Site.bind
  by_cases hbound : (s.managers.any fun m => m.functionId == functionId) = true
  · rw [if_pos hbound]
    exact hv
  · rw [if_neg hbound]
    have hfree : ∀ m ∈ s.managers, m.functionId ≠ functionId := by
      intro m hm heq
      exact hbound (List.any_eq_true.2 ⟨m, hm, beq_iff_eq.2 heq⟩)
    cases hm : Manager.forFunction s.registry h functionId with
    | error error => exact hv
    | ok m =>
      obtain rfl : m = ⟨h, functionId, []⟩ := by
        unfold Manager.forFunction at hm
        split at hm
        · exact (Except.ok.inj hm).symm
        · cases hm
      refine ⟨hv.registry, fun m hm => ?_, ?_, fun m hm => ?_, fun id hid => ?_⟩
      · rcases List.mem_append.1 hm with hm | hm
        · exact hv.group m hm
        · rw [List.mem_singleton.1 hm]
      · simp only [List.map_append, List.map_cons, List.map_nil]
        refine List.nodup_append.2 ⟨hv.distinct, List.nodup_singleton _, fun a ha b hb => ?_⟩
        obtain ⟨m, hm, rfl⟩ := List.mem_map.1 ha
        rw [List.mem_singleton.1 hb]
        exact hfree m hm
      · rcases List.mem_append.1 hm with hm | hm
        · exact hv.agrees m hm
        · rw [List.mem_singleton.1 hm]
          exact agrees_nil (hv.idle functionId hfree)
      · exact hv.idle id fun m hm => hid m (List.mem_append_left _ hm)

theorem Valid.desk (hv : s.Valid h) {m : Manager} (hm : m ∈ s.managers) :
    Desk.Valid ⟨s.registry, m⟩ where
  registry := hv.registry
  agrees := by
    have hagrees := hv.agrees m hm
    rw [← hv.group m hm] at hagrees
    exact hagrees

/-- Managers at different places work for different functions. -/
theorem Valid.functionId_ne (hv : s.Valid h) {i j : Nat} {m m' : Manager}
    (hi : s.managers[i]? = some m) (hj : s.managers[j]? = some m') (hij : i ≠ j) :
    m.functionId ≠ m'.functionId := by
  obtain ⟨hlt, -⟩ := List.getElem?_eq_some_iff.1 hi
  intro hsame
  refine hij ((List.getElem?_inj (by simpa using hlt) hv.distinct).1 ?_)
  rw [List.getElem?_map, List.getElem?_map, hi, hj]
  exact congrArg some hsame

/-- The work of one manager is no concern of the others. -/
theorem Valid.moved (hv : s.Valid h) {i : Nat} {m : Manager} (hi : s.managers[i]? = some m)
    {desk : Desk} (hmoved : Desk.Moved ⟨s.registry, m⟩ desk) :
    Valid h ⟨desk.registry, s.managers.set i desk.manager⟩ := by
  have hgroup := hv.group m (List.mem_of_getElem? hi)
  obtain ⟨hlt, hget⟩ := List.getElem?_eq_some_iff.1 hi
  have hself : s.managers.set i m = s.managers := by
    rw [← hget]
    exact List.set_getElem_self hlt
  have hothers : ∀ id, id ≠ m.functionId → desk.registry.lookup? h id = s.registry.lookup? h id :=
    fun id hid => hmoved.kept.others h id (.inr hid)
  have hids : (s.managers.set i desk.manager).map Manager.functionId =
      s.managers.map Manager.functionId := by
    rw [List.map_set, hmoved.functionId, ← List.map_set, hself]
  -- A manager of the new list is the one that worked, or stands at another place in the old one.
  have hplace : ∀ x ∈ s.managers.set i desk.manager,
      x = desk.manager ∨ x ∈ s.managers ∧ x.functionId ≠ m.functionId := by
    intro x hx
    obtain ⟨j, hj⟩ := List.mem_iff_getElem?.1 hx
    rw [List.getElem?_set] at hj
    by_cases hij : i = j
    · rw [if_pos hij, if_pos (hij ▸ hlt)] at hj
      exact .inl (Option.some.inj hj).symm
    · rw [if_neg hij] at hj
      exact .inr ⟨List.mem_of_getElem? hj, (hv.functionId_ne hi hj hij).symm⟩
  refine ⟨hmoved.kept.valid, fun x hx => ?_, hids ▸ hv.distinct, fun x hx => ?_, fun id hid => ?_⟩
  · rcases hplace x hx with rfl | ⟨hx, -⟩
    · exact hmoved.group.trans hgroup
    · exact hv.group x hx
  · rcases hplace x hx with rfl | ⟨hx, hne⟩
    · have hagrees := hmoved.agrees
      rw [Desk.lookup?, hmoved.group, hgroup] at hagrees
      exact hagrees
    · have hagrees := hv.agrees x hx
      rw [← hothers x.functionId hne] at hagrees
      exact hagrees
  · have hfree : ∀ x ∈ s.managers, x.functionId ≠ id := by
      intro x hx heq
      have hmap : id ∈ (s.managers.set i desk.manager).map Manager.functionId := by
        rw [hids]
        exact List.mem_map.2 ⟨x, hx, heq⟩
      obtain ⟨y, hy, hyid⟩ := List.mem_map.1 hmap
      exact hid y hy hyid
    rw [hothers id fun heq => hfree m (List.mem_of_getElem? hi) heq.symm]
    exact hv.idle id hfree

theorem Valid.work {α : Type} (hv : s.Valid h) {i : Nat} {op : Desk → Script (Desk × α)}
    (hop : ∀ desk : Desk, desk.Valid → (op desk).Ends fun out => desk.Moved out.1) :
    (s.work i op).Ends (Valid h) := by
  unfold Site.work
  cases hi : s.managers[i]? with
  | none => exact hv
  | some m =>
    refine (hop _ (hv.desk (List.mem_of_getElem? hi))).bind ?_
    rintro ⟨desk, result⟩ hmoved
    exact hv.moved hi hmoved

theorem Valid.step (hv : s.Valid h) (d : Device) (act : Act) :
    (s.step d h act).Ends (Valid h) := by
  cases act with
  | direct c hc => exact hv.direct hc
  | bind functionId => exact hv.bind functionId
  | setRange i count hint => exact hv.work fun _ hd => Desk.setRange_moved hd count hint
  | start i hwQid type c => exact hv.work fun _ hd => Desk.start_moved hd hwQid type c
  | stop i hwQid type => exact hv.work fun _ hd => Desk.stop_moved hd hwQid type
  | stopAll i => exact hv.work fun _ hd => Desk.stopAll_moved hd

theorem Valid.run (hv : s.Valid h) (d : Device) (acts : List Act) :
    (s.run d h acts).Ends (Valid h) := by
  induction acts generalizing s with
  | nil => exact hv
  | cons act acts ih => exact (hv.step d act).bind fun s' hs => ih hs

/-! ## What the tables say -/

theorem Valid.consistent (hv : s.Valid h) {m : Manager} (hm : m ∈ s.managers) :
    m.Consistent s.registry := by
  have hagrees := hv.agrees m hm
  rw [← hv.group m hm] at hagrees
  cases he : s.registry.lookup? m.group m.functionId with
  | none =>
    rw [he] at hagrees
    have hnil : m.slots = [] := hagrees
    refine ⟨by simp [hnil], by simp [hnil], by simp [hnil], fun type => .inr ⟨?_, hnil⟩⟩
    rw [Registry.activeQueues_eq, he]
  | some e =>
    rw [he] at hagrees
    refine ⟨hagrees.running, hagrees.distinct, fun slot hslot => ?_, fun type => .inl ?_⟩
    · obtain ⟨range, hrange, hholds⟩ := hagrees.inRange slot hslot
      refine ⟨range, ?_, hholds⟩
      rw [Registry.range_eq, he]
      exact congrArg Except.ok hrange
    · rw [Registry.activeQueues_eq, he]
      exact congrArg (Except.ok <| Except.ok ·) (hagrees.counted type).symm

/-- A hardware queue is started by one manager only, since ranges have no id in common. -/
theorem Valid.eq_of_qid (hv : s.Valid h) {m m' : Manager} (hm : m ∈ s.managers)
    (hm' : m' ∈ s.managers) {slot slot' : Slot} (hslot : slot ∈ m.slots) (hslot' : slot' ∈ m'.slots)
    (hq : slot.queue.qid = slot'.queue.qid) : m = m' := by
  have holder : ∀ m ∈ s.managers, ∀ slot ∈ m.slots, ∃ g e, s.registry.find? h = some g ∧
      g.find? m.functionId = some e ∧ e.Holds slot.queue.qid.toNat := by
    intro m hm slot hslot
    have hagrees := hv.agrees m hm
    cases he : s.registry.lookup? h m.functionId with
    | none =>
      rw [he] at hagrees
      rw [show m.slots = [] from hagrees] at hslot
      cases hslot
    | some e =>
      rw [he] at hagrees
      obtain ⟨g, hg, hge⟩ := Registry.lookup?_eq_some he
      exact ⟨g, e, hg, hge, hagrees.inRange slot hslot⟩
  obtain ⟨g, e, hg, he, hholds⟩ := holder m hm slot hslot
  obtain ⟨g', e', hg', he', hholds'⟩ := holder m' hm' slot' hslot'
  cases hg.symm.trans hg'
  obtain ⟨hmem, hid⟩ := Group.find?_eq_some he
  obtain ⟨hmem', hid'⟩ := Group.find?_eq_some he'
  rw [← hq] at hholds'
  have hsame : e = e' := (hv.registry.find? hg).alone e hmem e' hmem' _ hholds hholds'
  exact List.inj_on_of_nodup_map hv.distinct hm hm' (by rw [← hid, ← hid', hsame])

/-- Over any run of the managers and the registry, whatever the device answers: a table holds
running queues of the range of its function, each once, and as many of a kind as are counted. No
queue id is running under two functions. -/
theorem tables_consistent {σ : Type} (b : Backend σ) (d : Device) (policy : RequestPolicy)
    (h : GroupHandle) (acts : List Act) {before after : σ} {s : Site}
    (hr : (run d h ⟨.fresh policy, []⟩ acts).run b before = (.ok s, after)) :
    (s.managers.map Manager.functionId).Nodup ∧
      (∀ m ∈ s.managers, m.group = h ∧ m.Consistent s.registry) ∧
      ∀ m ∈ s.managers, ∀ m' ∈ s.managers, ∀ slot ∈ m.slots, ∀ slot' ∈ m'.slots,
        slot.queue.qid = slot'.queue.qid → m = m' := by
  have hv := ((valid_fresh policy h).run d acts).of_run hr
  refine ⟨hv.distinct, fun m hm => ⟨hv.group m hm, hv.consistent hm⟩, ?_⟩
  intro m hm m' hm' slot hslot slot' hslot' hq
  exact hv.eq_of_qid hm hm' hslot hslot' hq

/-- A device that is never busy. -/
def idleDevice : Backend Unit where
  read _ _ := (0, ())
  write _ _ _ := ()

/-- Two functions share eight queues. The second may not start a queue of the first, nor give up
its range while a queue of it is running. -/
def sharedRun : Script Site :=
  run ⟨⟨.eqdma, ⟨1, 1⟩, none⟩, ⟨2, 8, 1, .internalOnly, []⟩, {}⟩ ⟨⟨1, 2⟩, 0⟩
    ⟨.fresh .transactional, []⟩
    [.direct (.createGroup ⟨1, 2⟩ 0 8) trivial,
      .direct (.change ⟨⟨1, 2⟩, 0⟩ (.createFunction 1)) trivial,
      .direct (.change ⟨⟨1, 2⟩, 0⟩ (.createFunction 2)) trivial,
      .bind 1, .bind 2, .setRange 0 2 none, .setRange 1 4 none,
      .start 0 1 .h2c {}, .start 1 1 .h2c {}, .start 1 2 .c2h {}, .start 1 5 .cmpt {},
      .direct (.change ⟨⟨1, 2⟩, 0⟩ (.requestRange 2 1 none)) trivial,
      .stop 1 2 .c2h]

theorem shared_tables_consistent :
    ∃ s, sharedRun.run idleDevice () = (.ok s, ()) ∧
      s.managers.map (fun m => m.slots.map Slot.key) = [[(1, .h2c)], [(5, .cmpt)]] ∧
      ∀ m ∈ s.managers, m.Consistent s.registry := by
  have hreturns : sharedRun.Returns idleDevice () fun s _ =>
      s.managers.map (fun m => m.slots.map Slot.key) = [[(1, .h2c)], [(5, .cmpt)]] := by
    decide +kernel
  obtain ⟨s, ⟨⟩, hrun, hslots⟩ := hreturns
  have hall := tables_consistent idleDevice _ .transactional ⟨⟨1, 2⟩, 0⟩ _ hrun
  exact ⟨s, hrun, hslots, fun m hm => (hall.2.1 m hm).2⟩

end Site

end DmaQueues
