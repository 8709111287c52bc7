import DmaQueues.Proofs.Allocation.Held
import DmaQueues.Proofs.Queue.Frame
import DmaQueues.Proofs.Queue.Site

/-!
# Isolation of functions

A function owns its map and the contexts of the queues in its range (`Registry.Owns`), and
no cell has two owners. The operations of a manager change cells of its own function only,
whatever becomes of the commands (`Desk.Isolated`), and of the registry its own entry only.
So the work of one manager leaves the others and what they own as they are
(`Site.Valid.step_spares`), and so does any run in which the others take no part
(`Site.Valid.run_spares`).
-/

namespace DmaQueues

open Access

namespace Registry

/-- The cell is the map of the function, or a context of a queue in its range. -/
def Owns (r : Registry) (h : GroupHandle) (id : UInt16) (s : Selector) (q : UInt16) : Prop :=
  MapCell id s q ∨ queueContext s = true ∧ ∃ e, r.lookup? h id = some e ∧ e.Holds q.toNat

variable {r : Registry} {h : GroupHandle}

/-- No cell has two owners. -/
theorem Valid.owner_unique (hv : r.Valid) {id id' : UInt16} {s : Selector} {q : UInt16}
    (ho : r.Owns h id s q) (ho' : r.Owns h id' s q) : id = id' := by
  rcases ho with ⟨hs, hq⟩ | ⟨hs, e, he, range, hrange, hholds⟩
  · rcases ho' with ⟨-, hq'⟩ | ⟨hs', -⟩
    · exact hq.symm.trans hq'
    · exact absurd hs (Device.ne_functionMap hs')
  · rcases ho' with ⟨hs', -⟩ | ⟨-, e', he', range', hrange', hholds'⟩
    · exact absurd hs' (Device.ne_functionMap hs)
    · exact hv.held_disjoint (held_of_lookup? he hrange) (held_of_lookup? he' hrange') hholds
        hholds'

end Registry

namespace Desk

variable {d : Device} {desk : Desk}

/-- The cells of the function of the manager. -/
def Owns (desk : Desk) : Selector → UInt16 → Prop :=
  desk.registry.Owns desk.manager.group desk.manager.functionId

/-- The queues in the table of a manager lie in the range of its function. -/
theorem Valid.owns_slot (hv : desk.Valid) {slot : Slot} (hslot : slot ∈ desk.manager.slots)
    {s : Selector} (hs : queueContext s = true) : desk.Owns s slot.queue.qid := by
  have hagrees := hv.agrees
  cases he : desk.lookup? with
  | none =>
    rw [he] at hagrees
    rw [show desk.manager.slots = [] from hagrees] at hslot
    cases hslot
  | some e =>
    rw [he] at hagrees
    exact .inr ⟨hs, e, he, hagrees.inRange slot hslot⟩

/-- The operation works on its function, and changes cells of that function only. -/
structure Isolated {α : Type} (d : Device) (desk : Desk) (p : Script (Desk × α)) : Prop where
  moved : p.Ends fun out => desk.Moved out.1
  confined : d.access.Confined desk.Owns p

theorem setRange_isolated (hv : desk.Valid) (count : Nat) (hint : Option Nat) :
    desk.Isolated d (desk.setRange d count hint) where
  moved := setRange_moved hv count hint
  confined := (setRange_confined d desk count hint).mono fun _ _ => .inl

theorem start_isolated (hv : desk.Valid) (hwQid : Nat) (type : QueueType) (c : QueueConfig) :
    desk.Isolated d (desk.start d hwQid type c) where
  moved := start_moved hv hwQid type c
  confined := (start_confined d desk hwQid type c).mono fun _ _ hcell =>
    .inr ⟨hcell.1, hv.registry.holds_of_contains hcell.2⟩

theorem stop_isolated (hv : desk.Valid) (hwQid : Nat) (type : QueueType) :
    desk.Isolated d (desk.stop d hwQid type) where
  moved := stop_moved hv hwQid type
  confined := by
    refine (stop_confined d desk hwQid type).mono ?_
    rintro s q ⟨hs, -, slot, hslot, rfl⟩
    exact hv.owns_slot hslot hs

theorem stopAll_isolated (hv : desk.Valid) : desk.Isolated d (desk.stopAll d) where
  moved := stopAll_moved hv
  confined := by
    refine (stopAll_confined d desk).mono ?_
    rintro s q ⟨hs, slot, hslot, rfl⟩
    exact hv.owns_slot hslot hs

end Desk

namespace Site

/-- The act is an operation of the manager at `i`. -/
def Act.By (i : Nat) : Act → Prop
  | .direct _ _ => False
  | .bind _ => False
  | .setRange k _ _ => k = i
  | .start k _ _ _ => k = i
  | .stop k _ _ => k = i
  | .stopAll k => k = i

/-- Neither the table of the manager at `j` nor the entry of its function has changed. -/
def Spared (h : GroupHandle) (j : Nat) (s s' : Site) : Prop :=
  ∀ m, s.managers[j]? = some m → s'.managers[j]? = some m ∧
    s'.registry.lookup? h m.functionId = s.registry.lookup? h m.functionId

variable {d : Device} {h : GroupHandle} {s s' : Site} {i j : Nat} {m' : Manager}

theorem Spared.refl (s : Site) : s.Spared h j s :=
  fun _ hj => ⟨hj, rfl⟩

theorem Spared.trans {s'' : Site} (hs : s.Spared h j s') (hs' : s'.Spared h j s'') :
    s.Spared h j s'' := by
  intro m hj
  obtain ⟨hj', hentry⟩ := hs m hj
  obtain ⟨hj'', hentry'⟩ := hs' m hj'
  exact ⟨hj'', hentry'.trans hentry⟩

/-- An operation of a manager is work on its desk. -/
theorem step_by {act : Act} (hact : act.By i) (s : Site) :
    ∃ (α : Type) (op : Desk → Script (Desk × α)), s.step d h act = s.work i op ∧
      ∀ desk : Desk, desk.Valid → desk.Isolated d (op desk) := by
  cases act with
  | direct c hc => exact hact.elim
  | bind functionId => exact hact.elim
  | setRange k count hint =>
    cases hact
    exact ⟨_, _, rfl, fun _ hv => Desk.setRange_isolated hv count hint⟩
  | start k hwQid type c =>
    cases hact
    exact ⟨_, _, rfl, fun _ hv => Desk.start_isolated hv hwQid type c⟩
  | stop k hwQid type =>
    cases hact
    exact ⟨_, _, rfl, fun _ hv => Desk.stop_isolated hv hwQid type⟩
  | stopAll k =>
    cases hact
    exact ⟨_, _, rfl, fun _ hv => Desk.stopAll_isolated hv⟩

/-- The work of one manager is none of the others. -/
theorem Valid.step_spares (hv : s.Valid h) (d : Device) (hj : s.managers[j]? = some m')
    (hij : i ≠ j) {act : Act} (hact : act.By i) :
    (s.step d h act).Ends (s.Spared h j) ∧
      d.access.Confined (fun sel q => ¬ s.registry.Owns h m'.functionId sel q)
        (s.step d h act) := by
  obtain ⟨α, op, hstep, hop⟩ := step_by (d := d) hact s
  rw [hstep]
  unfold Site.work
  cases hi : s.managers[i]? with
  | none => exact ⟨Spared.refl s, confined_pure _⟩
  | some m =>
    have hmem := List.mem_of_getElem? hi
    have hne := hv.functionId_ne hi hj hij
    obtain ⟨hmoved, hconfined⟩ := hop _ (hv.desk hmem)
    refine ⟨hmoved.bind ?_, (hconfined.mono ?_).bind fun _ => confined_pure _⟩
    · rintro ⟨desk, result⟩ hm x hx
      cases hj.symm.trans hx
      refine ⟨(List.getElem?_set_ne hij).trans hj, ?_⟩
      exact hm.kept.others h m'.functionId (.inr hne.symm)
    · intro sel q hown hown'
      rw [Desk.Owns, hv.group m hmem] at hown
      exact hne (hv.registry.owner_unique hown hown')

/-- A function is left alone as long as only managers of other functions work. -/
theorem Valid.run_spares (hv : s.Valid h) (d : Device) (hj : s.managers[j]? = some m')
    {acts : List Act} (hacts : ∀ act ∈ acts, ∃ i, i ≠ j ∧ act.By i) :
    (s.run d h acts).Ends (s.Spared h j) ∧
      d.access.Confined (fun sel q => ¬ s.registry.Owns h m'.functionId sel q)
        (s.run d h acts) := by
  induction acts generalizing s with
  | nil => exact ⟨Spared.refl s, confined_pure _⟩
  | cons act acts ih =>
    obtain ⟨⟨i, hij, hact⟩, hrest⟩ := List.forall_mem_cons.1 hacts
    obtain ⟨hspared, hconfined⟩ := hv.step_spares d hj hij hact
    have hends := (hv.step d act).and hspared
    refine ⟨hends.bind fun s' hs => ?_, hconfined.bind_ends hends fun s' hs => ?_⟩
    · obtain ⟨hv', hs'⟩ := hs
      exact (ih hv' (hs' m' hj).1 hrest).1.mono fun _ => hs'.trans
    · obtain ⟨hv', hs'⟩ := hs
      obtain ⟨hj', hentry⟩ := hs' m' hj
      refine (ih hv' hj' hrest).2.mono fun sel q hown hown' => hown ?_
      unfold Registry.Owns
      rw [hentry]
      exact hown'

/-- After any run of the managers and the registry one manager sets its range, starts a queue or
stops some, on a device that may execute a command late or never. Nothing changes for the function
of another manager: its entry and its table are the same, and so are its function map and every
context of a queue in its range, these even if the operation ends in a fault. -/
theorem functions_isolated {σ : Type} {b : Backend σ} {policy : RequestPolicy} {acts : List Act}
    {before after : σ} (hr : (run d h ⟨.fresh policy, []⟩ acts).run b before = (.ok s, after))
    (hj : s.managers[j]? = some m') (hij : i ≠ j) {act : Act} (hact : act.By i)
    {card card' : Card} {result : Checked Site}
    (hstep : (s.step d h act).run (Card.backend d.access.variant.window) card = (result, card')) :
    (∀ s', result = .ok s' → s'.managers[j]? = some m' ∧
      s'.registry.lookup? h m'.functionId = s.registry.lookup? h m'.functionId) ∧
    ∀ sel q, s.registry.Owns h m'.functionId sel q →
      d.access.cells card' sel q = d.access.cells card sel q := by
  have hv : s.Valid h := ((valid_fresh policy h).run d acts).of_run hr
  obtain ⟨hspared, hconfined⟩ := hv.step_spares d hj hij hact
  refine ⟨?_, fun sel q hown => ?_⟩
  · rintro s' rfl
    exact hspared.of_run hstep m' hj
  · have hcell := hconfined card sel q (not_not_intro hown)
    rw [hstep] at hcell
    exact hcell

/-- Two functions with a queue each. -/
def pairRun : Script Site :=
  run Device.softDevice ⟨⟨1, 2⟩, 0⟩ ⟨.fresh .transactional, []⟩
    [.direct (.createGroup ⟨1, 2⟩ 0 8) trivial,
      .direct (.change ⟨⟨1, 2⟩, 0⟩ (.createFunction 1)) trivial,
      .direct (.change ⟨⟨1, 2⟩, 0⟩ (.createFunction 2)) trivial,
      .bind 1, .bind 2, .setRange 0 2 none, .setRange 1 4 none,
      .start 0 1 .h2c {}, .start 1 3 .h2c {}]

/-- A card with a word in every context. Its fourth command is executed, but never done. -/
def stallingCard : Card :=
  { contexts := fun _ _ => some [7], fate := fun i _ => if i = 3 then .stalled else .done 0 }

/-- The first function stops its queue. One of its contexts is cleared before the command times
out, but none of the other function. -/
theorem stalled_stop_isolated :
    ∃ s s' card', pairRun.run idleDevice () = (.ok s, ()) ∧
      (s.step Device.softDevice ⟨⟨1, 2⟩, 0⟩ (.stopAll 0)).run (Card.backend .soft) stallingCard =
        (.ok s', card') ∧
      s'.managers.map (fun m => m.slots.map Slot.key) = [[], [(3, .h2c)]] ∧
      Device.softDevice.access.cells card' .softwareH2c 1 = [0, 0, 0, 0, 0, 0, 0, 0] ∧
      ∀ sel, queueContext sel = true → Device.softDevice.access.cells card' sel 3 =
        Device.softDevice.access.cells stallingCard sel 3 := by
  obtain ⟨s, s', card', hr, hstep, hother, hentry, hslots, hcleared⟩ :
      ∃ s s' card', pairRun.run idleDevice () = (.ok s, ()) ∧
        (s.step Device.softDevice ⟨⟨1, 2⟩, 0⟩ (.stopAll 0)).run (Card.backend .soft)
          stallingCard = (.ok s', card') ∧
        (∃ m, s.managers[1]? = some m ∧ m.functionId = 2) ∧
        (∃ e, s.registry.lookup? ⟨⟨1, 2⟩, 0⟩ 2 = some e ∧ e.range = some ⟨2, 4⟩) ∧
        s'.managers.map (fun m => m.slots.map Slot.key) = [[], [(3, .h2c)]] ∧
        Device.softDevice.access.cells card' .softwareH2c 1 = [0, 0, 0, 0, 0, 0, 0, 0] :=
    ⟨_, _, _, rfl, rfl, ⟨_, rfl, rfl⟩, ⟨_, rfl, rfl⟩, rfl, rfl⟩
  obtain ⟨m, hm, hid⟩ := hother
  obtain ⟨e, he, hrange⟩ := hentry
  have hact : (Act.stopAll 0).By 0 := rfl
  obtain ⟨-, hcells⟩ := functions_isolated hr hm Nat.zero_ne_one hact hstep
  refine ⟨s, s', card', hr, hstep, hslots, hcleared, fun sel hsel => hcells sel 3 ?_⟩
  rw [hid]
  exact .inr ⟨hsel, e, he, ⟨2, 4⟩, hrange, by decide, by decide⟩

end Site

end DmaQueues
