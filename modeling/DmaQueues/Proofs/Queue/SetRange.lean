import DmaQueues.Proofs.Allocation.Rollback
import DmaQueues.Proofs.Engine.Writes
import DmaQueues.Proofs.Queue.FunctionMap
import DmaQueues.Proofs.Queue.Start

/-!
# Setting a range as a whole

If the function map cannot be set, whatever the reason, the registry is asked for the range that
the function had before. That request undoes the first one, so an error leaves the registry as it
was, and otherwise the writes of the call are exactly those that set the map to the range of the
registry (`setRange_outcome`). Either way the call returns: the bounds of a range are checked
before they are packed.
-/

namespace DmaQueues

open Device (checkFits checkFits_checks lift)

/-! ## Records whose values were all checked -/

theorem Layout.Valid.holds_of_accepts {R F : Type} [DecidableEq F] [Fields R F] {l : Layout F}
    (hl : l.Valid) {r : R} (h : ∀ field, l.accepts field (Fields.get r field) = true) :
    l.Holds r := by
  intro e he
  have haccepts := h e.1
  unfold accepts at haccepts
  rw [hl.segments?_eq_some.2 he] at haccepts
  exact beq_iff_eq.1 haccepts

namespace Access

variable {a : Access}

/-- What sets the map of a function to a packed record: the register of the function, or the
context behind the window. -/
def mapWrites (a : Access) (functionId : UInt16) (image : Image) : WriteLog :=
  if a.variant.directFunctionMap then [(Register.functionMap functionId, image.headD 0)]
  else a.engine.written ⟨.functionMap, .write, functionId⟩ image

/-- The events that set the map of a function to `m`. A command was waited for. -/
structure Maps (a : Access) (functionId : UInt16) (m : FunctionMap) (t : Trace) : Prop where
  writes : ∃ image, (FunctionMap.layout a.family).encode m = .ok image ∧
    t.writes = a.mapWrites functionId image
  idles : a.variant.directFunctionMap = false → a.engine.Idles t

theorem total_writeFunctionMap {m : FunctionMap} (hm : (FunctionMap.layout a.family).Holds m)
    (functionId : UInt16) : (a.writeFunctionMap functionId m).run.Total := by
  have hl : (FunctionMap.layout a.family).Valid := RecordKind.layout_valid a.family .functionMap
  unfold writeFunctionMap
  rw [Layout.encode_eq hl.segment_fits hm]
  split
  · unfold checkFunction
    split <;> trivial
  · exact Engine.total_write (e := a.engine) a.variant.window_valid .functionMap functionId _

theorem Maps.after {functionId : UInt16} {m : FunctionMap} {t t' : Trace} (ht : t.Untouched)
    (h : a.Maps functionId m t') : a.Maps functionId m (t ++ t') where
  writes := by
    rw [Trace.writes_append, ht.writes]
    exact h.writes
  idles hd := by
    unfold Engine.Idles
    rw [Trace.reads_append, ht.reads]
    exact h.idles hd

theorem Maps.andNotices {functionId : UInt16} {m : FunctionMap} {t t' : Trace}
    (h : a.Maps functionId m t) (ht : t'.Untouched) : a.Maps functionId m (t ++ t') where
  writes := by
    rw [Trace.writes_append, ht.writes, List.append_nil]
    exact h.writes
  idles hd := by
    unfold Engine.Idles
    rw [Trace.reads_append, ht.reads, List.append_nil]
    exact h.idles hd

/-- A record that can be packed is written, unless an error is given. -/
theorem writeFunctionMap_gives {m : FunctionMap} (hm : (FunctionMap.layout a.family).Holds m)
    (functionId : UInt16) :
    (a.writeFunctionMap functionId m).run.Gives fun r t => r = .ok () → a.Maps functionId m t := by
  have hl : (FunctionMap.layout a.family).Valid := RecordKind.layout_valid a.family .functionMap
  have hencode := Layout.encode_eq hl.segment_fits hm
  refine ⟨total_writeFunctionMap hm functionId, ?_⟩
  unfold writeFunctionMap
  rw [hencode]
  cases hd : a.variant.directFunctionMap with
  | true =>
    refine (offline_checkFunction functionId).untouched.action (fun _ t ht => ?_) fun _ _ _ => nofun
    refine fun _ => Maps.after ht ⟨⟨_, hencode, ?_⟩, fun hindirect => ?_⟩
    · rw [mapWrites, if_pos hd]
      rfl
    · rw [hd] at hindirect
      cases hindirect
  | false =>
    refine (Engine.write_writes (e := a.engine) a.variant.window_valid .functionMap functionId
      _).mono fun r t h hr => ?_
    obtain ⟨hwrites, hidles⟩ := h hr
    refine ⟨⟨_, hencode, ?_⟩, fun _ => hidles⟩
    rw [mapWrites, hd]
    exact hwrites

end Access

namespace Device

variable {α : Type} {d : Device} {functionId : UInt16} {m : FunctionMap}

/-- `op` always returns, and has set the map of the function if it succeeds. -/
def Sets (d : Device) (functionId : UInt16) (m : FunctionMap) (op : Action QueueError Unit) :
    Prop :=
  op.run.Gives fun r t => r = .ok () → d.access.Maps functionId m t

theorem Checks.sets {op : Action QueueError α} {f : α → Action QueueError Unit} {ok : Bool}
    {x : α} (h : Checks op ok x) (hf : ok = true → d.Sets functionId m (f x)) :
    d.Sets functionId m (op >>= f) := by
  unfold Sets
  rw [Script.run_action_bind]
  refine (Script.Silent.gives h).bind ?_
  rintro _ t ⟨rfl, ht⟩
  cases ok with
  | true => exact (hf rfl).mono fun r t' hr he => (hr he).after ht
  | false => exact Script.gives_pure nofun

theorem setFunctionMap_sets (d : Device) (functionId base count : UInt16) :
    d.Sets functionId { base, count } (d.setFunctionMap functionId base count) := by
  have hl : (FunctionMap.layout d.access.family).Valid :=
    RecordKind.layout_valid d.access.family .functionMap
  have hchecks := checkFits_checks (FunctionMap.layout d.access.family)
  unfold setFunctionMap
  refine (hchecks .base base.toUInt64).sets fun hbase => ?_
  refine (hchecks .count count.toUInt64).sets fun hcount => ?_
  have hm : (FunctionMap.layout d.access.family).Holds ({ base, count } : FunctionMap) := by
    refine hl.holds_of_accepts fun field => ?_
    cases field with
    | base => exact hbase
    | count => exact hcount
  unfold Sets
  rw [Script.run_action_bind, lift_run, bind_assoc]
  refine (Access.writeFunctionMap_gives hm functionId).bind fun r t hr => ?_
  cases r with
  | error error => exact Script.gives_pure nofun
  | ok _ => exact ⟨trivial, fun _ => (hr rfl).andNotices (Trace.untouched_notices [_])⟩

end Device

/-- What was given to the function after a request that was met. -/
theorem Registry.Valid.updateFunction_range {r : Registry} (hv : r.Valid) {h : GroupHandle}
    {id : UInt16} {count : Nat} {hint : Option Nat}
    {reply : Reply Registry ResourceError (Option QueueRange)} {range : Option QueueRange}
    (hr : r.updateFunction h id count hint = .ok reply) (hmet : reply.result = .ok range) :
    reply.state.range h id = .ok range := by
  rcases hv.updateFunction_inv hr with
    ⟨error, hresult, -⟩ | ⟨g, e, free, range', hf, he, -, -, hs, hresult⟩
  · cases hresult.symm.trans hmet
  · cases hresult.symm.trans hmet
    have hlookup : (r.replace h.index (g.assign id free range)).lookup? h id =
        (g.assign id free range).find? id := lookup?_replace hf rfl
    rw [hs, range_eq, hlookup, Group.find?_assign_self he]

theorem Script.silent_notices (ns : List Notice) : (notices ns).Silent fun _ => True := by
  induction ns with
  | nil => exact ⟨trivial, trivial, trivial⟩
  | cons n ns ih => exact ⟨ih.offline, ih.total, ih.ends⟩

namespace Desk

variable {α : Type} {d : Device} {desk : Desk}

theorem programMap_gives (d : Device) (functionId : UInt16) (range : Option QueueRange) :
    (programMap d functionId range).run.Gives fun r t => r = .ok () →
      ∃ m : FunctionMap, m.bounds = QueueRange.boundsOf range ∧ d.access.Maps functionId m t := by
  unfold programMap
  cases range with
  | none =>
    exact (d.setFunctionMap_sets functionId 0 0).mono fun r t h hr => ⟨_, rfl, h hr⟩
  | some range =>
    by_cases hlt : range.base < UInt16.size ∧ range.count < UInt16.size
    · simp only [if_pos hlt]
      refine (d.setFunctionMap_sets functionId _ _).mono fun r t h hr => ⟨_, ?_, h hr⟩
      exact Prod.ext (UInt16.toNat_ofNat_of_lt' hlt.1) (UInt16.toNat_ofNat_of_lt' hlt.2)
    · simp only [if_neg hlt]
      exact Script.gives_pure nofun

theorem change_gives {op : Checked (Reply Registry ResourceError α)}
    {reply : Reply Registry ResourceError α} (hr : op = .ok reply) :
    (desk.change op).Gives fun out t =>
      out = ({ desk with registry := reply.state }, reply.result) ∧ t.Untouched := by
  subst hr
  have hsilent : (desk.change (.ok reply)).Silent
      (· = ({ desk with registry := reply.state }, reply.result)) :=
    (Script.silent_notices reply.notices).bind fun _ _ => ⟨trivial, trivial, rfl⟩
  exact hsilent.gives

/-- The range that the function had before is given back, and nothing else has changed. -/
theorem restore_gives (hv : desk.registry.Valid) {count : Nat} {hint : Option Nat}
    {reply : Reply Registry ResourceError (Option QueueRange)} {range : Option QueueRange}
    (hr : desk.registry.updateFunction desk.manager.group desk.manager.functionId count hint =
      .ok reply) (hmet : reply.result = .ok range) :
    (Desk.restore { desk with registry := reply.state } desk.held).Gives fun back _ =>
      back = desk := by
  obtain ⟨notices, hback⟩ := hv.updateFunction_undone hr hmet
  rw [restore_eq, askBack_eq]
  refine (change_gives hback).bind ?_
  rintro _ t ⟨rfl, -⟩
  have hsettle : settle desk.manager.functionId desk.held (desk, .ok desk.held) = pure desk := by
    unfold settle
    simp only [if_pos]
  exact hsettle ▸ Script.gives_pure rfl

/-- An error leaves the desk as it was. Otherwise the range is the one of the function, and the map
was set to it. -/
theorem setRange_gives (hv : desk.registry.Valid) (d : Device) (count : Nat) (hint : Option Nat) :
    (desk.setRange d count hint).Gives fun out t =>
      match out.2 with
      | .error _ => out.1 = desk
      | .ok range => out.1.manager = desk.manager ∧
        out.1.registry.range desk.manager.group desk.manager.functionId = .ok range ∧
        ∃ m : FunctionMap, m.bounds = QueueRange.boundsOf range ∧
          d.access.Maps desk.manager.functionId m t := by
  unfold setRange
  cases hrange : desk.range with
  | error error => exact Script.gives_pure rfl
  | ok before =>
    obtain rfl := held_of_range hrange
    obtain ⟨reply, hr⟩ := hv.updateFunction_returns desk.manager.group desk.manager.functionId
      count hint
    refine (change_gives hr).bind ?_
    rintro _ t ⟨rfl, ht⟩
    cases hresult : reply.result with
    | error error =>
      have hsame : reply.state = desk.registry := hv.updateFunction_refused hr hresult
      exact Script.gives_pure (by rw [hsame])
    | ok range =>
      refine (programMap_gives d desk.manager.functionId range).bind fun mapped t' hm => ?_
      cases mapped with
      | ok _ =>
        obtain ⟨m, hbounds, hmaps⟩ := hm rfl
        refine Script.gives_pure ⟨rfl, hv.updateFunction_range hr hresult, m, hbounds, ?_⟩
        rw [List.append_nil]
        exact hmaps.after ht
      | error error =>
        exact (restore_gives hv hr hresult).bind fun back t'' hback => Script.gives_pure hback

/-- Setting the range of a function always returns, whatever the device answers. An error leaves
the registry and the table as they were. A range that is returned is the one that the registry has
assigned to the function, and all that was written is the map of the function, set to this range. -/
theorem setRange_outcome {σ : Type} {policy : RequestPolicy} {calls : List Registry.Call}
    {results : List (Except ResourceError Answer)}
    (hreach : (Registry.fresh policy).run calls = .ok (desk.registry, results)) (d : Device)
    (count : Nat) (hint : Option Nat) (b : Backend σ) (s : σ) :
    ∃ desk' result s' t, (desk.setRange d count hint).trace b s = (.ok (desk', result), s', t) ∧
      match result with
      | .error _ => desk' = desk
      | .ok range => desk'.manager = desk.manager ∧
        desk'.registry.range desk.manager.group desk.manager.functionId = .ok range ∧
        ∃ m : FunctionMap, m.bounds = QueueRange.boundsOf range ∧
          d.access.Maps desk.manager.functionId m t := by
  have hv := (Registry.valid_of_run hreach).1
  obtain ⟨⟨desk', result⟩, s', t, htrace, hout⟩ := (setRange_gives hv d count hint).trace b s
  exact ⟨desk', result, s', t, htrace, hout⟩

/-- A manager whose function has free queues on both sides of its range, and a neighbour. -/
def betweenFree : Desk where
  registry := ⟨.releaseFirst, [⟨⟨1, 2⟩, 0, ⟨0, 9⟩, ⟨[⟨0, 2⟩, ⟨5, 3⟩]⟩,
    [⟨1, some ⟨2, 3⟩, {}⟩, ⟨2, some ⟨8, 1⟩, {}⟩], 0⟩], 1⟩
  manager := ⟨⟨⟨1, 2⟩, 0⟩, 1, []⟩

theorem betweenFree_reached : ∃ results, (Registry.fresh .releaseFirst).run
    [.createGroup ⟨1, 2⟩ 0 9, .change ⟨⟨1, 2⟩, 0⟩ (.createFunction 1),
      .change ⟨⟨1, 2⟩, 0⟩ (.createFunction 2),
      .change ⟨⟨1, 2⟩, 0⟩ (.requestRange 2 1 (some 8)),
      .change ⟨⟨1, 2⟩, 0⟩ (.requestRange 1 3 (some 2))] = .ok (betweenFree.registry, results) :=
  ⟨_, rfl⟩

/-- The range grows to both sides. If the command is lost it shrinks again, and the free ranges
that were joined are split as they were. -/
theorem betweenFree_grows :
    (∃ desk card t, (betweenFree.setRange Device.softDevice 7 none).trace (Card.backend .soft)
        { fate := fun _ _ => .lost } = (.ok (desk, .error (.access .busyTimeout)), card, t) ∧
      desk = betweenFree) ∧
    ∃ desk t, (betweenFree.setRange Device.softDevice 7 none).trace Site.idleDevice () =
        (.ok (desk, .ok (some ⟨0, 7⟩)), (), t) ∧
      desk.registry.range ⟨⟨1, 2⟩, 0⟩ 1 = .ok (some ⟨0, 7⟩) ∧
      ∃ m : FunctionMap, m.bounds = (0, 7) ∧ Device.softDevice.access.Maps 1 m t := by
  obtain ⟨results, hreach⟩ := betweenFree_reached
  constructor
  · have hr : (betweenFree.setRange Device.softDevice 7 none).trace (Card.backend .soft)
        { fate := fun _ _ => .lost } =
          (.ok (betweenFree, .error (.access .busyTimeout)), _, _) := rfl
    obtain ⟨desk, result, s', t, htrace, hout⟩ := setRange_outcome hreach Device.softDevice 7 none
      (Card.backend .soft) { fate := fun _ _ => .lost }
    cases hr.symm.trans htrace
    exact ⟨_, _, _, hr, hout⟩
  · have hr : (betweenFree.setRange Device.softDevice 7 none).trace Site.idleDevice () =
        (.ok (_, .ok (some ⟨0, 7⟩)), (), _) := rfl
    obtain ⟨desk, result, s', t, htrace, hout⟩ := setRange_outcome hreach Device.softDevice 7 none
      Site.idleDevice ()
    cases hr.symm.trans htrace
    exact ⟨_, _, hr, hout.2⟩

end Desk

end DmaQueues
