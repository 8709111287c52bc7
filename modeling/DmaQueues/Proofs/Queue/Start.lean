import DmaQueues.Proofs.Access.Rejection
import DmaQueues.Proofs.Queue.Frame
import DmaQueues.Proofs.Queue.Site

/-!
# A start as a whole

A start takes a slot and counts its queue before it programs the contexts. Its checks all stand
before the first access: once the first context could be cleared, the queue id has its place in
every command, and nothing but a timeout is left to go wrong (`Guarded`, `FailsOnlyWith`). A
failed start takes back what it reserved, a start that succeeds leaves one slot and one count
(`start_outcome`).
-/

namespace DmaQueues

namespace Device

variable {α β ε : Type}

/-! ## Errors of an action -/

/-- `op` ends in no other error, whatever the device does. -/
def FailsOnlyWith (e : ε) (op : Action ε α) : Prop :=
  op.run.Traces fun r _ => ∀ error, r = .error error → error = e

theorem FailsOnlyWith.bind {e : ε} {op : Action ε α} {f : α → Action ε β}
    (h : FailsOnlyWith e op) (hf : ∀ a, FailsOnlyWith e (f a)) : FailsOnlyWith e (op >>= f) := by
  refine Script.Traces.action h (fun a _ _ => hf a) fun error _ he error' heq => ?_
  cases heq
  exact he error rfl

theorem FailsOnlyWith.lift {e : AccessError} {op : Action AccessError α}
    (h : FailsOnlyWith e op) : FailsOnlyWith (.access e) (lift op) := by
  unfold FailsOnlyWith
  rw [lift_run]
  refine Script.Traces.bind h fun r t he => ?_
  cases r with
  | ok a => exact nofun
  | error error =>
    rintro _ ⟨⟩
    rw [he error rfl]

/-- Any error of `op` but a timeout comes before its first access. -/
def Guarded (op : Action QueueError α) : Prop :=
  op.run.Traces fun r t => ∀ error, r = .error error → error ≠ .access .busyTimeout → t.Untouched

theorem FailsOnlyWith.guarded {op : Action QueueError α}
    (h : FailsOnlyWith (.access .busyTimeout) op) : Guarded op :=
  Script.Traces.mono h fun _ _ he error heq hne => absurd (he error heq) hne

theorem guarded_offline {op : Action QueueError α} (h : op.run.Offline) : Guarded op :=
  h.untouched.mono fun _ _ ht _ _ _ => ht

end Device

/-! ## Accesses of one context -/

/-- A queue id without a place is refused before the first access. -/
theorem Engine.simple_refused {e : Engine} {c : Command} (hq : ¬ e.Addresses c.qid) :
    (e.simple c).run.Silent (· = .error .invalidParameter) := by
  unfold simple
  rw [Script.run_action_bind]
  unfold commandWord
  rw [Command.encode_error (Bool.eq_false_iff.2 hq)]
  exact ⟨trivial, trivial, rfl⟩

/-- A command that the window takes is not refused. -/
theorem Engine.Course.error_eq {e : Engine} {c : Command} {length : Nat} {error : AccessError}
    {t : Trace} (h : e.Course c length (.error error) t) (htakes : e.window.Takes c length) :
    error = .busyTimeout := by
  cases h with
  | refused hn ht => exact absurd htakes hn
  | timedOut h hl hp => rfl

namespace Access

open Device

variable {a : Access} {s : Selector} {q : UInt16}

theorem clear_failsOnly (hs : queueContext s = true) (hq : a.engine.Addresses q) :
    FailsOnlyWith .busyTimeout (a.clear s q) := by
  unfold clear
  rw [checkSelector_eq (supports_queueContext a hs), isDirect_queueContext a hs]
  refine (Engine.simple_course a.variant.window_valid (c := ⟨s, .clear, q⟩) (by simp) 0).mono ?_
  rintro _ t ht error rfl
  exact ht.error_eq ⟨by simp, (Engine.addresses_iff a.variant.window_valid).1 hq⟩

theorem clear_refused (hs : queueContext s = true) (hq : ¬ a.engine.Addresses q) :
    (a.clear s q).run.Silent (· = .error .invalidParameter) := by
  unfold clear
  rw [checkSelector_eq (supports_queueContext a hs), isDirect_queueContext a hs]
  exact Engine.simple_refused (e := a.engine) (c := ⟨s, .clear, q⟩) hq

/-- A record that cannot be packed ends in a fault, and no error is left. -/
theorem writePacked_failsOnly {R F : Type} [DecidableEq F] [Fields R F] {l : Layout F}
    (hl : l.Valid) (hw : l.words ≤ a.variant.window.words) (hq : a.engine.Addresses q)
    (s : Selector) (r : R) : FailsOnlyWith .busyTimeout (a.writePacked l s q r) := by
  by_cases hr : l.Holds r
  · have hlength : (l.pack r).length ≤ a.variant.window.words := by
      rw [Layout.length_pack]
      omega
    unfold writePacked
    rw [Layout.encode_eq hl.segment_fits hr]
    refine (Engine.write_course a.variant.window_valid s q (l.pack r)).mono ?_
    rintro _ t ht error rfl
    exact ht.error_eq ⟨fun _ => hlength, (Engine.addresses_iff a.variant.window_valid).1 hq⟩
  · obtain ⟨f, hf⟩ := writePacked_fault (a := a) hl hr s q
    unfold FailsOnlyWith
    rw [hf]
    trivial

end Access

namespace Device

open Access

variable {d : Device} {s : Selector} {qid : UInt16}

theorem clear_failsOnly (hs : queueContext s = true) (hq : d.access.engine.Addresses qid) :
    FailsOnlyWith (.access .busyTimeout) (d.clear s qid) :=
  (Access.clear_failsOnly hs hq).lift

theorem clear_refused (hs : queueContext s = true) (hq : ¬ d.access.engine.Addresses qid) :
    Checks (d.clear s qid) false () :=
  .of_refused (Access.clear_refused hs hq) ()

theorem writeCompletion_failsOnly (hq : d.access.engine.Addresses qid) (c : QueueConfig)
    (cardToHost : Bool) : FailsOnlyWith (.access .busyTimeout)
      (lift (d.access.writeCompletion qid (c.completion cardToHost))) := by
  rw [Access.writeCompletion_eq (completion_triggerMode c cardToHost)]
  exact (Access.writePacked_failsOnly (RecordKind.layout_valid d.access.family .completion)
    (RecordKind.layout_words_le .completion d.access.variant) hq _ _).lift

/-! ## Programming -/

/-- The first context that is cleared decides about the queue id. -/
theorem guarded_clear {f : Unit → Action QueueError Unit} (hs : queueContext s = true)
    (hf : d.access.engine.Addresses qid → FailsOnlyWith (.access .busyTimeout) (f ())) :
    Guarded (d.clear s qid >>= f) := by
  by_cases hq : d.access.engine.Addresses qid
  · exact ((clear_failsOnly hs hq).bind fun _ => hf hq).guarded
  · exact guarded_offline ((clear_refused hs hq).refused f ()).offline

theorem programDescriptor_guarded (d : Device) (qid : UInt16) (dir : Direction) (c : QueueConfig)
    (streams : Bool) : Guarded (d.programDescriptor qid dir c.software
      (if streams then some (c.completion true, prefetchContext c) else none)) := by
  obtain ⟨hsoftware, hhardware, hcredit⟩ := queueContext_descriptor dir
  unfold programDescriptor
  refine guarded_clear hsoftware fun hq => ?_
  have hpacked : ∀ (k : RecordKind) (s : Selector) (r : k.Contents),
      FailsOnlyWith (.access .busyTimeout)
        (lift (d.access.writePacked (k.layout d.access.family) s qid r)) := fun k s r =>
    (writePacked_failsOnly (RecordKind.layout_valid d.access.family k)
      (RecordKind.layout_words_le k d.access.variant) hq s r).lift
  have hwrite := hpacked .software (.software dir) c.software
  refine (clear_failsOnly hhardware hq).bind fun _ => (clear_failsOnly hcredit hq).bind fun _ => ?_
  cases streams with
  | false => exact hwrite
  | true =>
    refine (clear_failsOnly rfl hq).bind fun _ => (clear_failsOnly rfl hq).bind fun _ => ?_
    refine (writeCompletion_failsOnly hq c true).bind fun _ => ?_
    exact (hpacked .prefetch .prefetch (prefetchContext c)).bind fun _ => hwrite

/-- A notice at the end. -/
theorem Guarded.andNotice {op : Action QueueError Unit} (h : Guarded op) (n : Notice) :
    Guarded (op >>= fun _ => liftM (Script.notice n)) := by
  refine Script.Traces.action h (fun _ t _ => ?_) fun error t ht => ht
  exact fun _ => nofun

theorem Checks.guarded {op : Action QueueError α} {f : α → Action QueueError β} {ok : Bool}
    {a : α} (h : Checks op ok a) (hf : Guarded (f a)) : Guarded (op >>= f) := by
  refine (h.ends.traces.and h.offline.untouched).action (fun x t ⟨hx, ht⟩ => ?_)
    fun error t ⟨_, ht⟩ _ _ _ => ht
  obtain rfl : x = a := by
    cases ok with
    | true => exact Except.ok.inj hx
    | false => cases hx
  exact hf.mono fun r t' hr error he hne => ht.append (hr error he hne)

theorem launch_guarded (d : Device) (qid : UInt16) (type : QueueType) (c : QueueConfig) :
    Guarded (d.launch qid type c) := by
  have hsoftware := softwareContext_checks d c
  unfold launch startDescriptor
  cases type with
  | h2c => exact hsoftware.guarded ((programDescriptor_guarded d qid .h2c c false).andNotice _)
  | c2h =>
    cases hm : c.memoryMapped with
    | true => exact hsoftware.guarded ((programDescriptor_guarded d qid .c2h c false).andNotice _)
    | false =>
      exact hsoftware.guarded ((completionContext_checks d c true).guarded
        ((programDescriptor_guarded d qid .c2h c true).andNotice _))
  | cmpt =>
    exact (completionContext_checks d c false).guarded
      (guarded_clear rfl fun hq => writeCompletion_failsOnly hq c false)

theorem startQueue_guarded (d : Device) (qid : UInt16) (type : QueueType) (c : QueueConfig) :
    Guarded (d.startQueue qid type c) := by
  unfold Guarded
  rw [startQueue_run]
  refine (launch_guarded d qid type c).bind fun r t ht => ?_
  cases r with
  | ok _ => exact nofun
  | error error =>
    rintro _ ⟨⟩ hne
    exact (ht error rfl hne).append (Trace.untouched_notices [_])

end Device

namespace Desk

variable {d : Device} {desk desk' : Desk}

/-- An error but a timeout comes before the first access. -/
theorem program_guarded (d : Device) (desk : Desk) (qid : UInt16) (type : QueueType)
    (c : QueueConfig) : (desk.program d qid type c).Traces fun out t => ∀ error,
      out.2 = .error error → error ≠ .access .busyTimeout → t.Untouched := by
  unfold program
  refine (offline_change _ _).untouched.bind ?_
  rintro ⟨desk', result⟩ t ht
  cases result with
  | error error =>
    rw [Script.traces_pure, List.append_nil]
    exact fun _ _ _ => ht
  | ok _ =>
    refine (Device.startQueue_guarded d qid type _).bind fun started t' ht' => ?_
    cases started with
    | ok _ => exact nofun
    | error error =>
      refine (offline_dropActive _ _ _).untouched.bind fun back t'' ht'' => ?_
      rw [Script.traces_pure, List.append_nil]
      rintro _ ⟨⟩ hne
      exact ht.append ((ht' error rfl hne).append ht'')

theorem start_guarded (d : Device) (desk : Desk) (hwQid : Nat) (type : QueueType)
    (c : QueueConfig) : (desk.start d hwQid type c).Traces fun out t => ∀ error,
      out.2 = .error error → error ≠ .access .busyTimeout → t.Untouched := by
  unfold start
  refine (offline_checkRange desk hwQid).untouched.bind fun checked t ht => ?_
  cases checked with
  | error error =>
    rw [Script.traces_pure, List.append_nil]
    exact fun _ _ _ => ht
  | ok qid =>
    by_cases htaken : (desk.manager.slots.any fun s => s.holds qid type) = true
    · simp only [if_pos htaken]
      rw [Script.traces_pure, List.append_nil]
      exact fun _ _ _ => ht
    · simp only [if_neg htaken]
      refine (program_guarded d _ qid type c).bind ?_
      rintro ⟨desk', result⟩ t' ht'
      cases result with
      | ok _ => exact nofun
      | error error =>
        rw [Script.traces_pure, List.append_nil]
        rintro _ ⟨⟩ hne
        exact ht.append (ht' error rfl hne)

/-- A start that fails leaves the table and the registry as they were, and has not accessed the
device unless a command timed out. One that succeeds appends the slot of the queue, which is
running, and counts the queue once more for its function and in the sum of the group. -/
theorem start_outcome {σ : Type} {policy : RequestPolicy} {calls : List Registry.Call}
    {results : List (Except ResourceError Answer)} {hwQid : Nat} {type : QueueType}
    {c : QueueConfig} {b : Backend σ} {s s' : σ} {result : Except QueueError Unit} {t : Trace}
    (hreach : (Registry.fresh policy).run calls = .ok (desk.registry, results))
    (hr : (desk.start d hwQid type c).trace b s = (.ok (desk', result), s', t)) :
    match result with
    | .error error => desk' = desk ∧
        (error ≠ .access .busyTimeout → t.reads = [] ∧ t.writes = [])
    | .ok () => ∃ (qid : UInt16) (g : Group) (e : FunctionEntry), qid.toNat = hwQid ∧
        desk'.manager = { desk.manager with
          slots := desk.manager.slots ++ [⟨⟨qid, type, c.memoryMapped⟩, true⟩] } ∧
        desk.registry.find? desk.manager.group = some g ∧
        g.find? desk.manager.functionId = some e ∧
        desk'.registry = desk.registry.replace desk.manager.group.index
          (g.recount desk.manager.functionId type (e.active.get type + 1) (g.active + 1)) := by
  have hv := (Registry.valid_of_run hreach).1
  have hspec := (start_spec (d := d) hv hwQid type c).traces.of_trace hr
  have hguarded := (start_guarded d desk hwQid type c).of_trace hr
  cases result with
  | error error =>
    refine ⟨hspec, fun hne => ?_⟩
    have huntouched := hguarded error rfl hne
    exact ⟨huntouched.reads, huntouched.writes⟩
  | ok _ =>
    obtain ⟨qid, hqid, -, -, ⟨notices, hcount⟩, hm⟩ := hspec
    rcases hv.incrementActive_inv hcount with ⟨_, -, he⟩ | ⟨g, e, range, hf, he, -, -, heq⟩
    · cases he
    · have hregistry := congrArg Reply.state heq
      exact ⟨qid, g, e, hqid, hm, hf, he, hregistry⟩

/-- A manager whose function has four of eight queues. -/
def fourQueues : Desk where
  registry := ⟨.transactional,
    [⟨⟨1, 2⟩, 0, ⟨0, 8⟩, ⟨[⟨4, 4⟩]⟩, [⟨1, some ⟨0, 4⟩, {}⟩], 0⟩], 1⟩
  manager := ⟨⟨⟨1, 2⟩, 0⟩, 1, []⟩

theorem fourQueues_reached : ∃ results, (Registry.fresh .transactional).run
    [.createGroup ⟨1, 2⟩ 0 8, .change ⟨⟨1, 2⟩, 0⟩ (.createFunction 1),
      .change ⟨⟨1, 2⟩, 0⟩ (.requestRange 1 4 none)] = .ok (fourQueues.registry, results) :=
  ⟨_, rfl⟩

/-- A vector that is too wide is found before the first access, a lost command only after the queue
was counted, and neither leaves anything behind. -/
theorem fourQueues_starts :
    (∃ desk t, (fourQueues.start Device.softDevice 3 .h2c { vector := 0x800 }).trace
        Site.idleDevice () = (.ok (desk, .error (.access .invalidParameter)), (), t) ∧
      desk = fourQueues ∧ t.reads = [] ∧ t.writes = []) ∧
    (∃ desk card t, (fourQueues.start Device.softDevice 3 .h2c {}).trace (Card.backend .soft)
        { fate := fun _ _ => .lost } = (.ok (desk, .error (.access .busyTimeout)), card, t) ∧
      desk = fourQueues) ∧
    ∃ desk t, (fourQueues.start Device.softDevice 3 .h2c {}).trace Site.idleDevice () =
        (.ok (desk, .ok ()), (), t) ∧
      ∃ (qid : UInt16) (g : Group) (e : FunctionEntry), qid.toNat = 3 ∧
        desk.manager.slots = [⟨⟨qid, .h2c, false⟩, true⟩] ∧
        desk.registry = fourQueues.registry.replace 0 (g.recount 1 .h2c (e.active.h2c + 1)
          (g.active + 1)) := by
  obtain ⟨results, hreach⟩ := fourQueues_reached
  refine ⟨?_, ?_, ?_⟩
  · have hr : (fourQueues.start Device.softDevice 3 .h2c { vector := 0x800 }).trace
        Site.idleDevice () = (.ok (fourQueues, .error (.access .invalidParameter)), (), _) := rfl
    obtain ⟨hdesk, huntouched⟩ := start_outcome hreach hr
    exact ⟨_, _, hr, hdesk, huntouched nofun⟩
  · have hr : (fourQueues.start Device.softDevice 3 .h2c {}).trace (Card.backend .soft)
        { fate := fun _ _ => .lost } =
          (.ok (fourQueues, .error (.access .busyTimeout)), _, _) := rfl
    exact ⟨_, _, _, hr, (start_outcome hreach hr).1⟩
  · have hr : (fourQueues.start Device.softDevice 3 .h2c {}).trace Site.idleDevice () =
        (.ok (_, .ok ()), (), _) := rfl
    obtain ⟨qid, g, e, hqid, hm, -, -, hregistry⟩ := start_outcome hreach hr
    exact ⟨_, _, hr, qid, g, e, hqid, congrArg Manager.slots hm, hregistry⟩

end Desk

end DmaQueues
