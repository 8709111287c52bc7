import DmaQueues.Proofs.Access.Shape
import DmaQueues.Proofs.Engine.Commands
import DmaQueues.Proofs.Queue.Contexts

/-!
# The commands of a start and of a stop

A start issues the commands of `Device.startCommands` and a stop those of `Device.stopCommands`,
each once the one before is done, up to where it fails (`startQueue_issues`, `stopQueue_issues`).
-/

namespace DmaQueues

open Script (Issues issues_course)

/-- The kind of a descriptor queue. -/
def Direction.queueType : Direction → QueueType
  | .h2c => .h2c
  | .c2h => .c2h

namespace Device

/-- What is done before a descriptor queue is enabled. A stream has two contexts more. -/
def preparation (dir : Direction) (q : UInt16) (streams : Bool) : List Command :=
  [⟨.software dir, .clear, q⟩, ⟨.hardware dir, .clear, q⟩, ⟨.credit dir, .clear, q⟩] ++
    if streams then
      [⟨.prefetch, .clear, q⟩, ⟨.completion, .clear, q⟩, ⟨.completion, .write, q⟩,
        ⟨.prefetch, .write, q⟩]
    else []

/-- The write of the software context, which holds the queue enable bit. -/
def enabling (dir : Direction) (q : UInt16) : Command :=
  ⟨.software dir, .write, q⟩

/-- The queue has a completion and a prefetch context. -/
def streams (dir : Direction) (memoryMapped : Bool) : Bool :=
  dir == .c2h && !memoryMapped

def descriptorCommands (dir : Direction) (q : UInt16) (memoryMapped : Bool) : List Command :=
  preparation dir q (streams dir memoryMapped) ++ [enabling dir q]

def startCommands (q : UInt16) (type : QueueType) (memoryMapped : Bool) : List Command :=
  match type with
  | .h2c => descriptorCommands .h2c q memoryMapped
  | .c2h => descriptorCommands .c2h q memoryMapped
  | .cmpt => [⟨.completion, .clear, q⟩, ⟨.completion, .write, q⟩]

def stopCommands (q : UInt16) (type : QueueType) (memoryMapped : Bool) : List Command :=
  (ownedContexts type memoryMapped).map (⟨·, .invalidate, q⟩) ++
    (ownedContexts type memoryMapped).map (⟨·, .clear, q⟩)

theorem startCommands_queueType (dir : Direction) (q : UInt16) (memoryMapped : Bool) :
    startCommands q dir.queueType memoryMapped = descriptorCommands dir q memoryMapped := by
  cases dir <;> rfl

end Device

namespace Access

variable {a : Access} {s : Selector}

theorem clear_issues (hs : queueContext s = true) (q : UInt16) :
    Issues a.variant.window [⟨s, .clear, q⟩] (a.clear s q) := by
  have hv := a.variant.window_valid
  unfold clear
  rw [checkSelector_eq (supports_queueContext a hs), isDirect_queueContext a hs]
  exact issues_course (e := a.engine) hv (Engine.total_clear (e := a.engine) hv s q)
    (Engine.simple_course (e := a.engine) (c := ⟨s, .clear, q⟩) hv (by simp) 0)
    (Engine.simple_commands (e := a.engine) (c := ⟨s, .clear, q⟩) hv)

theorem invalidate_issues (hs : queueContext s = true) (q : UInt16) :
    Issues a.variant.window [⟨s, .invalidate, q⟩] (a.invalidate s q) := by
  have hv := a.variant.window_valid
  unfold invalidate
  rw [checkSelector_eq (supports_queueContext a hs), isDirect_queueContext a hs]
  exact issues_course (e := a.engine) hv (Engine.total_invalidate (e := a.engine) hv s q)
    (Engine.simple_course (e := a.engine) (c := ⟨s, .invalidate, q⟩) hv (by simp) 0)
    (Engine.simple_commands (e := a.engine) (c := ⟨s, .invalidate, q⟩) hv)

theorem write_issues (a : Access) (s : Selector) (q : UInt16) (data : List UInt32) :
    Issues a.variant.window [⟨s, .write, q⟩] (a.engine.write s q data) := by
  have hv := a.variant.window_valid
  exact issues_course (e := a.engine) hv (Engine.total_write (e := a.engine) hv s q data)
    (Engine.write_course (e := a.engine) hv s q data)
    (Engine.write_commands (e := a.engine) hv s q data)

theorem writePacked_issues {R F : Type} [Fields R F] (a : Access) (l : Layout F) (s : Selector)
    (q : UInt16) (r : R) : Issues a.variant.window [⟨s, .write, q⟩] (a.writePacked l s q r) :=
  .after (offline_lift _) fun image => a.write_issues s q image

theorem writeCompletion_issues (a : Access) (q : UInt16) (r : CompletionContext) :
    Issues a.variant.window [⟨.completion, .write, q⟩] (a.writeCompletion q r) := by
  unfold writeCompletion CompletionContext.encodeValid
  rw [bind_assoc]
  exact .after (offline_validate r) fun _ => .after (offline_lift _) fun image =>
    a.write_issues .completion q image

end Access

namespace Device

variable {α β : Type} {d : Device} {s : Selector} {plan : List Command}

theorem issues_lift {w : Window} {op : Action AccessError α} (h : Issues w plan op) :
    Issues w plan (lift op) := by
  unfold Issues
  rw [lift_run]
  refine Script.Logs.bind h (fun r t ht => ?_) fun e t ht => ⟨ht.1, ht.2.1, nofun⟩
  rw [Script.logs_pure, List.append_nil]
  refine ⟨ht.1, ht.2.1, fun v hv => ?_⟩
  cases r with
  | ok x => exact ht.2.2 x rfl
  | error e => cases hv

theorem clear_issues (d : Device) (hs : Access.queueContext s = true) (q : UInt16) :
    Issues d.variant.window [⟨s, .clear, q⟩] (d.clear s q) :=
  issues_lift (Access.clear_issues hs q)

theorem invalidate_issues (d : Device) (hs : Access.queueContext s = true) (q : UInt16) :
    Issues d.variant.window [⟨s, .invalidate, q⟩] (lift (d.access.invalidate s q)) :=
  issues_lift (Access.invalidate_issues hs q)

theorem programDescriptor_issues (d : Device) (q : UInt16) (dir : Direction)
    (software : SoftwareContext) (stream : Option (CompletionContext × PrefetchContext)) :
    Issues d.variant.window (preparation dir q stream.isSome ++ [enabling dir q])
      (d.programDescriptor q dir software stream) := by
  have henable : Issues d.variant.window [enabling dir q]
      (lift (d.access.writeSoftware dir q software)) :=
    issues_lift (d.access.writePacked_issues _ _ q software)
  obtain ⟨hsoftware, hhardware, hcredit⟩ := Access.queueContext_descriptor dir
  refine (clear_issues d hsoftware q).bind fun _ => (clear_issues d hhardware q).bind fun _ =>
    (clear_issues d hcredit q).bind fun _ => ?_
  cases stream with
  | none => exact henable
  | some stream =>
    obtain ⟨completion, prefetch⟩ := stream
    refine (clear_issues d (s := .prefetch) rfl q).bind fun _ =>
      (clear_issues d (s := .completion) rfl q).bind fun _ => ?_
    refine (issues_lift (d.access.writeCompletion_issues q completion)).bind fun _ => ?_
    exact (issues_lift (d.access.writePacked_issues _ .prefetch q prefetch)).bind fun _ => henable

theorem startDescriptor_issues (d : Device) (q : UInt16) (type : QueueType) (dir : Direction)
    (c : QueueConfig) : Issues d.variant.window (descriptorCommands dir q c.memoryMapped)
      (d.startDescriptor q type dir c) := by
  unfold startDescriptor descriptorCommands streams
  refine .after (softwareContext_checks d c).offline fun software => ?_
  cases dir == .c2h && !c.memoryMapped with
  | true =>
    refine .after (completionContext_checks d c true).offline fun completion => ?_
    exact (programDescriptor_issues d q dir software (some (completion, _))).andReturn
      fun _ => trivial
  | false => exact (programDescriptor_issues d q dir software none).andReturn fun _ => trivial

theorem launch_issues (d : Device) (q : UInt16) (type : QueueType) (c : QueueConfig) :
    Issues d.variant.window (startCommands q type c.memoryMapped) (d.launch q type c) := by
  unfold launch
  cases type with
  | h2c => exact startDescriptor_issues d q .h2c .h2c c
  | c2h => exact startDescriptor_issues d q .c2h .c2h c
  | cmpt =>
    refine .after (completionContext_checks d c false).offline fun completion => ?_
    exact (clear_issues d rfl q).bind fun _ =>
      issues_lift (d.access.writeCompletion_issues q completion)

theorem startQueue_issues (d : Device) (q : UInt16) (type : QueueType) (c : QueueConfig) :
    Issues d.variant.window (startCommands q type c.memoryMapped) (d.startQueue q type c) := by
  unfold Issues
  rw [startQueue_run]
  refine Script.Logs.bind (launch_issues d q type c) (fun r t ⟨hserial, hbegins, hok⟩ => ?_)
    fun e t ht => ⟨ht.1, ht.2.1, nofun⟩
  cases r with
  | ok _ =>
    rw [report, Script.logs_pure, List.append_nil]
    exact ⟨hserial, hbegins, hok⟩
  | error error =>
    refine ⟨Window.serial_append.2 ⟨hserial, fun _ => id, trivial⟩, ?_, nofun⟩
    rw [Window.commands_append]
    exact (List.append_nil _).symm ▸ hbegins

theorem stopQueue_issues (d : Device) (q : UInt16) (type : QueueType) (memoryMapped : Bool) :
    Issues d.variant.window (stopCommands q type memoryMapped)
      (d.stopQueue q type memoryMapped) := by
  have howned := queueContext_owned type memoryMapped
  refine Issues.bind (Issues.forM fun s hs => invalidate_issues d (howned s hs) q) fun _ => ?_
  exact (Issues.forM fun s hs => clear_issues d (howned s hs) q).andReturn fun _ => trivial

end Device

end DmaQueues
