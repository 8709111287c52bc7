import DmaQueues.Proofs.Access.Writes
import DmaQueues.Proofs.Queue.Validation

/-!
# What operations write

An operation of a device writes a sequence of updates of its variant (`Variant.Updates`), also
if it ends in an error or in a fault. Probing writes nothing, and attaching only if it has to
clear the context memory; the variant is then the one that the probe has reported. Over any
device, this holds of every operation of a sequence (`writes_confined`).
-/

namespace DmaQueues

namespace Variant

variable {v : Variant}

/-- What several accesses write, one after the other. -/
def Updates (v : Variant) (writes : WriteLog) : Prop :=
  ∃ updates : List WriteLog, writes = updates.flatten ∧ ∀ u ∈ updates, v.Update u

theorem updates_nil (v : Variant) : v.Updates [] :=
  ⟨[], rfl, nofun⟩

theorem Update.updates {writes : WriteLog} (h : v.Update writes) : v.Updates writes :=
  ⟨[writes], by simp, by simpa using h⟩

theorem Updates.append {writes writes' : WriteLog} (h : v.Updates writes) (h' : v.Updates writes') :
    v.Updates (writes ++ writes') := by
  obtain ⟨updates, rfl, hu⟩ := h
  obtain ⟨updates', rfl, hu'⟩ := h'
  exact ⟨updates ++ updates', List.flatten_append.symm,
    fun u hmem => (List.mem_append.1 hmem).elim (hu u) (hu' u)⟩

theorem Updates.writable {writes : WriteLog} (h : v.Updates writes) :
    ∀ access ∈ writes, v.Writable access.1 := by
  obtain ⟨updates, rfl, hu⟩ := h
  intro access haccess
  obtain ⟨u, hmem, hin⟩ := List.mem_flatten.1 haccess
  exact (hu u hmem).writable access hin

end Variant

namespace Script

variable {α β ε : Type} {v : Variant} {p : Script α}

/-- Updates are all that is written. -/
def Updates (v : Variant) (p : Script α) : Prop :=
  p.Logs fun _ t => v.Updates t.writes

theorem UpdatesOnce.updates (h : p.UpdatesOnce v) : p.Updates v := by
  refine h.mono fun _ t ht => ?_
  rcases ht with hnone | honce
  · rw [hnone]
    exact v.updates_nil
  · exact honce.updates

theorem Offline.updates (h : p.Offline) : p.Updates v :=
  UpdatesOnce.updates h.updatesOnce

theorem Updates.bind {f : α → Script β} (h : p.Updates v) (hf : ∀ a, (f a).Updates v) :
    (p >>= f).Updates v := by
  refine Logs.bind h (fun a t ht => (hf a).mono fun r t' ht' => ?_) fun e t ht => ht
  rw [Trace.writes_append]
  exact ht.append ht'

theorem Updates.action {op : Action ε α} {f : α → Action ε β} (h : op.run.Updates v)
    (hf : ∀ a, (f a).run.Updates v) : (op >>= f).run.Updates v := by
  rw [run_action_bind]
  refine h.bind fun r => ?_
  cases r with
  | ok a => exact hf a
  | error e => exact Offline.updates trivial

theorem Updates.forM {g : α → Action ε Unit} (h : ∀ a, (g a).run.Updates v) (items : List α) :
    (items.forM g).run.Updates v := by
  induction items with
  | nil => exact Offline.updates trivial
  | cons a rest ih => exact (h a).action fun _ => ih

theorem Updates.lift {op : Action AccessError α} (h : op.run.Updates v) :
    (Device.lift op).run.Updates v := by
  rw [Device.lift_run]
  exact h.bind fun _ => Offline.updates trivial

end Script

/-- An access as a step of the queue lifecycle. -/
theorem Access.Shape.updates {α : Type} {a : Access} {op : Action AccessError α}
    (h : a.Shape op) : (Device.lift op).run.Updates a.variant :=
  h.updatesOnce.updates.lift

namespace Device

/-! ## Queues and function maps -/

theorem clear_updates (d : Device) (s : Selector) (q : UInt16) :
    (d.clear s q).run.Updates d.variant :=
  (d.access.shape_clear s q).updates

theorem initContextMemory_updates (d : Device) : d.initContextMemory.run.Updates d.variant := by
  unfold initContextMemory
  refine (Script.Updates.forM (fun qid => ?_) _).action fun _ => ?_
  · exact Script.Updates.forM (fun s => clear_updates d s _) _
  · refine (Script.Updates.forM (fun f => clear_updates d .functionMap _) _).action fun _ => ?_
    exact Script.Offline.updates trivial

theorem setFunctionMap_updates (d : Device) (functionId base count : UInt16) :
    (d.setFunctionMap functionId base count).run.Updates d.variant := by
  unfold setFunctionMap
  refine (checkFits_checks _ _ _).offline.updates.action fun _ => ?_
  refine (checkFits_checks _ _ _).offline.updates.action fun _ => ?_
  refine (Access.shape_writeFunctionMap _ _).updates.action fun _ => ?_
  exact Script.Offline.updates trivial

theorem functionMap_updates (d : Device) (functionId : UInt16) :
    (d.functionMap functionId).run.Updates d.variant :=
  (Access.shape_readFunctionMap functionId).updates

theorem programDescriptor_updates (d : Device) (q : UInt16) (dir : Direction)
    (software : SoftwareContext) (stream : Option (CompletionContext × PrefetchContext)) :
    (d.programDescriptor q dir software stream).run.Updates d.variant := by
  have hwrite : (lift (d.access.writeSoftware dir q software)).run.Updates d.variant :=
    (Access.shape_writePacked _ _ _ _).updates
  unfold programDescriptor
  refine (clear_updates d _ q).action fun _ => ?_
  refine (clear_updates d _ q).action fun _ => ?_
  refine (clear_updates d _ q).action fun _ => ?_
  cases stream with
  | none => exact hwrite
  | some stream =>
    refine (clear_updates d _ q).action fun _ => ?_
    refine (clear_updates d _ q).action fun _ => ?_
    refine (Access.shape_writeCompletion q _).updates.action fun _ => ?_
    exact (Access.shape_writePacked _ _ _ _).updates.action fun _ => hwrite

theorem launch_updates (d : Device) (q : UInt16) (type : QueueType) (c : QueueConfig) :
    (d.launch q type c).run.Updates d.variant := by
  have hdescriptor : ∀ dir, (d.startDescriptor q type dir c).run.Updates d.variant := by
    intro dir
    refine (softwareContext_checks d c).offline.updates.action fun software => ?_
    split
    · refine (completionContext_checks d c true).offline.updates.action fun completion => ?_
      refine (programDescriptor_updates d q dir software _).action fun _ => ?_
      exact Script.Offline.updates trivial
    · refine (programDescriptor_updates d q dir software none).action fun _ => ?_
      exact Script.Offline.updates trivial
  cases type with
  | h2c => exact hdescriptor .h2c
  | c2h => exact hdescriptor .c2h
  | cmpt =>
    refine (completionContext_checks d c false).offline.updates.action fun completion => ?_
    exact (clear_updates d .completion q).action fun _ => (Access.shape_writeCompletion q _).updates

theorem startQueue_updates (d : Device) (q : UInt16) (type : QueueType) (c : QueueConfig) :
    (d.startQueue q type c).run.Updates d.variant := by
  rw [startQueue_run]
  refine (launch_updates d q type c).bind fun r => ?_
  cases r <;> exact Script.Offline.updates trivial

theorem stopQueue_updates (d : Device) (q : UInt16) (type : QueueType) (memoryMapped : Bool) :
    (d.stopQueue q type memoryMapped).run.Updates d.variant := by
  unfold stopQueue
  refine (Script.Updates.forM (fun s => ?_) _).action fun _ => ?_
  · exact (d.access.shape_invalidate s q).updates
  · refine (Script.Updates.forM (fun s => clear_updates d s q) _).action fun _ => ?_
    exact Script.Offline.updates trivial

end Device

/-! ## Attaching -/

/-- The variant that a run has reported first. -/
def Trace.found? (t : Trace) : Option Variant :=
  t.notices.findSome? fun
    | .engineFound v _ => some v
    | _ => none

theorem Trace.found?_append (t t' : Trace) : (t ++ t').found? = t.found?.or t'.found? := by
  unfold found?
  rw [notices_append, List.findSome?_append]

namespace Identification

variable {α β : Type} {found : α → Option Variant}

/-- `p` writes nothing and does not report a variant. -/
def Looks (p : Script α) : Prop :=
  p.Logs fun _ t => t.writes = [] ∧ t.found? = none

theorem looks_get (offset : UInt32) : Looks (Script.get offset) :=
  fun _ => ⟨rfl, rfl⟩

theorem Looks.bind {p : Script α} {f : α → Script β} (h : Looks p) (hf : ∀ a, Looks (f a)) :
    Looks (p >>= f) := by
  refine Script.Logs.bind h (fun a t ht => (hf a).mono fun r t' ht' => ?_) fun e t ht => ht
  rw [Trace.writes_append, Trace.found?_append, ht.1, ht.2, ht'.1, ht'.2]
  exact ⟨rfl, rfl⟩

theorem looks_identifier (isVirtual : Bool) : Looks (identifier isVirtual) := by
  have hread : ∀ offset, Looks (readIdentifier offset) := fun offset =>
    (looks_get offset).bind fun _ => ⟨rfl, rfl⟩
  cases isVirtual with
  | false => exact hread _
  | true =>
    refine (hread Register.functionIdentifier).bind fun raw => ?_
    split
    · exact ⟨rfl, rfl⟩
    · exact hread _

theorem looks_readVersion (isVirtual : Bool) : Looks (readVersion isVirtual) := by
  cases isVirtual with
  | false => exact (looks_get _).bind fun _ => ⟨rfl, rfl⟩
  | true =>
    refine (looks_get Register.functionIdentifier).bind fun raw => ?_
    dsimp only
    split
    · exact ⟨rfl, rfl⟩
    · exact (looks_get Register.functionIdentifierEqdma).bind fun _ => ⟨rfl, rfl⟩

theorem looks_readAttributes (v : Variant) : Looks (readAttributes v) := by
  have hmode : ∀ capabilities, Looks (descriptorMode v capabilities) := by
    intro capabilities
    unfold descriptorMode
    split
    · dsimp only
      split <;> exact ⟨rfl, rfl⟩
    · exact ⟨rfl, rfl⟩
  refine (looks_get _).bind fun barMap => (looks_get _).bind fun capacity => ?_
  refine (looks_get _).bind fun capabilities => (hmode capabilities).bind fun mode => ?_
  exact (looks_get _).bind fun engines => ⟨rfl, rfl⟩

/-- `op` writes nothing, and the variant that it reports is that of its result. -/
def Finds (found : α → Option Variant) (op : Action AccessError α) : Prop :=
  op.run.Logs fun r t => t.writes = [] ∧ ∀ a, r = .ok (.ok a) → t.found? = found a

theorem Looks.finds {p : Script α} (h : Looks p) :
    Finds (fun _ => none) (liftM p : Action AccessError α) := by
  unfold Finds
  rw [Script.run_lift]
  refine Script.Logs.bind h (fun a t ht => ?_) fun e t ht => ⟨ht.1, nofun⟩
  rw [Script.logs_pure, List.append_nil]
  exact ⟨ht.1, fun _ _ => ht.2⟩

theorem Finds.bind {op : Action AccessError β} {f : β → Action AccessError α}
    (h : Finds (fun _ => none) op) (hf : ∀ b, Finds found (f b)) : Finds found (op >>= f) := by
  unfold Finds
  rw [Script.run_action_bind]
  refine Script.Logs.bind h (fun r t ht => ?_) fun e t ht => ⟨ht.1, nofun⟩
  cases r with
  | ok b =>
    -- nothing is reported before what `f` reports
    refine (hf b).mono fun r' t' ht' => ⟨?_, fun a hr => ?_⟩
    · rw [Trace.writes_append, ht.1, ht'.1]
      rfl
    · rw [Trace.found?_append, ht.2 b rfl, Option.none_or]
      exact ht'.2 a hr
  | error error =>
    rw [Script.logs_pure, List.append_nil]
    exact ⟨ht.1, nofun⟩

theorem checkBar_finds (isVirtual : Bool) : Finds (fun _ => none) (checkBar isVirtual) := by
  refine (looks_identifier isVirtual).finds.bind fun raw => ?_
  split
  · exact ⟨rfl, nofun⟩
  · exact ⟨rfl, fun _ _ => rfl⟩

theorem select_finds (version : Version) : Finds (fun _ => none) (select version) := by
  unfold select
  split
  · exact ⟨rfl, fun _ _ => rfl⟩
  · exact ⟨rfl, fun _ _ => rfl⟩
  · split
    · exact ⟨rfl, fun _ _ => rfl⟩
    · exact ⟨rfl, fun _ _ => rfl⟩
    · exact ⟨rfl, nofun⟩
  · exact ⟨rfl, fun _ _ => rfl⟩
  · exact ⟨rfl, nofun⟩

theorem probe_finds (isVirtual : Bool) (poll : Poll) :
    Finds (fun a => some a.variant) (Access.probe isVirtual poll) := by
  refine (checkBar_finds isVirtual).bind fun _ => ?_
  refine (looks_readVersion isVirtual).finds.bind fun version => ?_
  refine (select_finds version).bind fun variant => ⟨rfl, ?_⟩
  rintro _ ⟨⟩
  rfl

end Identification

/-- Attaching clears the context memory. -/
def DeviceConfig.clears (c : DeviceConfig) : Bool :=
  c.clearOnAttach && !c.isVirtual

/-- What may be written while a `v` device is attached. -/
def DeviceConfig.Permits (c : DeviceConfig) (v : Variant) (writes : WriteLog) : Prop :=
  v.Updates writes ∧ (c.clears = false → writes = [])

theorem DeviceConfig.permits_nil (c : DeviceConfig) (v : Variant) : c.Permits v [] :=
  ⟨v.updates_nil, fun _ => rfl⟩

/-- A device that was not identified is not written to. -/
def DeviceConfig.Attaches (c : DeviceConfig) (t : Trace) : Prop :=
  match t.found? with
  | none => t.writes = []
  | some v => c.Permits v t.writes

theorem DeviceConfig.attaches_of_writes {c : DeviceConfig} {t : Trace} (h : t.writes = []) :
    c.Attaches t := by
  unfold Attaches
  rw [h]
  cases t.found? with
  | none => rfl
  | some v => exact c.permits_nil v

namespace Device

/-- What is done with a device once it is identified. -/
def prepare (d : Device) : Action QueueError Unit :=
  if d.config.clearOnAttach then
    if d.config.isVirtual then Script.notice .clearSkipped else d.initContextMemory
  else pure ()

/-- What follows a probe. -/
def enter (config : DeviceConfig) (access : Access) : Action QueueError Device := do
  let attributes ← Identification.readAttributes access.variant
  Script.notice (.attached access.variant attributes)
  prepare { access, attributes, config }
  return { access, attributes, config }

theorem attach_eq (config : DeviceConfig) :
    attach config = lift (Access.probe config.isVirtual config.poll) >>= enter config := by
  unfold attach
  congr 1
  funext access
  unfold enter prepare
  congr 1
  funext attributes
  congr 1
  funext _
  dsimp only
  split
  · split <;> rfl
  · rfl

theorem prepare_permits (d : Device) :
    d.prepare.run.Logs fun _ t => d.config.Permits d.variant t.writes := by
  unfold prepare DeviceConfig.Permits DeviceConfig.clears
  cases d.config.clearOnAttach with
  | false => exact ⟨d.variant.updates_nil, fun _ => rfl⟩
  | true =>
    cases d.config.isVirtual with
    | false => exact d.initContextMemory_updates.mono fun r t ht => ⟨ht, nofun⟩
    | true => exact ⟨d.variant.updates_nil, fun _ => rfl⟩

theorem enter_permits (config : DeviceConfig) (access : Access) :
    (enter config access).run.Logs fun _ t => config.Permits access.variant t.writes := by
  unfold enter
  rw [Script.run_lift_bind]
  refine Script.Logs.after (P := config.Permits access.variant) ?_ (config.permits_nil _)
    fun attributes => ?_
  · exact (Identification.looks_readAttributes _).mono fun r t ht => ht.1
  · rw [Script.run_lift_bind]
    refine Script.Logs.after (P := config.Permits access.variant) rfl (config.permits_nil _)
      fun _ => ?_
    rw [Script.run_action_bind]
    have hprepare := prepare_permits { access, attributes, config }
    refine hprepare.before (P := config.Permits access.variant) fun r => ?_
    cases r <;> rfl

/-- The variant that is written to is the one that the probe has reported. -/
theorem attach_attaches (config : DeviceConfig) :
    (attach config).run.Logs fun _ t => config.Attaches t := by
  have hprobe := Identification.probe_finds config.isVirtual config.poll
  rw [attach_eq, Script.run_action_bind, lift_run, bind_assoc]
  refine Script.Logs.bind hprobe (fun r t ht => ?_) fun e t ht =>
    DeviceConfig.attaches_of_writes ht.1
  cases r with
  | ok access =>
    refine (enter_permits config access).mono fun r' t' ht' => ?_
    unfold DeviceConfig.Attaches
    rw [Trace.found?_append, ht.2 access rfl, Trace.writes_append, ht.1]
    exact ht'
  | error error =>
    refine DeviceConfig.attaches_of_writes (t := t ++ []) ?_
    rw [List.append_nil]
    exact ht.1

end Device

/-! ## Sequences of operations -/

/-- `p` without its outcome. A fault stays. -/
def Script.forget {α : Type} (p : Script α) : Script Unit := do
  let _ ← p

theorem Script.Logs.forget {α : Type} {p : Script α} {P : Trace → Prop}
    (h : p.Logs fun _ t => P t) : p.forget.Logs fun _ t => P t := by
  refine Logs.bind h (fun a t ht => ?_) fun e t ht => ht
  rw [logs_pure, List.append_nil]
  exact ht

namespace Device

/-- An operation with its arguments. -/
inductive Call where
  | probe (isVirtual : Bool) (poll : Poll)
  | attach (config : DeviceConfig)
  | request (a : Access) (r : Access.Request)
  | initContextMemory (d : Device)
  | setFunctionMap (d : Device) (functionId base count : UInt16)
  | functionMap (d : Device) (functionId : UInt16)
  | startQueue (d : Device) (qid : UInt16) (type : QueueType) (c : QueueConfig)
  | stopQueue (d : Device) (qid : UInt16) (type : QueueType) (memoryMapped : Bool)

namespace Call

def perform : Call → Script Unit
  | probe isVirtual poll => (Access.probe isVirtual poll).run.forget
  | attach config => (Device.attach config).run.forget
  | request a r => (a.perform r).forget
  | initContextMemory d => d.initContextMemory.run.forget
  | setFunctionMap d functionId base count => (d.setFunctionMap functionId base count).run.forget
  | functionMap d functionId => (d.functionMap functionId).run.forget
  | startQueue d qid type c => (d.startQueue qid type c).run.forget
  | stopQueue d qid type memoryMapped => (d.stopQueue qid type memoryMapped).run.forget

/-- Nothing follows a fault. -/
def performAll : List Call → Script Unit
  | [] => return ()
  | c :: rest => do
    c.perform
    performAll rest

/-- The variant that is accessed. An attachment reports the one that it has found. -/
def variant? (c : Call) (t : Trace) : Option Variant :=
  match c with
  | probe .. => none
  | attach _ => t.found?
  | request a _ => some a.variant
  | initContextMemory d => some d.variant
  | setFunctionMap d .. => some d.variant
  | functionMap d _ => some d.variant
  | startQueue d .. => some d.variant
  | stopQueue d .. => some d.variant

/-- The call is for identification only. -/
def identifies : Call → Bool
  | probe .. => true
  | attach config => !config.clears
  | _ => false

/-- The call accesses one context or one function map. -/
def single : Call → Bool
  | request .. => true
  | _ => false

/-- What is written by a call. -/
structure Keeps (c : Call) (t : Trace) : Prop where
  updates : match c.variant? t with
    | none => t.writes = []
    | some v => v.Updates t.writes ∧ ∀ access ∈ t.writes, v.Writable access.1
  single : c.single = true → t.writes = [] ∨ ∃ v, c.variant? t = some v ∧ v.Update t.writes
  identifies : c.identifies = true → t.writes = []

theorem keeps_of_updates {c : Call} {t : Trace} {v : Variant} (hv : c.variant? t = some v)
    (hu : v.Updates t.writes) (hsingle : c.single = false)
    (hidentifies : c.identifies = true → t.writes = []) : c.Keeps t where
  updates := by
    rw [hv]
    exact ⟨hu, hu.writable⟩
  single hs := by
    rw [hsingle] at hs
    cases hs
  identifies := hidentifies

theorem keeps_of_attaches {config : DeviceConfig} {t : Trace} (h : config.Attaches t) :
    (attach config).Keeps t := by
  unfold DeviceConfig.Attaches at h
  cases hf : t.found? with
  | none =>
    rw [hf] at h
    exact ⟨by rw [variant?, hf]; exact h, nofun, fun _ => h⟩
  | some v =>
    rw [hf] at h
    exact keeps_of_updates hf h.1 rfl fun hi => h.2 (by simpa [Call.identifies] using hi)

theorem keeps_of_update {a : Access} {r : Access.Request} {t : Trace}
    (h : t.writes = [] ∨ a.variant.Update t.writes) : (request a r).Keeps t where
  updates := by
    have hu : a.variant.Updates t.writes := by
      rcases h with hnone | honce
      · rw [hnone]
        exact a.variant.updates_nil
      · exact honce.updates
    exact ⟨hu, hu.writable⟩
  single _ := h.imp_right fun honce => ⟨_, rfl, honce⟩
  identifies := nofun

theorem perform_keeps (c : Call) : c.perform.Logs fun _ t => c.Keeps t := by
  cases c with
  | probe isVirtual poll =>
    refine Script.Logs.forget ((Identification.probe_finds isVirtual poll).mono fun r t ht => ?_)
    exact ⟨ht.1, nofun, fun _ => ht.1⟩
  | attach config =>
    exact .forget ((attach_attaches config).mono fun r t ht => keeps_of_attaches ht)
  | request a r =>
    exact .forget ((a.perform_updatesOnce r).mono fun _ t ht => keeps_of_update ht)
  | initContextMemory d =>
    exact .forget (d.initContextMemory_updates.mono fun _ t ht =>
      keeps_of_updates rfl ht rfl nofun)
  | setFunctionMap d functionId base count =>
    exact .forget ((d.setFunctionMap_updates functionId base count).mono fun _ t ht =>
      keeps_of_updates rfl ht rfl nofun)
  | functionMap d functionId =>
    exact .forget ((d.functionMap_updates functionId).mono fun _ t ht =>
      keeps_of_updates rfl ht rfl nofun)
  | startQueue d qid type c =>
    exact .forget ((d.startQueue_updates qid type c).mono fun _ t ht =>
      keeps_of_updates rfl ht rfl nofun)
  | stopQueue d qid type memoryMapped =>
    exact .forget ((d.stopQueue_updates qid type memoryMapped).mono fun _ t ht =>
      keeps_of_updates rfl ht rfl nofun)

/-- The events of a sequence are those of its calls, up to the one that ends in a fault. -/
theorem performAll_keeps (calls : List Call) : (performAll calls).Logs fun r t =>
    ∃ ts : List Trace, t = ts.flatten ∧ (r = .ok () → ts.length = calls.length) ∧
      List.Forall₂ Keeps (calls.take ts.length) ts := by
  induction calls with
  | nil => exact ⟨[], rfl, fun _ => rfl, .nil⟩
  | cons c rest ih =>
    refine Script.Logs.bind (perform_keeps c) (fun _ t ht => ih.mono ?_) fun e t ht => ?_
    · rintro r _ ⟨ts, rfl, hlength, hts⟩
      refine ⟨t :: ts, rfl, fun hr => ?_, .cons ht hts⟩
      rw [List.length_cons, List.length_cons, hlength hr]
    -- a call that ends in a fault is the last one
    · exact ⟨[t], by simp, nofun, .cons ht .nil⟩

/-- Over any device, and whatever becomes of its calls, a sequence of operations writes to the
window of the accessed variant only, and on Versal hard parts to the function map registers, which
lie elsewhere. What is written to the window comes from calls of the engine; each of them is refused
and writes nothing, or writes its command last, and once. Identification writes nothing. -/
theorem writes_confined {σ : Type} (calls : List Call) (b : Backend σ) (s : σ) :
    (∃ result s' ts, (performAll calls).trace b s = (result, s', List.flatten ts) ∧
      (result = .ok () → ts.length = calls.length) ∧
      List.Forall₂ Keeps (calls.take ts.length) ts) ∧
    (∀ v : Variant, ∀ o ∈ v.window.registers, ∀ f < 256, o.toNat ≠ 0x400 + 4 * f) ∧
    ∀ (v : Variant) (poll : Poll) (call : Engine.Call), ∃ answer s' t,
      (Engine.perform ⟨v.window, poll⟩ call).trace b s = (.ok answer, s', t) ∧
        (answer.1 = .error .invalidParameter ∧ t.writes = [] ∨ v.window.Burst t.writes) := by
  refine ⟨?_, fun v o ho f hf => v.window_above_maps ho hf, fun v poll call => ?_⟩
  · obtain ⟨⟨result, s', t⟩, htrace⟩ : ∃ run, (performAll calls).trace b s = run := ⟨_, rfl⟩
    obtain ⟨ts, rfl, hlength, hkeeps⟩ := (performAll_keeps calls).of_trace htrace
    exact ⟨result, s', ts, htrace, hlength, hkeeps⟩
  · exact Engine.perform_writes v.window_valid call b s

end Call

end Device

end DmaQueues
