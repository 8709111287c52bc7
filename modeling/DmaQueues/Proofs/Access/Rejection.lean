import DmaQueues.Proofs.Access.Memory
import DmaQueues.Proofs.Access.Shape

/-!
# Rejected requests

All checks of a request stand before its first access of the device, so any error but a timeout
leaves the device alone, and a timeout comes before the data words are fetched. `Cautious` says
this of one action, and whatever has the shape of an access is cautious (`Shape.cautious`).
-/

namespace DmaQueues

/-- What an error says of the events before it. -/
structure Rejected (w : Window) (error : AccessError) (t : Trace) : Prop where
  untouched : error ≠ .busyTimeout → t.Untouched
  data : ∀ access ∈ t.reads, access.1 ∉ w.dataRegisters

theorem Trace.Untouched.rejected {t : Trace} (h : t.Untouched) (w : Window)
    (error : AccessError) : Rejected w error t where
  untouched _ := h
  data := by
    rw [h.reads]
    exact nofun

theorem Rejected.after_notices {w : Window} {error : AccessError} {t : Trace}
    (h : Rejected w error t) (ns : List Notice) :
    Rejected w error (ns.map Event.note ++ t) where
  untouched he :=
    ⟨by rw [Trace.reads_append, (Trace.untouched_notices ns).reads, (h.untouched he).reads]; rfl,
      by rw [Trace.writes_append, (Trace.untouched_notices ns).writes, (h.untouched he).writes]; rfl⟩
  data := by
    rw [Trace.reads_append, (Trace.untouched_notices ns).reads]
    exact h.data

/-- Only the command register was sampled if the call timed out. -/
theorem Engine.Course.rejected {e : Engine} {c : Command} {length : Nat} {error : AccessError}
    {t : Trace} (hv : e.window.Valid) (h : e.Course c length (.error error) t) :
    Rejected e.window error t := by
  cases h with
  | refused h ht =>
    obtain ⟨ns, rfl⟩ := ht
    exact (Trace.untouched_notices ns).rejected _ _
  | @timedOut _ _ _ loads polls h hl hp =>
    refine ⟨fun hne => absurd rfl hne, fun access haccess hdata => ?_⟩
    have hsample : access ∈ polls.reads := by
      simpa [hl.reads] using haccess
    exact hv.ne_command (.inl hdata) (hp.reads access hsample)

namespace Access

variable {α β : Type} {a : Access} {s : Selector} {q : UInt16}

/-- An error of `op` is a rejection, whatever the device does. -/
def Cautious (a : Access) (op : Action AccessError α) : Prop :=
  op.run.Traces fun r t => ∀ error, r = .error error → Rejected a.variant.window error t

theorem cautious_offline {op : Action AccessError α} (h : op.run.Offline) : a.Cautious op := by
  refine h.traces.mono ?_
  rintro r _ ⟨ns, rfl⟩ error _
  exact (Trace.untouched_notices ns).rejected _ _

/-- Only notices stand before the rest. -/
theorem Cautious.after {check : Action AccessError α} {f : α → Action AccessError β}
    (h : check.run.Offline) (hf : ∀ x, a.Cautious (f x)) : a.Cautious (check >>= f) := by
  refine h.traces.action ?_ ?_
  · rintro x _ ⟨ns, rfl⟩
    exact (hf x).mono fun r t ht error he => (ht error he).after_notices ns
  · rintro error _ ⟨ns, rfl⟩ _ _
    exact (Trace.untouched_notices ns).rejected _ _

theorem Cautious.map {op : Action AccessError α} (h : a.Cautious op) (f : α → β) :
    a.Cautious (f <$> op) := by
  rw [← bind_pure_comp]
  refine h.action (fun x t _ _ => nofun) fun error t ht error' he => ?_
  cases he
  exact ht error rfl

/-- A function map register always takes what is written, and always answers. -/
theorem Shape.cautious {op : Action AccessError α} (h : a.Shape op) : a.Cautious op := by
  have hv := a.variant.window_valid
  induction h with
  | offline h => exact cautious_offline h
  | write s q data =>
    refine (Engine.write_course hv s q data).mono ?_
    rintro _ t ht error rfl
    exact ht.rejected hv
  | read s q length =>
    refine (Engine.read_course hv s q length).mono ?_
    rintro _ t ht error rfl
    exact Engine.Course.rejected hv ht
  | simple hc =>
    refine (Engine.simple_course hv hc 0).mono ?_
    rintro _ t ht error rfl
    exact ht.rejected hv
  | put hd q value => exact .after (offline_checkFunction q) fun _ _ => nofun
  | get offset => exact fun _ _ => nofun
  | after h hf ih => exact .after h ih
  | map h f ih => exact ih.map f

/-! ## Requests -/

/-- A call with its arguments. -/
inductive Request where
  | program (selector : Selector) (operation : Operation) (qid : UInt16) (record : Option Record)
  | programRaw (selector : Selector) (operation : Operation) (qid : UInt16) (data : List UInt32)
  | clear (selector : Selector) (qid : UInt16)
  | invalidate (selector : Selector) (qid : UInt16)
  | writeSoftware (dir : Direction) (qid : UInt16) (r : SoftwareContext)
  | writePrefetch (qid : UInt16) (r : PrefetchContext)
  | writeCompletion (qid : UInt16) (r : CompletionContext)
  | writeInterrupt (ring : UInt16) (r : InterruptContext)
  | writeFunctionMap (functionId : UInt16) (r : FunctionMap)
  | readSoftware (dir : Direction) (qid : UInt16)
  | readHardware (dir : Direction) (qid : UInt16)
  | readCredit (dir : Direction) (qid : UInt16)
  | readPrefetch (qid : UInt16)
  | readCompletion (qid : UInt16)
  | readInterrupt (ring : UInt16)
  | readFunctionMap (functionId : UInt16)

/-- The record that was read, if any, or the error, and the words of the caller afterwards. -/
abbrev Reply := Except AccessError (Option Record) × List UInt32

/-- The words of the caller. -/
def Request.buffer : Request → List UInt32
  | .programRaw _ _ _ data => data
  | _ => []

/-- A request without words of the caller. -/
def reply (op : Action AccessError (Option Record)) : Script Reply :=
  return (← op.run, [])

def perform (a : Access) : Request → Script Reply
  | .program selector operation qid record => reply (a.program selector operation qid record)
  | .programRaw selector operation qid data => do
    let (outcome, words) ← a.programRaw selector operation qid data
    return (outcome.map fun _ => none, words)
  | .clear selector qid => reply ((fun _ => none) <$> a.clear selector qid)
  | .invalidate selector qid => reply ((fun _ => none) <$> a.invalidate selector qid)
  | .writeSoftware dir qid r => reply ((fun _ => none) <$> a.writeSoftware dir qid r)
  | .writePrefetch qid r => reply ((fun _ => none) <$> a.writePrefetch qid r)
  | .writeCompletion qid r => reply ((fun _ => none) <$> a.writeCompletion qid r)
  | .writeInterrupt ring r => reply ((fun _ => none) <$> a.writeInterrupt ring r)
  | .writeFunctionMap functionId r =>
    reply ((fun _ => none) <$> a.writeFunctionMap functionId r)
  | .readSoftware dir qid => reply ((fun r => some (.software r)) <$> a.readSoftware dir qid)
  | .readHardware dir qid => reply ((fun r => some (.hardware r)) <$> a.readHardware dir qid)
  | .readCredit dir qid => reply ((fun r => some (.credit r)) <$> a.readCredit dir qid)
  | .readPrefetch qid => reply ((fun r => some (.prefetch r)) <$> a.readPrefetch qid)
  | .readCompletion qid => reply ((fun r => some (.completion r)) <$> a.readCompletion qid)
  | .readInterrupt ring => reply ((fun r => some (.interrupt r)) <$> a.readInterrupt ring)
  | .readFunctionMap functionId =>
    reply ((fun r => some (.functionMap r)) <$> a.readFunctionMap functionId)

theorem programRaw_rejected (a : Access) (s : Selector) (operation : Operation) (q : UInt16)
    (data : List UInt32) :
    (a.programRaw s operation q data).Traces fun answer t => ∀ error, answer.1 = .error error →
      Rejected a.variant.window error t ∧ answer.2 = data := by
  refine (a.offline_checkSelector s).traces.bind ?_
  rintro r _ ⟨ns, rfl⟩
  have huntouched := Trace.untouched_notices ns
  cases r with
  | error error =>
    rw [Script.traces_pure, List.append_nil]
    exact fun _ _ => ⟨huntouched.rejected _ _, rfl⟩
  | ok _ =>
    dsimp only
    split
    · rw [Script.traces_pure, List.append_nil]
      exact fun _ _ => ⟨huntouched.rejected _ _, rfl⟩
    · have hengine : (a.engine.perform ⟨⟨s, operation, q⟩, data⟩).Traces fun answer t =>
          ∀ error, answer.1 = .error error →
            Rejected a.variant.window error (ns.map Event.note ++ t) ∧ answer.2 = data := by
        refine (Engine.perform_course a.variant.window_valid _).mono ?_
        rintro ⟨_, words⟩ t ⟨ht, hwords⟩ error rfl
        exact ⟨(ht.rejected a.variant.window_valid).after_notices ns, hwords error rfl⟩
      cases operation <;> exact hengine

theorem reply_rejected {op : Action AccessError (Option Record)} (h : a.Cautious op) :
    (reply op).Traces fun answer t => ∀ error, answer.1 = .error error →
      Rejected a.variant.window error t ∧ answer.2 = [] := by
  refine h.bind fun r t ht => ?_
  rw [Script.traces_pure, List.append_nil]
  exact fun error he => ⟨ht error he, rfl⟩

/-- Requests without words of the caller have the same shape. -/
theorem perform_shape (a : Access) (request : Request) :
    (∃ op, a.Shape op ∧ a.perform request = reply op ∧ request.buffer = []) ∨
      ∃ s operation q data, request = .programRaw s operation q data := by
  cases request with
  | programRaw s operation q data => exact .inr ⟨s, operation, q, data, rfl⟩
  | program s operation q record => exact .inl ⟨_, shape_program s operation q record, rfl, rfl⟩
  | clear s q => exact .inl ⟨_, .map (a.shape_clear s q) _, rfl, rfl⟩
  | invalidate s q => exact .inl ⟨_, .map (a.shape_invalidate s q) _, rfl, rfl⟩
  | writeCompletion q r => exact .inl ⟨_, .map (shape_writeCompletion q r) _, rfl, rfl⟩
  | writeFunctionMap q r => exact .inl ⟨_, .map (shape_writeFunctionMap q r) _, rfl, rfl⟩
  | readFunctionMap q => exact .inl ⟨_, .map (shape_readFunctionMap q) _, rfl, rfl⟩
  | writeSoftware _ _ _ => exact .inl ⟨_, .map (shape_writePacked _ _ _ _) _, rfl, rfl⟩
  | writePrefetch _ _ => exact .inl ⟨_, .map (shape_writePacked _ _ _ _) _, rfl, rfl⟩
  | writeInterrupt _ _ => exact .inl ⟨_, .map (shape_writePacked _ _ _ _) _, rfl, rfl⟩
  | readSoftware _ _ => exact .inl ⟨_, .map (shape_readPacked _ _ _) _, rfl, rfl⟩
  | readHardware _ _ => exact .inl ⟨_, .map (shape_readPacked _ _ _) _, rfl, rfl⟩
  | readCredit _ _ => exact .inl ⟨_, .map (shape_readPacked _ _ _) _, rfl, rfl⟩
  | readPrefetch _ => exact .inl ⟨_, .map (shape_readPacked _ _ _) _, rfl, rfl⟩
  | readCompletion _ => exact .inl ⟨_, .map (shape_readPacked _ _ _) _, rfl, rfl⟩
  | readInterrupt _ => exact .inl ⟨_, .map (shape_readPacked _ _ _) _, rfl, rfl⟩

theorem perform_rejected (a : Access) (request : Request) :
    (a.perform request).Traces fun answer t => ∀ error, answer.1 = .error error →
      Rejected a.variant.window error t ∧ answer.2 = request.buffer := by
  rcases a.perform_shape request with ⟨op, hop, hperform, hbuffer⟩ | ⟨s, operation, q, data, rfl⟩
  · rw [hperform, hbuffer]
    exact reply_rejected hop.cautious
  · refine (a.programRaw_rejected s operation q data).bind ?_
    rintro ⟨outcome, words⟩ t ht
    rw [Script.traces_pure, List.append_nil]
    cases outcome with
    | ok _ => exact nofun
    | error error =>
      intro error' he
      cases he
      exact ht error rfl

/-- Over any device, a request that ends in an error other than a timeout has neither read nor
written a register, and one that times out has read no data word. Either way the words of the
caller are as they were. -/
theorem error_leaves_device {σ : Type} {a : Access} {request : Request} {b : Backend σ}
    {s s' : σ} {error : AccessError} {words : List UInt32} {t : Trace}
    (h : (a.perform request).trace b s = (.ok (.error error, words), s', t)) :
    (error ≠ .busyTimeout → t.reads = [] ∧ t.writes = []) ∧
      (error = .busyTimeout → ∀ access ∈ t.reads, access.1 ∉ a.variant.window.dataRegisters) ∧
      words = request.buffer := by
  obtain ⟨hrejected, hwords⟩ := (a.perform_rejected request).of_trace h error rfl
  refine ⟨fun hne => ?_, fun _ => hrejected.data, hwords⟩
  have huntouched := hrejected.untouched hne
  exact ⟨huntouched.reads, huntouched.writes⟩

/-- The answer to a request and its events on a part on which no command is ever done. -/
def lostRun (request : Request) : Checked Reply × Card × Trace :=
  ((⟨.eqdma, ⟨1, 1⟩, none⟩ : Access).perform request).trace (Card.backend .eqdma)
    { fate := fun _ _ => .lost }

/-- A record with a trigger mode that the hardware lacks is rejected, and words are asked for in
vain. -/
theorem rejections_leave_device :
    (∃ card t, lostRun (.writeCompletion 3 { triggerMode := 6 }) =
        (.ok (.error .invalidParameter, []), card, t) ∧ t.reads = [] ∧ t.writes = []) ∧
      ∃ card t, lostRun (.programRaw .timer .read 3 [7, 7]) =
        (.ok (.error .busyTimeout, [7, 7]), card, t) ∧
          ∀ access ∈ t.reads, access.1 ∉ Window.eqdma.dataRegisters := by
  have hwrite : lostRun (.writeCompletion 3 { triggerMode := 6 }) =
      (.ok (.error .invalidParameter, []), (lostRun _).2) := Prod.ext rfl rfl
  have hread : lostRun (.programRaw .timer .read 3 [7, 7]) =
      (.ok (.error .busyTimeout, [7, 7]), (lostRun _).2) := Prod.ext rfl rfl
  exact ⟨⟨_, _, hwrite, (error_leaves_device hwrite).1 (by decide)⟩,
    ⟨_, _, hread, (error_leaves_device hread).2.1 rfl⟩⟩

end Access

end DmaQueues
