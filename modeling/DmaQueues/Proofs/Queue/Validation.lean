import DmaQueues.Proofs.Access.Records
import DmaQueues.Queue.Device

/-!
# What is checked before a queue is started

`QueueConfig.records` are the records that a start writes, and `QueueConfig.Checked` the
values of theirs that are checked beforehand. A value that fails its check is refused before
the first access (`startQueue_outcome`). The other values are not looked at until their
record is packed, after its context has been cleared, and end the start in a fault if they
are too wide.
-/

namespace DmaQueues

namespace QueueConfig

/-- The software record of a queue. -/
def software (c : QueueConfig) : SoftwareContext where
  interruptArmed := c.interrupts
  functionId := c.functionId
  enabled := true
  fetchCredit := c.fetchCredit
  pendingCheck := c.writeback
  ringSize := c.ringSize
  descriptorSize := c.descriptorSize
  bypass := c.descriptorBypass
  channel := c.channel
  writeback := c.writeback
  interruptEnabled := c.interrupts
  portId := c.portId
  memoryMapped := c.memoryMapped
  ringBase := c.ringBase
  vector := c.vector
  aggregation := c.aggregation

/-- The completion record of a queue. -/
def completion (c : QueueConfig) (cardToHost : Bool) : CompletionContext where
  statusDescriptor := c.writeback
  interruptEnabled := c.interrupts
  triggerMode := UInt8.ofNat c.triggerMode.code
  functionId := c.functionId
  counter := c.counter
  timer := c.timer
  color := true
  ringSize := c.completionRingSize
  ringBase := c.completionBase
  descriptorSize := c.completionSize
  valid := true
  vector := c.vector
  aggregation := c.aggregation
  cardToHost := cardToHost

/-- The contexts that a start writes, with their records. -/
def records (c : QueueConfig) : QueueType → List (Selector × Record)
  | .h2c => [(.softwareH2c, .software c.software)]
  | .c2h =>
    (.softwareC2h, .software c.software) ::
      if c.memoryMapped then []
      else [(.completion, .completion (c.completion true)),
        (.prefetch, .prefetch (Device.prefetchContext c))]
  | .cmpt => [(.completion, .completion (c.completion false))]

/-- All values that are written have their places. -/
def Fits (c : QueueConfig) (f : Family) (type : QueueType) : Prop :=
  ∀ e ∈ c.records type, e.2.Fits f

instance (c : QueueConfig) (f : Family) (type : QueueType) : Decidable (c.Fits f type) :=
  inferInstanceAs (Decidable (∀ e ∈ c.records type, _))

end QueueConfig

/-- The layout has a place for the value, or does not carry the field. -/
def Layout.accepts {F : Type} [DecidableEq F] (l : Layout F) (field : F) (value : UInt64) : Bool :=
  match l.segments? field with
  | some segs => value &&& ~~~Segments.coverage segs == 0
  | none => true

namespace QueueConfig

/-- The values of a software record that are checked. -/
def softwareChecked (c : QueueConfig) (f : Family) : Bool :=
  let l := SoftwareContext.layout f
  l.accepts .ringBase c.ringBase && l.accepts .vector c.vector.toUInt64 &&
    l.accepts .functionId c.functionId.toUInt64

/-- The values of a completion record that are checked. The function is not among them. -/
def completionChecked (c : QueueConfig) (f : Family) : Bool :=
  let l := CompletionContext.layout f
  l.accepts .ringBase c.completionBase && l.accepts .vector c.vector.toUInt64

/-- The values that are checked before the first access all have their places. -/
def checked (c : QueueConfig) (f : Family) : QueueType → Bool
  | .h2c => c.softwareChecked f
  | .c2h => c.softwareChecked f && (c.memoryMapped || c.completionChecked f)
  | .cmpt => c.completionChecked f

end QueueConfig

namespace Device

variable {α β ε : Type} {d : Device} {c : QueueConfig}

/-- The errors of an access are errors of the queue lifecycle. -/
theorem lift_run (op : Action AccessError α) :
    (lift op).run = op.run >>= fun r => pure (r.mapError QueueError.access) :=
  (bind_pure_comp _ _).symm

/-! ## Checks -/

/-- `op` answers `a`, or a parameter error if `ok` does not hold, and never accesses the device. -/
def Checks (op : Action QueueError α) (ok : Bool) (a : α) : Prop :=
  op.run.Silent fun r => r = if ok then .ok a else .error (.access .invalidParameter)

theorem checkFits_checks {F : Type} [DecidableEq F] (l : Layout F) (field : F) (value : UInt64) :
    Checks (checkFits l field value) (l.accepts field value) () := by
  unfold Checks checkFits Layout.accepts
  cases l.segments? field with
  | none => exact ⟨trivial, trivial, rfl⟩
  | some segs =>
    by_cases hv : value &&& ~~~Segments.coverage segs = 0
    · simp only [hv]
      exact ⟨trivial, trivial, rfl⟩
    · simp only [beq_eq_false_iff_ne.2 hv, if_pos hv]
      exact ⟨trivial, trivial, rfl⟩

theorem Checks.bind {op : Action QueueError α} {f : α → Action QueueError β} {ok ok' : Bool}
    {a : α} {b : β} (h : Checks op ok a) (hf : Checks (f a) ok' b) :
    Checks (op >>= f) (ok && ok') b := by
  unfold Checks
  rw [Script.run_action_bind]
  refine Script.Silent.bind h ?_
  rintro r rfl
  cases ok with
  | true => exact hf
  | false => exact ⟨trivial, trivial, rfl⟩

theorem Checks.andReturn {op : Action QueueError α} {ok : Bool} {a : α} (h : Checks op ok a)
    (b : β) : Checks (op >>= fun _ => pure b) ok b := by
  rw [← Bool.and_true ok]
  exact h.bind ⟨trivial, trivial, rfl⟩

theorem softwareContext_checks (d : Device) (c : QueueConfig) :
    Checks (d.softwareContext c) (c.softwareChecked d.access.family) c.software := by
  have hbase := checkFits_checks (SoftwareContext.layout d.access.family) .ringBase c.ringBase
  have hvector := checkFits_checks (SoftwareContext.layout d.access.family) .vector
    c.vector.toUInt64
  have hfunction := checkFits_checks (SoftwareContext.layout d.access.family) .functionId
    c.functionId.toUInt64
  unfold QueueConfig.softwareChecked
  rw [Bool.and_assoc]
  exact hbase.bind (hvector.bind (hfunction.andReturn c.software))

theorem completionContext_checks (d : Device) (c : QueueConfig) (cardToHost : Bool) :
    Checks (d.completionContext c cardToHost) (c.completionChecked d.access.family)
      (c.completion cardToHost) := by
  have hbase := checkFits_checks (CompletionContext.layout d.access.family) .ringBase
    c.completionBase
  have hvector := checkFits_checks (CompletionContext.layout d.access.family) .vector
    c.vector.toUInt64
  exact hbase.bind (hvector.andReturn (c.completion cardToHost))

/-- An access that is refused before it starts is a check that fails. -/
theorem Checks.of_refused {op : Action AccessError α}
    (h : op.run.Silent (· = .error .invalidParameter)) (a : α) : Checks (lift op) false a := by
  unfold Checks
  rw [lift_run]
  refine h.bind ?_
  rintro _ rfl
  exact ⟨trivial, trivial, rfl⟩

/-- Values that pass are followed by what is done with the record. -/
theorem Checks.total {op : Action QueueError α} {f : α → Action QueueError β} {a : α}
    (h : Checks op true a) (hf : (f a).run.Total) : (op >>= f).run.Total := by
  rw [Script.run_action_bind]
  refine Script.Total.bind_ends (Script.Silent.total h) ((Script.Silent.ends h).mono ?_)
  rintro r rfl
  exact hf

/-! ## Starting a queue -/

/-- `op` does not succeed, whatever the device answers. -/
def Fails (op : Action ε α) : Prop :=
  op.run.Ends fun r => ∃ e, r = .error e

theorem Fails.bind {op : Action ε α} (h : Fails op) (f : α → Action ε β) : Fails (op >>= f) := by
  unfold Fails
  rw [Script.run_action_bind]
  refine Script.Ends.bind h ?_
  rintro r ⟨e, rfl⟩
  exact ⟨e, rfl⟩

theorem fails_bind {f : α → Action ε β} (op : Action ε α) (h : ∀ a, Fails (f a)) :
    Fails (op >>= f) := by
  unfold Fails
  rw [Script.run_action_bind]
  refine Script.ends_bind_of_forall fun r => ?_
  cases r with
  | ok a => exact h a
  | error e => exact ⟨e, rfl⟩

theorem Checks.fails {op : Action QueueError α} {f : α → Action QueueError β} {a : α}
    (h : Checks op true a) (hf : Fails (f a)) : Fails (op >>= f) := by
  unfold Fails
  rw [Script.run_action_bind]
  refine (Script.Silent.ends h).bind ?_
  rintro r rfl
  exact hf

theorem Checks.refused {op : Action QueueError α} {a : α} (h : Checks op false a)
    (f : α → Action QueueError β) (b : β) : Checks (op >>= f) false b := by
  unfold Checks
  rw [Script.run_action_bind]
  refine Script.Silent.bind h ?_
  rintro r rfl
  exact ⟨trivial, trivial, rfl⟩

theorem fails_lift {op : Action AccessError α} (h : Fails op) : Fails (lift op) := by
  unfold Fails
  rw [lift_run]
  refine Script.Ends.bind h ?_
  rintro r ⟨e, rfl⟩
  exact ⟨.access e, rfl⟩

theorem total_lift {op : Action AccessError α} (h : op.run.Total) : (lift op).run.Total :=
  h.map (Except.mapError QueueError.access)

end Device

namespace Access

variable {a : Access} {R F : Type} [DecidableEq F] [Fields R F] {l : Layout F} {r : R}

theorem total_writePacked (hl : l.Valid) (hr : l.Holds r) (s : Selector) (q : UInt16) :
    (a.writePacked l s q r).run.Total := by
  unfold writePacked
  rw [Layout.encode_eq hl.segment_fits hr]
  exact Engine.total_write (e := a.engine) a.variant.window_valid s q _

/-- A record that does not fit always ends in a fault. -/
theorem writePacked_fault (hl : l.Valid) (hr : ¬ l.Holds r) (s : Selector) (q : UInt16) :
    ∃ f, (a.writePacked l s q r).run = .halt f := by
  obtain ⟨e, -, -, he⟩ := Layout.encode_error hl.segment_fits hr
  unfold writePacked
  rw [he]
  exact ⟨_, rfl⟩

theorem writePacked_halts (hl : l.Valid) (hr : ¬ l.Holds r) (s : Selector) (q : UInt16) :
    (a.writePacked l s q r).run.Ends fun _ => False := by
  obtain ⟨f, hf⟩ := writePacked_fault (a := a) hl hr s q
  rw [hf]
  trivial

theorem fails_writePacked (hl : l.Valid) (hr : ¬ l.Holds r) (s : Selector) (q : UInt16) :
    Device.Fails (a.writePacked l s q r) :=
  (writePacked_halts hl hr s q).mono fun _ => False.elim

theorem total_validate (r : CompletionContext) : r.validate.run.Total := by
  unfold CompletionContext.validate
  split <;> trivial

theorem total_writeCompletion {r : CompletionContext}
    (hr : (CompletionContext.layout a.family).Holds r) (q : UInt16) :
    (a.writeCompletion q r).run.Total := by
  have hl : (CompletionContext.layout a.family).Valid :=
    RecordKind.layout_valid a.family .completion
  unfold writeCompletion CompletionContext.encodeValid
  rw [Layout.encode_eq hl.segment_fits hr]
  refine Script.Total.action ?_ fun image =>
    Engine.total_write (e := a.engine) a.variant.window_valid .completion q image
  exact (total_validate r).action fun _ => trivial

theorem fails_writeCompletion {r : CompletionContext}
    (hr : ¬ (CompletionContext.layout a.family).Holds r) (q : UInt16) :
    Device.Fails (a.writeCompletion q r) := by
  have hl : (CompletionContext.layout a.family).Valid :=
    RecordKind.layout_valid a.family .completion
  obtain ⟨e, -, -, he⟩ := Layout.encode_error hl.segment_fits hr
  unfold writeCompletion CompletionContext.encodeValid
  rw [he]
  refine Device.Fails.bind ?_ _
  exact Device.fails_bind _ fun _ => trivial

theorem total_clear (a : Access) (s : Selector) (q : UInt16) : (a.clear s q).run.Total := by
  have hcheck : (a.checkSelector s).run.Total := by
    unfold checkSelector
    split <;> trivial
  refine hcheck.action fun _ => ?_
  split
  · unfold checkFunction
    split <;> trivial
  · exact Engine.total_clear (e := a.engine) a.variant.window_valid s q

end Access

namespace Device

variable {d : Device} {c : QueueConfig} {software : SoftwareContext}
  {completion : CompletionContext} {prefetch : PrefetchContext} {dir : Direction} {qid : UInt16}

theorem total_clear (d : Device) (selector : Selector) (qid : UInt16) :
    (d.clear selector qid).run.Total :=
  total_lift (Access.total_clear d.access selector qid)

/-! ### Descriptor queues -/

/-- The records of a descriptor queue fit. -/
def StreamFits (d : Device) : Option (CompletionContext × PrefetchContext) → Prop
  | none => True
  | some (completion, prefetch) =>
    (CompletionContext.layout d.access.family).Holds completion ∧
      (PrefetchContext.layout d.access.family).Holds prefetch

theorem total_programDescriptor
    (hsoftware : (SoftwareContext.layout d.access.family).Holds software)
    {stream : Option (CompletionContext × PrefetchContext)} (hstream : d.StreamFits stream)
    (dir : Direction) (qid : UInt16) :
    (d.programDescriptor qid dir software stream).run.Total := by
  have hwrite : (lift (d.access.writeSoftware dir qid software)).run.Total :=
    total_lift (Access.total_writePacked (RecordKind.layout_valid d.access.family .software)
      hsoftware _ qid)
  unfold programDescriptor
  refine (total_clear d _ qid).action fun _ => (total_clear d _ qid).action fun _ =>
    (total_clear d _ qid).action fun _ => ?_
  cases stream with
  | none => exact hwrite
  | some stream =>
    obtain ⟨completion, prefetch⟩ := stream
    refine (total_clear d _ qid).action fun _ => (total_clear d _ qid).action fun _ => ?_
    refine (total_lift (Access.total_writeCompletion hstream.1 qid)).action fun _ => ?_
    refine (total_lift (Access.total_writePacked
      (RecordKind.layout_valid d.access.family .prefetch) hstream.2 _ qid)).action fun _ => ?_
    exact hwrite

theorem fails_programDescriptor {stream : Option (CompletionContext × PrefetchContext)}
    (h : ¬ ((SoftwareContext.layout d.access.family).Holds software ∧ d.StreamFits stream))
    (dir : Direction) (qid : UInt16) : Fails (d.programDescriptor qid dir software stream) := by
  unfold programDescriptor
  refine fails_bind _ fun _ => fails_bind _ fun _ => fails_bind _ fun _ => ?_
  by_cases hsoftware : (SoftwareContext.layout d.access.family).Holds software
  · cases stream with
    | none => exact absurd ⟨hsoftware, trivial⟩ h
    | some stream =>
      obtain ⟨completion, prefetch⟩ := stream
      refine fails_bind _ fun _ => fails_bind _ fun _ => ?_
      by_cases hcompletion : (CompletionContext.layout d.access.family).Holds completion
      · have hprefetch : ¬ (PrefetchContext.layout d.access.family).Holds prefetch :=
          fun hp => h ⟨hsoftware, hcompletion, hp⟩
        exact fails_bind _ fun _ => (fails_lift (Access.fails_writePacked
          (RecordKind.layout_valid d.access.family .prefetch) hprefetch _ qid)).bind _
      · exact (fails_lift (Access.fails_writeCompletion hcompletion qid)).bind _
  · have hwrite : Fails (lift (d.access.writeSoftware dir qid software)) :=
      fails_lift (Access.fails_writePacked (RecordKind.layout_valid d.access.family .software)
        hsoftware _ qid)
    cases stream with
    | none => exact hwrite
    | some stream =>
      exact fails_bind _ fun _ => fails_bind _ fun _ => fails_bind _ fun _ =>
        fails_bind _ fun _ => hwrite

/-! ### Checks before accesses -/

/-- `op` checks first, and is refused without an access unless `ok` holds. What follows ends in no
fault if `fits` holds, and does not succeed if not. -/
structure Gated (op : Action QueueError Unit) (ok : Bool) (fits : Prop) : Prop where
  refused : ok = false → op.run.Silent (· = .error (.access .invalidParameter))
  total : ok = true → fits → op.run.Total
  fails : ok = true → ¬ fits → Fails op

theorem Checks.gate {op : Action QueueError α} {f : α → Action QueueError Unit} {ok ok' : Bool}
    {a : α} {fits : Prop} (h : Checks op ok a) (hf : Gated (f a) ok' fits) :
    Gated (op >>= f) (ok && ok') fits := by
  cases ok with
  | false => exact ⟨fun _ => h.refused f (), nofun, nofun⟩
  | true =>
    refine ⟨fun hok => ?_, fun hok hfits => h.total (hf.total hok hfits),
      fun hok hfits => h.fails (hf.fails hok hfits)⟩
    rw [Script.run_action_bind]
    refine Script.Silent.bind h ?_
    rintro r rfl
    exact hf.refused hok

theorem Gated.congr {op : Action QueueError Unit} {ok ok' : Bool} {fits fits' : Prop}
    (h : Gated op ok fits) (hok : ok' = ok) (hfits : fits' ↔ fits) : Gated op ok' fits' := by
  rw [hok, hfits]
  exact h

/-- What comes without checks of its own. -/
theorem gated_true {op : Action QueueError Unit} {fits : Prop} (htotal : fits → op.run.Total)
    (hfails : ¬ fits → Fails op) : Gated op true fits :=
  ⟨nofun, fun _ => htotal, fun _ => hfails⟩

/-- A notice at the end. -/
theorem Gated.andNotice {op : Action QueueError Unit} {ok : Bool} {fits : Prop}
    (h : Gated op ok fits) (n : Notice) :
    Gated (op >>= fun _ => liftM (Script.notice n)) ok fits where
  refused hok := by
    rw [Script.run_action_bind]
    refine (h.refused hok).bind ?_
    rintro r rfl
    exact ⟨trivial, trivial, rfl⟩
  total hok hfits := (h.total hok hfits).action fun _ => trivial
  fails hok hfits := (h.fails hok hfits).bind _

theorem descriptor_gated (d : Device) (qid : UInt16) (dir : Direction)
    (software : SoftwareContext) (stream : Option (CompletionContext × PrefetchContext)) :
    Gated (d.programDescriptor qid dir software stream) true
      ((SoftwareContext.layout d.access.family).Holds software ∧ d.StreamFits stream) :=
  gated_true (fun h => total_programDescriptor h.1 h.2 dir qid)
    fun h => fails_programDescriptor h dir qid

theorem completion_gated (d : Device) (qid : UInt16) (completion : CompletionContext) :
    Gated (d.clear .completion qid >>= fun _ => lift (d.access.writeCompletion qid completion)) true
      ((CompletionContext.layout d.access.family).Holds completion) := by
  refine gated_true (fun h => ?_) fun h => ?_
  · exact (total_clear d _ qid).action fun _ => total_lift (Access.total_writeCompletion h qid)
  · exact fails_bind _ fun _ => fails_lift (Access.fails_writeCompletion h qid)

/-- What a start does before it reports. -/
def launch (d : Device) (qid : UInt16) (type : QueueType) (c : QueueConfig) :
    Action QueueError Unit :=
  match type with
  | .h2c => d.startDescriptor qid type .h2c c
  | .c2h => d.startDescriptor qid type .c2h c
  | .cmpt => d.startCompletion qid c

theorem launch_gated (d : Device) (qid : UInt16) (type : QueueType) (c : QueueConfig) :
    Gated (d.launch qid type c) (c.checked d.access.family type)
      (c.Fits d.access.family type) := by
  have hsoftware := softwareContext_checks d c
  have hdescriptor : ∀ s : Selector, (∀ e ∈ [(s, Record.software c.software)],
      e.2.Fits d.access.family) ↔
        (SoftwareContext.layout d.access.family).Holds c.software ∧ d.StreamFits none :=
    fun s => List.forall_mem_singleton.trans (and_true _).to_iff.symm
  have hstream : (∀ e ∈ [(Selector.softwareC2h, Record.software c.software),
      (.completion, .completion (c.completion true)), (.prefetch, .prefetch (prefetchContext c))],
      e.2.Fits d.access.family) ↔
        (SoftwareContext.layout d.access.family).Holds c.software ∧
          d.StreamFits (some (c.completion true, prefetchContext c)) :=
    List.forall_mem_cons.trans (and_congr_right' (List.forall_mem_cons.trans
      (and_congr_right' List.forall_mem_singleton)))
  unfold launch startDescriptor QueueConfig.Fits QueueConfig.records QueueConfig.checked
  cases type with
  | h2c =>
    refine Gated.congr ?_ (Bool.and_true _).symm (hdescriptor _)
    exact hsoftware.gate ((descriptor_gated d qid .h2c c.software none).andNotice _)
  | c2h =>
    cases hm : c.memoryMapped with
    | true =>
      refine Gated.congr ?_ rfl (hdescriptor _)
      exact hsoftware.gate ((descriptor_gated d qid .c2h c.software none).andNotice _)
    | false =>
      refine Gated.congr ?_ (congrArg (c.softwareChecked _ && ·) (Bool.and_true _).symm) hstream
      exact hsoftware.gate ((completionContext_checks d c true).gate
        ((descriptor_gated d qid .c2h c.software _).andNotice _))
  | cmpt =>
    refine Gated.congr ?_ (Bool.and_true _).symm List.forall_mem_singleton
    exact (completionContext_checks d c false).gate
      (completion_gated d qid (c.completion false))

/-- A start reports its error. -/
def report (qid : UInt16) (type : QueueType) :
    Except QueueError Unit → Script (Except QueueError Unit)
  | .ok () => return .ok ()
  | .error error => do
    Script.notice (.startFailed qid type error)
    return .error error

theorem startQueue_run (d : Device) (qid : UInt16) (type : QueueType) (c : QueueConfig) :
    (d.startQueue qid type c).run = (d.launch qid type c).run >>= report qid type := by
  cases type <;> rfl

theorem startQueue_gated (d : Device) (qid : UInt16) (type : QueueType) (c : QueueConfig) :
    Gated (d.startQueue qid type c) (c.checked d.access.family type)
      (c.Fits d.access.family type) := by
  have hlaunch := launch_gated d qid type c
  refine ⟨fun hok => ?_, fun hok hfits => ?_, fun hok hfits => ?_⟩
  · rw [startQueue_run]
    refine (hlaunch.refused hok).bind ?_
    rintro r rfl
    exact ⟨trivial, trivial, rfl⟩
  · rw [startQueue_run]
    refine (hlaunch.total hok hfits).bind fun r => ?_
    cases r <;> trivial
  · unfold Fails
    rw [startQueue_run]
    refine Script.Ends.bind (hlaunch.fails hok hfits) ?_
    rintro r ⟨e, rfl⟩
    exact ⟨e, rfl⟩

/-- A start whose checked values do not all fit is refused without an access. With values that all
fit it ends in no fault. With a value that was not checked and does not fit it never succeeds: its
record cannot be packed, which is only found out after contexts were cleared. -/
theorem startQueue_outcome {σ : Type} (b : Backend σ) (s : σ) (d : Device) (qid : UInt16)
    (type : QueueType) (c : QueueConfig) :
    if c.checked d.access.family type = false then
      ∃ s' notices, (d.startQueue qid type c).run.trace b s =
        (.ok (.error (.access .invalidParameter)), s', List.map Event.note notices)
    else if c.Fits d.access.family type then
      ∃ result s', (d.startQueue qid type c).run.run b s = (.ok result, s')
    else
      ∀ s', (d.startQueue qid type c).run.run b s ≠ (.ok (.ok ()), s') := by
  have hgated := startQueue_gated d qid type c
  cases hok : c.checked d.access.family type with
  | false =>
    rw [if_pos rfl]
    obtain ⟨r, s', notices, htrace, rfl⟩ := (hgated.refused hok).trace b s
    exact ⟨s', notices, htrace⟩
  | true =>
    rw [if_neg (by simp)]
    by_cases hfits : c.Fits d.access.family type
    · rw [if_pos hfits]
      exact (hgated.total hok hfits).run b s
    · rw [if_neg hfits]
      intro s' hr
      obtain ⟨e, he⟩ := Script.Ends.of_run (hgated.fails hok hfits) hr
      cases he

/-- A soft part that is polled once. -/
def softDevice : Device := ⟨⟨.legacySoft, ⟨1, 1⟩, none⟩, ⟨1, 8, 1, .internalOnly, []⟩, {}⟩

/-- The codes of descriptor sizes end at three, which is not checked. The start ends in a fault
after three contexts were cleared. -/
theorem wide_descriptor_size_faults :
    ∃ card, (softDevice.startQueue 0 .h2c { descriptorSize := 4 }).run.run (Card.backend .soft) {} =
        (.error (.coverageOverflow 4 3), card) ∧ card.accepted = 3 :=
  ⟨_, rfl, rfl⟩

/-! The function of a software record is checked, but not that of a completion record. -/

example : ∃ card,
    (softDevice.startQueue 0 .cmpt { functionId := 256 }).run.run (Card.backend .soft) {} =
      (.error (.coverageOverflow 256 255), card) ∧ card.accepted = 1 :=
  ⟨_, rfl, rfl⟩

end Device

end DmaQueues
