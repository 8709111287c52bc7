import DmaQueues.Proofs.Queue.Validation
import DmaQueues.Queue.Manager

/-!
# What a start and a stop leave in the contexts

On a device that answers promptly a start or a stop of a queue either changes exactly the
contexts that the queue owns or fails and changes none. `QueueEvent.apply` is the change: a
started queue leaves its records, packed, a stopped queue leaves zeros.
-/

namespace DmaQueues

/-- A queue that was started with a configuration, or stopped. -/
structure QueueEvent where
  queue : StartedQueue
  config : Option QueueConfig
  deriving DecidableEq, Repr

namespace QueueEvent

/-- The context is one of the queue. -/
def owns (e : QueueEvent) (s : Selector) (q : UInt16) : Bool :=
  e.queue.qid == q && (Device.ownedContexts e.queue.type e.queue.memoryMapped).contains s

/-- The record that the queue leaves in a context of its own. -/
def record? (e : QueueEvent) (s : Selector) : Option Record :=
  e.config.bind fun c => (c.records e.queue.type).lookup s

def apply (a : Access) (e : QueueEvent) (cells : Cells) : Cells := fun s q =>
  if e.owns s q then a.packed s (e.record? s) else cells s q

end QueueEvent

namespace Access

variable {α β ε : Type} {a : Access} {s : Selector} {q : UInt16}

/-! ## Accesses of a prompt device -/

/-- On a prompt card `op` succeeds and changes the cells by `f`, unless it ends in a fault. -/
def Succeeds (a : Access) (op : Action ε α) (f : Cells → Cells) : Prop :=
  ∀ card : Card, card.Prompt a.poll.attempts →
    op.run.Leads (Card.backend a.variant.window) card fun r card' =>
      (∃ v, r = .ok v) ∧ a.cells card' = f (a.cells card)

/-- On a prompt card `op` fails and changes no cells, unless it ends in a fault. -/
def Refuses (a : Access) (op : Action ε α) : Prop :=
  ∀ card : Card, card.Prompt a.poll.attempts →
    op.run.Leads (Card.backend a.variant.window) card fun r card' =>
      (∃ e, r = .error e) ∧ a.cells card' = a.cells card

theorem Succeeds.bind {op : Action ε α} {f f' : Cells → Cells} {g : α → Action ε β}
    (h : a.Succeeds op f) (hg : ∀ v, a.Succeeds (g v) f') : a.Succeeds (op >>= g) (f' ∘ f) := by
  intro card hp
  refine ((hp.leads op.run).and (h card hp)).action (fun v card' hv => ?_) fun e card' he => ?_
  · refine (hg v card' hv.1).mono fun r card'' hr => ⟨hr.1, hr.2.trans ?_⟩
    exact congrArg f' hv.2.2
  · obtain ⟨v, hv⟩ := he.2.1
    cases hv

theorem Refuses.bind {op : Action ε α} (h : a.Refuses op) (g : α → Action ε β) :
    a.Refuses (op >>= g) := by
  intro card hp
  refine (h card hp).action (fun v card' hv => ?_) fun e card' he => ⟨⟨e, rfl⟩, he.2⟩
  obtain ⟨e, he⟩ := hv.1
  cases he

theorem succeeds_pure (v : α) : a.Succeeds (pure v : Action ε α) id :=
  fun _ _ => Script.leads_pure.2 ⟨⟨v, rfl⟩, rfl⟩

theorem Succeeds.andNotice {op : Action ε Unit} {f : Cells → Cells} (h : a.Succeeds op f)
    (n : Notice) : a.Succeeds (op >>= fun _ => liftM (Script.notice n)) f := by
  have hnotice : a.Succeeds (liftM (Script.notice n) : Action ε Unit) id := by
    intro card _ r card' hr
    cases hr
    exact ⟨⟨(), rfl⟩, rfl⟩
  exact h.bind fun _ => hnotice

theorem Succeeds.lift {op : Action AccessError α} {f : Cells → Cells} (h : a.Succeeds op f) :
    a.Succeeds (Device.lift op) f := by
  intro card hp
  rw [Device.lift_run]
  refine (h card hp).bind ?_
  rintro r card' ⟨⟨v, rfl⟩, hcells⟩
  exact Script.leads_pure.2 ⟨⟨v, rfl⟩, hcells⟩

theorem Refuses.lift {op : Action AccessError α} (h : a.Refuses op) :
    a.Refuses (Device.lift op) := by
  intro card hp
  rw [Device.lift_run]
  refine (h card hp).bind ?_
  rintro r card' ⟨⟨e, rfl⟩, hcells⟩
  exact Script.leads_pure.2 ⟨⟨.access e, rfl⟩, hcells⟩

/-- An access of a cell that is there. -/
theorem succeeds_of_effect {op : Action AccessError α} {f : Cells → Cells}
    (hq : a.Addresses s q)
    (h : ∀ card, ∃ v, a.Effect op card s q (f (a.cells card)) v) : a.Succeeds op f := by
  intro card hp
  obtain ⟨v, heffect⟩ := h card
  refine heffect.leads.mono fun r card' ho => ?_
  rcases ho.of_prompt hp with ⟨-, hr, hcells⟩ | ⟨hn, -, -⟩
  · exact ⟨⟨v, hr⟩, hcells⟩
  · exact absurd hq hn

theorem refuses_of_effect {op : Action AccessError α} (hq : ¬ a.Addresses s q)
    (h : ∀ card, ∃ stored v, a.Effect op card s q stored v) : a.Refuses op := by
  intro card hp
  obtain ⟨stored, v, heffect⟩ := h card
  refine heffect.leads.mono fun r card' ho => ?_
  rcases ho.of_prompt hp with ⟨hy, -, -⟩ | ⟨-, hr, hcells⟩
  · exact absurd hy hq
  · exact ⟨⟨_, hr⟩, hcells⟩

theorem succeeds_of_halts {op : Action ε α} (h : op.run.Ends fun _ => False)
    (f : Cells → Cells) : a.Succeeds op f :=
  fun _ _ => (Script.Leads.of_ends h).mono fun _ _ => False.elim

/-! ## Contexts of queues -/

/-- The contexts that queues own. All are behind the window of every variant. -/
def queueContext : Selector → Bool
  | .softwareC2h | .softwareH2c | .hardwareC2h | .hardwareH2c | .creditC2h | .creditH2c
  | .completion | .prefetch => true
  | _ => false

theorem queueContext_descriptor (dir : Direction) :
    queueContext (.software dir) = true ∧ queueContext (.hardware dir) = true ∧
      queueContext (.credit dir) = true := by
  cases dir <;> exact ⟨rfl, rfl, rfl⟩

theorem supports_queueContext (a : Access) (hs : queueContext s = true) :
    a.variant.supports s = true := by
  cases s <;> first | rfl | cases hs

theorem isDirect_queueContext (a : Access) (hs : queueContext s = true) :
    a.isDirect s = false := by
  cases s <;> first | rfl | cases hs

theorem addresses_queueContext (a : Access) (hs : queueContext s = true) (q : UInt16) :
    a.Addresses s q ↔ a.engine.Addresses q :=
  addresses_indirect (isDirect_queueContext a hs)

/-- Contexts of a queue replaced, one after the other, by a record or by none. -/
def edit (a : Access) (q : UInt16) (edits : List (Selector × Option Record)) (cells : Cells) :
    Cells :=
  edits.foldl (fun cells e => cells.store e.1 q (a.packed e.1 e.2)) cells

/-- The last edit of a context counts. -/
theorem edit_apply (a : Access) (q : UInt16) (edits : List (Selector × Option Record))
    (cells : Cells) (s : Selector) (q' : UInt16) :
    a.edit q edits cells s q' =
      if q' = q then
        match edits.reverse.lookup s with
        | some record => a.packed s record
        | none => cells s q'
      else cells s q' := by
  induction edits generalizing cells with
  | nil => split <;> rfl
  | cons e rest ih =>
    obtain ⟨s', record⟩ := e
    show a.edit q rest (cells.store s' q (a.packed s' record)) s q' = _
    rw [ih, List.reverse_cons, List.lookup_append]
    simp only [Cells.store_apply]
    by_cases hq : q' = q
    · simp only [if_pos hq]
      cases rest.reverse.lookup s with
      | some later => rfl
      | none =>
        by_cases hs : s = s'
        · simp [hs]
        · simp [List.lookup_cons, hs, beq_false_of_ne hs]
    · simp only [if_neg hq]

/-- Edits whose last one for each context leaves what the event does. -/
theorem edit_eq {e : QueueEvent} {edits : List (Selector × Option Record)}
    (h : ∀ s, edits.reverse.lookup s =
      if (Device.ownedContexts e.queue.type e.queue.memoryMapped).contains s then
        some (e.record? s) else none)
    (a : Access) : a.edit e.queue.qid edits = e.apply a := by
  funext cells s q
  rw [edit_apply, h]
  unfold QueueEvent.apply QueueEvent.owns
  by_cases hq : q = e.queue.qid
  · simp only [hq, beq_self_eq_true, Bool.true_and, if_true]
    cases (Device.ownedContexts e.queue.type e.queue.memoryMapped).contains s <;> rfl
  · simp only [beq_false_of_ne (Ne.symm hq), Bool.false_and, if_neg hq]
    rfl

end Access

namespace Device

open Access

variable {d : Device} {s : Selector} {q : UInt16}

theorem clear_succeeds (d : Device) (hs : queueContext s = true)
    (hq : d.access.engine.Addresses q) :
    d.access.Succeeds (d.clear s q) (d.access.edit q [(s, none)]) :=
  (succeeds_of_effect ((addresses_queueContext _ hs q).2 hq) fun card =>
    ⟨_, clear_effect (supports_queueContext _ hs) card q⟩).lift

theorem clear_refuses (d : Device) (hs : queueContext s = true)
    (hq : ¬ d.access.engine.Addresses q) : d.access.Refuses (d.clear s q) :=
  (refuses_of_effect (fun h => hq ((addresses_queueContext _ hs q).1 h)) fun card =>
    ⟨_, _, clear_effect (supports_queueContext _ hs) card q⟩).lift

theorem invalidate_succeeds (d : Device) (hs : queueContext s = true)
    (hq : d.access.engine.Addresses q) :
    d.access.Succeeds (lift (d.access.invalidate s q)) id :=
  (succeeds_of_effect ((addresses_queueContext _ hs q).2 hq) fun card =>
    ⟨_, invalidate_effect (supports_queueContext _ hs) (isDirect_queueContext _ hs) card q⟩).lift

/-! ### Records -/

theorem writePacked_succeeds {R F : Type} [DecidableEq F] [Fields R F] {l : Layout F} {r : R}
    (hl : l.Valid) (hw : l.words ≤ d.access.variant.window.words) (hs : queueContext s = true)
    (hq : d.access.engine.Addresses q) :
    d.access.Succeeds (lift (d.access.writePacked l s q r))
      fun cells => cells.store s q (d.access.image l s r) := by
  by_cases hr : l.Holds r
  · exact (succeeds_of_effect ((addresses_queueContext _ hs q).2 hq) fun card =>
      ⟨_, writePacked_effect hl hw (isDirect_queueContext _ hs) hr card q⟩).lift
  · exact (succeeds_of_halts (writePacked_halts hl hr s q) _).lift

/-- The trigger modes of a configuration are those of the hardware. -/
theorem completion_triggerMode (c : QueueConfig) (cardToHost : Bool) :
    (c.completion cardToHost).triggerMode.toNat ≤ TriggerMode.maxCode := by
  have hmode : ∀ mode : TriggerMode, (UInt8.ofNat mode.code).toNat ≤ TriggerMode.maxCode := by
    intro mode
    cases mode <;> decide
  exact hmode c.triggerMode

theorem writeCompletion_succeeds (c : QueueConfig) (cardToHost : Bool)
    (hq : d.access.engine.Addresses q) :
    d.access.Succeeds (lift (d.access.writeCompletion q (c.completion cardToHost)))
      (d.access.edit q [(.completion, some (.completion (c.completion cardToHost)))]) := by
  rw [writeCompletion_eq (completion_triggerMode c cardToHost)]
  exact writePacked_succeeds (RecordKind.layout_valid d.access.family .completion)
    (RecordKind.layout_words_le .completion d.access.variant) rfl hq

theorem writePrefetch_succeeds (r : PrefetchContext) (hq : d.access.engine.Addresses q) :
    d.access.Succeeds (lift (d.access.writePrefetch q r))
      (d.access.edit q [(.prefetch, some (.prefetch r))]) :=
  writePacked_succeeds (RecordKind.layout_valid d.access.family .prefetch)
    (RecordKind.layout_words_le .prefetch d.access.variant) rfl hq

theorem writeSoftware_succeeds (dir : Direction) (r : SoftwareContext)
    (hq : d.access.engine.Addresses q) :
    d.access.Succeeds (lift (d.access.writeSoftware dir q r))
      (d.access.edit q [(.software dir, some (.software r))]) :=
  writePacked_succeeds (RecordKind.layout_valid d.access.family .software)
    (RecordKind.layout_words_le .software d.access.variant) (queueContext_descriptor dir).1 hq

/-! ### Starting -/

variable {c : QueueConfig}

/-- What the start of a descriptor queue does to its contexts, in order. -/
def descriptorEdits (dir : Direction) (software : SoftwareContext)
    (stream : List (Selector × Option Record)) : List (Selector × Option Record) :=
  [(.software dir, none), (.hardware dir, none), (.credit dir, none)] ++ stream ++
    [(.software dir, some (.software software))]

/-- What is done in between for a stream. -/
def streamEdits (completion : CompletionContext) (prefetch : PrefetchContext) :
    List (Selector × Option Record) :=
  [(.prefetch, none), (.completion, none), (.completion, some (.completion completion)),
    (.prefetch, some (.prefetch prefetch))]

theorem programDescriptor_plain (d : Device) (dir : Direction) (software : SoftwareContext)
    (hq : d.access.engine.Addresses q) :
    d.access.Succeeds (d.programDescriptor q dir software none)
      (d.access.edit q (descriptorEdits dir software [])) := by
  obtain ⟨hsoftware, hhardware, hcredit⟩ := queueContext_descriptor dir
  have hall := (clear_succeeds d hsoftware hq).bind fun _ => (clear_succeeds d hhardware hq).bind
    fun _ => (clear_succeeds d hcredit hq).bind fun _ => writeSoftware_succeeds dir software hq
  exact hall

theorem programDescriptor_stream (d : Device) (dir : Direction) (software : SoftwareContext)
    (c : QueueConfig) (prefetch : PrefetchContext) (hq : d.access.engine.Addresses q) :
    d.access.Succeeds (d.programDescriptor q dir software (some (c.completion true, prefetch)))
      (d.access.edit q
        (descriptorEdits dir software (streamEdits (c.completion true) prefetch))) := by
  obtain ⟨hsoftware, hhardware, hcredit⟩ := queueContext_descriptor dir
  have hall := (clear_succeeds d hsoftware hq).bind fun _ => (clear_succeeds d hhardware hq).bind
    fun _ => (clear_succeeds d hcredit hq).bind fun _ =>
      (clear_succeeds d (s := .prefetch) rfl hq).bind fun _ =>
        (clear_succeeds d (s := .completion) rfl hq).bind fun _ =>
          (writeCompletion_succeeds c true hq).bind fun _ =>
            (writePrefetch_succeeds prefetch hq).bind fun _ =>
              writeSoftware_succeeds dir software hq
  exact hall

/-- The queue id is too wide for the first context already. -/
theorem programDescriptor_refuses (d : Device) (dir : Direction) (software : SoftwareContext)
    (stream : Option (CompletionContext × PrefetchContext))
    (hq : ¬ d.access.engine.Addresses q) :
    d.access.Refuses (d.programDescriptor q dir software stream) :=
  (clear_refuses d (queueContext_descriptor dir).1 hq).bind _

/-- A start of a queue. -/
def startEvent (q : UInt16) (type : QueueType) (c : QueueConfig) : QueueEvent :=
  ⟨⟨q, type, c.memoryMapped⟩, some c⟩

/-- A start leaves the records of the queue in its own contexts, and zeros in those without one. -/
theorem edit_start {type : QueueType} {c : QueueConfig} {edits : List (Selector × Option Record)}
    (h : ∀ s, edits.reverse.lookup s =
      if (ownedContexts type c.memoryMapped).contains s then some ((c.records type).lookup s)
      else none)
    (a : Access) (q : UInt16) : a.edit q edits = (startEvent q type c).apply a :=
  edit_eq (e := startEvent q type c) h a

theorem edit_h2c (a : Access) (q : UInt16) (c : QueueConfig) :
    a.edit q (descriptorEdits .h2c c.software []) = (startEvent q .h2c c).apply a :=
  edit_start (fun s => by cases s <;> rfl) a q

theorem edit_plain (a : Access) (q : UInt16) (hm : c.memoryMapped = true) :
    a.edit q (descriptorEdits .c2h c.software []) = (startEvent q .c2h c).apply a := by
  refine edit_start (fun s => ?_) a q
  unfold QueueConfig.records
  rw [hm]
  cases s <;> rfl

theorem edit_stream (a : Access) (q : UInt16) (hm : c.memoryMapped = false) :
    a.edit q (descriptorEdits .c2h c.software
        (streamEdits (c.completion true) (prefetchContext c))) =
      (startEvent q .c2h c).apply a := by
  refine edit_start (fun s => ?_) a q
  unfold QueueConfig.records
  rw [hm]
  cases s <;> rfl

theorem edit_cmpt (a : Access) (q : UInt16) (c : QueueConfig) :
    a.edit q [(.completion, none), (.completion, some (.completion (c.completion false)))] =
      (startEvent q .cmpt c).apply a :=
  edit_start (fun s => by cases s <;> rfl) a q

/-- On a prompt card `op` changes the cells by `f`; it fails, and changes none, only if `ok` does
not hold or commands cannot name the queue. -/
def Installs (d : Device) (op : Action QueueError Unit) (q : UInt16) (ok : Bool)
    (f : Cells → Cells) : Prop :=
  ∀ card : Card, card.Prompt d.access.poll.attempts →
    op.run.Leads (Card.backend d.access.variant.window) card fun r card' =>
      match r with
      | .ok () => d.access.engine.Addresses q ∧ d.access.cells card' = f (d.access.cells card)
      | .error _ => ¬ (ok = true ∧ d.access.engine.Addresses q) ∧
        d.access.cells card' = d.access.cells card

theorem installs_of {op : Action QueueError Unit} {f : Cells → Cells}
    (hs : d.access.engine.Addresses q → d.access.Succeeds op f)
    (hr : ¬ d.access.engine.Addresses q → d.access.Refuses op) : d.Installs op q true f := by
  intro card hp
  by_cases hq : d.access.engine.Addresses q
  · refine (hs hq card hp).mono ?_
    rintro r card' ⟨⟨⟨⟩, rfl⟩, hcells⟩
    exact ⟨hq, hcells⟩
  · refine (hr hq card hp).mono ?_
    rintro r card' ⟨⟨e, rfl⟩, hcells⟩
    exact ⟨fun h => hq h.2, hcells⟩

/-- Checks that pass are followed by what is done with the value, on the same card. -/
theorem Checks.leads {α β : Type} {op : Action QueueError α} {g : α → Action QueueError β}
    {w : Window} {card : Card} {Q : Except QueueError β → Card → Prop} {ok : Bool} {v : α}
    (h : Checks op ok v) (hg : (g v).run.Leads (Card.backend w) card Q)
    (herror : ∀ e, ok = false → Q (.error e) card) :
    (op >>= g).run.Leads (Card.backend w) card Q := by
  have hleads : op.run.Leads (Card.backend w) card fun r card' =>
      r = (if ok then .ok v else .error (.access .invalidParameter)) ∧ card' = card :=
    (Script.Leads.of_ends h.ends).and (Card.leads_offline h.offline)
  refine hleads.action ?_ ?_
  · rintro v' card' ⟨hv, rfl⟩
    cases ok with
    | false => cases hv
    | true =>
      cases hv
      exact hg
  · rintro e card' ⟨he, rfl⟩
    cases ok with
    | false => exact herror e rfl
    | true => cases he

theorem Checks.returns {α β : Type} {op : Action QueueError α} {g : α → Action QueueError β}
    {w : Window} {card : Card} {Q : Except QueueError β → Card → Prop} {v : α}
    (h : Checks op true v) (hg : (g v).run.Returns (Card.backend w) card Q) :
    (op >>= g).run.Returns (Card.backend w) card Q := by
  obtain ⟨r, card', hr⟩ := (Script.Silent.total h).run (Card.backend w) card
  obtain rfl := Card.leads_offline h.offline r card' hr
  obtain rfl := h.ends.of_run hr
  rw [Script.run_action_bind]
  exact .step hr hg

theorem Checks.installs {α : Type} {op : Action QueueError α} {g : α → Action QueueError Unit}
    {f : Cells → Cells} {ok ok' : Bool} {v : α} (h : Checks op ok v)
    (hg : d.Installs (g v) q ok' f) : d.Installs (op >>= g) q (ok && ok') f := by
  intro card hp
  refine h.leads ((hg card hp).mono fun r card' hr => ?_) fun _ hok => ?_
  · cases r with
    | ok _ => exact hr
    | error e => exact ⟨fun hn => hr.1 ⟨(Bool.and_eq_true_iff.1 hn.1).2, hn.2⟩, hr.2⟩
  · refine ⟨fun hn => ?_, rfl⟩
    rw [hok] at hn
    cases hn.1

theorem Installs.andNotice {op : Action QueueError Unit} {ok : Bool} {f : Cells → Cells}
    (h : d.Installs op q ok f) (n : Notice) :
    d.Installs (op >>= fun _ => liftM (Script.notice n)) q ok f := by
  intro card hp
  refine (h card hp).action (fun _ card' hr r card'' hn => ?_) fun e card' he => he
  cases hn
  exact hr

theorem descriptor_installs (d : Device) (q : UInt16) (dir : Direction)
    (software : SoftwareContext) (stream : Option (CompletionContext × PrefetchContext))
    {f : Cells → Cells} (n : Notice)
    (hs : d.access.engine.Addresses q →
      d.access.Succeeds (d.programDescriptor q dir software stream) f) :
    d.Installs (d.programDescriptor q dir software stream >>= fun _ => liftM (Script.notice n)) q
      true f :=
  (installs_of hs (programDescriptor_refuses d dir software stream)).andNotice n

theorem launch_installs (d : Device) (q : UInt16) (type : QueueType) (c : QueueConfig) :
    d.Installs (d.launch q type c) q (c.checked d.access.family type)
      ((startEvent q type c).apply d.access) := by
  have hsoftware := softwareContext_checks d c
  unfold launch startDescriptor QueueConfig.checked
  cases type with
  | h2c =>
    rw [← Bool.and_true (c.softwareChecked _)]
    refine hsoftware.installs (descriptor_installs d q .h2c c.software none _ fun hq => ?_)
    rw [← edit_h2c]
    exact programDescriptor_plain d .h2c c.software hq
  | c2h =>
    cases hm : c.memoryMapped with
    | true =>
      refine hsoftware.installs (descriptor_installs d q .c2h c.software none _ fun hq => ?_)
      rw [← edit_plain _ _ hm]
      exact programDescriptor_plain d .c2h c.software hq
    | false =>
      rw [Bool.false_or, ← Bool.and_true (c.completionChecked _)]
      refine hsoftware.installs ((completionContext_checks d c true).installs
        (descriptor_installs d q .c2h c.software _ _ fun hq => ?_))
      rw [← edit_stream _ _ hm]
      exact programDescriptor_stream d .c2h c.software c (prefetchContext c) hq
  | cmpt =>
    rw [← Bool.and_true (c.completionChecked _)]
    refine (completionContext_checks d c false).installs
      (installs_of (fun hq => ?_) fun hq => (clear_refuses d rfl hq).bind _)
    rw [← edit_cmpt]
    exact (clear_succeeds d rfl hq).bind fun _ => writeCompletion_succeeds c false hq

/-- A start changes the contexts of its queue, or fails and changes none. -/
theorem startQueue_installs (d : Device) (q : UInt16) (type : QueueType) (c : QueueConfig) :
    d.Installs (d.startQueue q type c) q (c.checked d.access.family type)
      ((startEvent q type c).apply d.access) := by
  intro card hp
  rw [startQueue_run]
  refine (launch_installs d q type c card hp).bind fun r card' hr => ?_
  cases r with
  | ok _ => exact Script.leads_pure.2 hr
  | error e =>
    intro r card'' hn
    cases hn
    exact hr

/-! ### Stopping -/

theorem forM_succeeds {α ε : Type} {a : Access} {g : α → Action ε Unit}
    {f : α → Cells → Cells} {items : List α} (h : ∀ x ∈ items, a.Succeeds (g x) (f x)) :
    a.Succeeds (items.forM g) fun cells => items.foldl (fun cells x => f x cells) cells := by
  induction items with
  | nil => exact succeeds_pure ()
  | cons x rest ih =>
    have hrest := ih fun y hy => h y (List.mem_cons_of_mem _ hy)
    exact (h x List.mem_cons_self).bind fun _ => hrest

/-- A stop of a queue. -/
def stopEvent (q : StartedQueue) : QueueEvent :=
  ⟨q, none⟩

theorem edit_stop (a : Access) (queue : StartedQueue) :
    a.edit queue.qid ((ownedContexts queue.type queue.memoryMapped).map fun s => (s, none)) =
      (stopEvent queue).apply a := by
  refine edit_eq (e := stopEvent queue) (fun s => ?_) a
  obtain ⟨qid, type, memoryMapped⟩ := queue
  cases type <;> cases memoryMapped <;> cases s <;> rfl

/-- The contexts of a queue are cleared one after the other, and invalidating them leaves them as
they are. -/
theorem edit_owned (a : Access) (queue : StartedQueue) :
    ((fun cells => (ownedContexts queue.type queue.memoryMapped).foldl
      (fun cells s => a.edit queue.qid [(s, none)] cells) cells) ∘ fun cells =>
        (ownedContexts queue.type queue.memoryMapped).foldl (fun cells _ => cells) cells) =
      (stopEvent queue).apply a := by
  rw [← edit_stop]
  funext cells
  rw [Function.comp_apply, List.foldl_fixed]
  unfold edit
  rw [List.foldl_map]
  rfl

theorem queueContext_owned (type : QueueType) (memoryMapped : Bool) :
    ∀ s ∈ ownedContexts type memoryMapped, queueContext s = true := by
  cases type <;> cases memoryMapped <;> decide

theorem stopQueue_succeeds (d : Device) (queue : StartedQueue)
    (hq : d.access.engine.Addresses queue.qid) :
    d.access.Succeeds (d.stopQueue queue.qid queue.type queue.memoryMapped)
      ((stopEvent queue).apply d.access) := by
  have howned := queueContext_owned queue.type queue.memoryMapped
  have hinvalidate := forM_succeeds (f := fun _ cells => cells) fun s hs =>
    invalidate_succeeds d (howned s hs) hq
  have hclear := forM_succeeds (f := fun s => d.access.edit queue.qid [(s, none)]) fun s hs =>
    clear_succeeds d (howned s hs) hq
  rw [← edit_owned]
  exact hinvalidate.bind fun _ => hclear.andNotice (.queueStopped queue.qid queue.type)

end Device

end DmaQueues
