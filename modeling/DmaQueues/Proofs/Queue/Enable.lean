import DmaQueues.Proofs.Engine.History
import DmaQueues.Proofs.Queue.Bringup
import DmaQueues.Proofs.Queue.Commands
import DmaQueues.Proofs.Queue.Start

/-!
# Enabling comes last

The software context of a descriptor queue is cleared first and written last. So once it is cleared
it stays zero, whichever of the commands in between times out, unless the start succeeds: a start
that fails leaves the queue disabled (`startQueue_enables_last`). The device must not carry out
what it has not reported in time (`Card.Settles`).
-/

namespace DmaQueues

open Access

/-! ## The plan of a start -/

namespace Device

variable {dir : Direction} {q : UInt16} {streams : Bool}

/-- The first command of a start. -/
def clearing (dir : Direction) (q : UInt16) : Command :=
  ⟨.software dir, .clear, q⟩

/-- What is done once the software context is cleared, and before it is written. -/
def between (dir : Direction) (q : UInt16) (streams : Bool) : List Command :=
  (preparation dir q streams).tail

theorem preparation_eq : preparation dir q streams = clearing dir q :: between dir q streams := rfl

theorem between_other {c : Command} (h : c ∈ between dir q streams) :
    c.selector ≠ .software dir := by
  revert c
  cases dir <;> cases streams <;> simp [between, preparation, Selector.software, Selector.hardware,
    Selector.credit]

theorem ne_enabling {c : Command} (h : c ∈ preparation dir q streams) : c ≠ enabling dir q := by
  rintro rfl
  rcases List.mem_cons.1 h with heq | hrest
  · cases heq
  · exact between_other hrest rfl

end Device

/-- Where the last element is found in a beginning of a list, everything else stands before it. -/
theorem append_cons_isPrefix_concat {α : Type} {xs ys zs : List α} {y : α}
    (h : xs ++ y :: zs <+: ys ++ [y]) (hy : y ∉ ys) : xs = ys ∧ zs = [] := by
  rcases List.prefix_concat_iff.1 h with heq | hbegins
  · rcases List.eq_nil_or_concat zs with rfl | ⟨front, last, rfl⟩
    · exact ⟨(List.append_inj' heq rfl).1, rfl⟩
    · have hfront : (xs ++ y :: front) ++ [last] = ys ++ [y] := by
        rw [← heq, List.concat_eq_append, List.append_assoc, List.cons_append]
      rw [← (List.append_inj' hfront rfl).1] at hy
      exact absurd (List.mem_append_right _ List.mem_cons_self) hy
  · exact absurd (hbegins.subset (List.mem_append_right _ List.mem_cons_self)) hy

/-! ## The context at any moment -/

namespace Access

variable {a : Access} {card : Card} {s : Selector} {q : UInt16}

theorem cleared_iff (hs : queueContext s = true) : a.Cleared card s q ↔
    card.context a.variant.window s q = List.replicate a.variant.window.words 0 := by
  unfold Cleared cells width
  rw [cellsOf_indirect (isDirect_queueContext a hs), isDirect_queueContext a hs]
  exact Iff.rfl

/-- Commands on other contexts. -/
theorem cleared_after_others {t : Trace} (hs : queueContext s = true)
    (ht : ∀ c ∈ a.variant.window.commands t, c.selector ≠ s) :
    a.Cleared ((Card.backend a.variant.window).after card t) s q ↔ a.Cleared card s q := by
  have hstays := (Card.context_after a.variant.window t card s q).2.2 fun i c hi hc _ =>
    absurd hc (ht c (List.mem_of_getElem? hi))
  rw [cleared_iff hs, cleared_iff hs]
  unfold Card.context
  rw [hstays]

/-- Once its first command is a clear that is carried out, a context stays zero over commands on
others. -/
theorem cleared_after {t : Trace} {rest : List Command} (hs : queueContext s = true)
    (hcommands : a.variant.window.commands t = ⟨s, .clear, q⟩ :: rest)
    (hrest : ∀ c ∈ rest, c.selector ≠ s) (hfate : card.fate card.accepted ⟨s, .clear, q⟩ ≠ .lost) :
    a.Cleared ((Card.backend a.variant.window).after card t) s q := by
  obtain ⟨earlier, word, later, rfl, hnone, hword, rfl⟩ := Window.split_commands hcommands
  obtain ⟨haccepted, hsame, -⟩ := Card.context_after a.variant.window earlier card s q
  rw [hnone] at haccepted
  have hevent := (Window.command?_word a.variant.window word).trans hword
  rw [Backend.after_append]
  refine (cleared_after_others hs hrest).2 ((cleared_iff hs).2 ?_)
  rw [Card.advance_of_some hevent]
  refine Card.accept_clear ?_
  rw [hsame, haccepted]
  exact hfate

/-! ## How a start ends -/

variable {α ε : Type} {P : Card → Prop}

/-- From a card that settles and is as `P` says, `op` succeeds, changes nothing, or ends with the
context cleared. -/
def Withholds (a : Access) (s : Selector) (q : UInt16) (P : Card → Prop) (op : Action ε Unit) :
    Prop :=
  ∀ card, card.Settles a.poll.attempts → P card →
    op.run.Leaves (Card.backend a.variant.window) card fun r card' =>
      r = .ok (.ok ()) ∨ card' = card ∨ a.Cleared card' s q

theorem withholds_offline {op : Action ε Unit} (h : op.run.Offline) : a.Withholds s q P op :=
  fun _ _ _ => (Card.leaves_offline h).mono fun _ _ hsame => .inr (.inl hsame)

/-- What comes before the first access. -/
theorem Withholds.after_offline {op : Action ε α} {f : α → Action ε Unit} (h : op.run.Offline)
    (hf : ∀ v, a.Withholds s q P (f v)) : a.Withholds s q P (op >>= f) := by
  intro card hsettles hP
  refine (Card.leaves_offline h).action ?_ (fun _ _ hsame => .inr (.inl hsame))
    fun _ _ hsame => .inr (.inl hsame)
  rintro v _ rfl
  exact hf v _ hsettles hP

/-- What touches other contexts. -/
theorem Withholds.after {op : Action ε α} {f : α → Action ε Unit}
    (h : a.Confined (fun s' _ => s' ≠ s) op.run)
    (hf : ∀ v, a.Withholds s q (a.Cleared · s q) (f v)) :
    a.Withholds s q (a.Cleared · s q) (op >>= f) := by
  intro card hsettles hcleared
  have hkeeps : op.run.Leaves (Card.backend a.variant.window) card fun _ card' =>
      card'.Settles a.poll.attempts ∧ a.Cleared card' s q := by
    intro r card' hr
    have hcell := h card s q (absurd rfl)
    rw [hr] at hcell
    exact ⟨hsettles.run hr, hcell.trans hcleared⟩
  refine hkeeps.action (fun v card₁ hk => ?_) (fun _ _ hk => .inr (.inr hk.2))
    fun _ _ hk => .inr (.inr hk.2)
  refine (hf v card₁ hk.1 hk.2).mono fun r card' hend => hend.imp_right fun hend => ?_
  rcases hend with rfl | hcleared'
  · exact .inr hk.2
  · exact .inr hcleared'

theorem Withholds.andNotice {op : Action ε Unit} (h : a.Withholds s q P op) (n : Notice) :
    a.Withholds s q P (op >>= fun _ => liftM (Script.notice n)) := by
  intro card hsettles hP
  refine (h card hsettles hP).action (fun _ card' _ r card'' hr => ?_) (fun _ _ hend => ?_)
    fun _ _ hend => ?_
  · cases hr
    exact .inl rfl
  · exact .inr (hend.resolve_left nofun)
  · exact .inr (hend.resolve_left nofun)

theorem Withholds.lift {op : Action AccessError Unit} (h : a.Withholds s q P op) :
    a.Withholds s q P (Device.lift op) := by
  intro card hsettles hP
  rw [Device.lift_run]
  refine (h card hsettles hP).bind (fun r card' hend => Script.leaves_pure.2 ?_) fun _ _ hend =>
    .inr (hend.resolve_left nofun)
  rcases hend with hok | hend
  · cases hok
    exact .inl rfl
  · exact .inr hend

/-- A write that times out is not carried out. -/
theorem writePacked_withholds {R F : Type} [DecidableEq F] [Fields R F] {l : Layout F}
    (hl : l.Valid) (hw : l.words ≤ a.variant.window.words) (hs : queueContext s = true)
    (q : UInt16) (r : R) : a.Withholds s q (a.Cleared · s q) (a.writePacked l s q r) := by
  intro card hsettles hcleared
  by_cases hr : l.Holds r
  · intro result card' hrun
    obtain ⟨outcome, card₁, hrun', ho⟩ :=
      writePacked_effect hl hw (isDirect_queueContext a hs) hr card q
    cases hrun.symm.trans hrun'
    cases outcome with
    | ok _ => exact .inl rfl
    | error e => exact .inr (.inr ((congrFun₂ (ho.of_settles hsettles) s q).trans hcleared))
  · obtain ⟨f, hf⟩ := writePacked_fault (a := a) hl hr s q
    have hoffline : (a.writePacked l s q r).run.Offline := by
      rw [hf]
      trivial
    exact withholds_offline (P := (a.Cleared · s q)) hoffline card hsettles hcleared

/-- A clear that is carried out, on a card that settles, is done in time. -/
theorem clear_leaves (hs : queueContext s = true) (hq : a.engine.Addresses q)
    (hsettles : card.Settles a.poll.attempts)
    (hfate : card.fate card.accepted ⟨s, .clear, q⟩ ≠ .lost) :
    (a.clear s q).run.Leaves (Card.backend a.variant.window) card fun r card' =>
      r = .ok (.ok ()) ∧ a.Cleared card' s q := by
  have hv := a.variant.window_valid
  have hdone : (card.accept a.engine.window ⟨s, .clear, q⟩).doneWithin a.engine.poll.attempts =
      true := by
    rcases hsettles card.accepted ⟨s, .clear, q⟩ with hlost | ⟨left, hle, hdone⟩
    · exact absurd hlost hfate
    · unfold Card.accept
      rw [hdone]
      exact decide_eq_true hle
  have hrun := Engine.run_simple (e := a.engine) (c := ⟨s, .clear, q⟩) hv hq card
  rw [if_pos hdone] at hrun
  unfold clear
  rw [checkSelector_eq (supports_queueContext a hs), isDirect_queueContext a hs]
  intro r card' hr
  cases hr.symm.trans hrun
  exact ⟨rfl, (cleared_iff hs).2 (Card.accept_clear hfate)⟩

end Access

namespace Device

variable {d : Device} {q : UInt16} {dir : Direction}

/-- The first clear of a start is carried out. -/
def ClearsFirst (dir : Direction) (q : UInt16) (card : Card) : Prop :=
  card.fate card.accepted (clearing dir q) ≠ .lost

theorem clear_withholds {f : Unit → Action QueueError Unit}
    (hf : d.access.Withholds (.software dir) q (d.access.Cleared · (.software dir) q) (f ())) :
    d.access.Withholds (.software dir) q (ClearsFirst dir q)
      (d.clear (.software dir) q >>= f) := by
  obtain ⟨hs, -, -⟩ := queueContext_descriptor dir
  by_cases hq : d.access.engine.Addresses q
  · intro card hsettles hfate
    have hclear : (d.clear (.software dir) q).run.Leaves (Card.backend d.access.variant.window)
        card fun r card' => r = .ok (.ok ()) ∧ card'.Settles d.access.poll.attempts ∧
          d.access.Cleared card' (.software dir) q := by
      unfold clear
      rw [lift_run]
      refine ((Access.clear_leaves hs hq hsettles hfate).and fun r card' hr =>
        hsettles.run hr).bind ?_ ?_
      · rintro r card' ⟨⟨hok, hcleared⟩, hsettles'⟩
        cases hok
        exact Script.leaves_pure.2 ⟨rfl, hsettles', hcleared⟩
      · rintro e card' ⟨⟨hok, -⟩, -⟩
        cases hok
    refine hclear.action (fun _ card₁ ⟨_, hsettles', hcleared⟩ => ?_) (fun _ _ h => nomatch h.1)
      fun _ _ h => nomatch h.1
    refine (hf card₁ hsettles' hcleared).mono fun r card' hend => hend.imp_right fun hend => ?_
    rcases hend with rfl | hcleared'
    · exact .inr hcleared
    · exact .inr hcleared'
  · exact withholds_offline ((clear_refused hs hq).refused f ()).offline

theorem programDescriptor_withholds (d : Device) (q : UInt16) (dir : Direction)
    (software : SoftwareContext) (stream : Option (CompletionContext × PrefetchContext)) :
    d.access.Withholds (.software dir) q (ClearsFirst dir q)
      (d.programDescriptor q dir software stream) := by
  obtain ⟨hsoftware, hhardware, hcredit⟩ := queueContext_descriptor dir
  have hwrite : d.access.Withholds (.software dir) q (d.access.Cleared · (.software dir) q)
      (lift (d.access.writeSoftware dir q software)) :=
    (writePacked_withholds (RecordKind.layout_valid d.access.family .software)
      (RecordKind.layout_words_le .software d.access.variant) hsoftware q software).lift
  unfold programDescriptor
  refine clear_withholds ?_
  refine .after (clear_confined d hhardware (by cases dir <;> nofun)) fun _ => ?_
  refine .after (clear_confined d hcredit (by cases dir <;> nofun)) fun _ => ?_
  cases stream with
  | none => exact hwrite
  | some stream =>
    obtain ⟨completion, prefetch⟩ := stream
    refine .after (clear_confined d rfl (by cases dir <;> nofun)) fun _ => ?_
    refine .after (clear_confined d rfl (by cases dir <;> nofun)) fun _ => ?_
    refine .after (writeCompletion_confined d (by cases dir <;> nofun) completion) fun _ => ?_
    exact .after (writePrefetch_confined d (by cases dir <;> nofun) prefetch) fun _ => hwrite

theorem startDescriptor_withholds (d : Device) (q : UInt16) (type : QueueType) (dir : Direction)
    (c : QueueConfig) : d.access.Withholds (.software dir) q (ClearsFirst dir q)
      (d.startDescriptor q type dir c) := by
  unfold startDescriptor
  refine .after_offline (softwareContext_checks d c).offline fun software => ?_
  cases dir == .c2h && !c.memoryMapped with
  | true =>
    refine .after_offline (completionContext_checks d c true).offline fun completion => ?_
    exact (programDescriptor_withholds d q dir software _).andNotice _
  | false => exact (programDescriptor_withholds d q dir software none).andNotice _

theorem startQueue_withholds (d : Device) (q : UInt16) (dir : Direction) (c : QueueConfig) :
    d.access.Withholds (.software dir) q (ClearsFirst dir q)
      (d.startQueue q dir.queueType c) := by
  have hlaunch : d.access.Withholds (.software dir) q (ClearsFirst dir q)
      (d.launch q dir.queueType c) := by
    cases dir with
    | h2c => exact startDescriptor_withholds d q .h2c .h2c c
    | c2h => exact startDescriptor_withholds d q .c2h .c2h c
  intro card hsettles hfate
  rw [startQueue_run]
  refine (hlaunch card hsettles hfate).bind (fun r card' hend => ?_) fun _ _ hend =>
    .inr (hend.resolve_left nofun)
  cases r with
  | ok _ => exact Script.leaves_pure.2 (.inl rfl)
  | error error =>
    intro r card'' hr
    cases hr
    exact .inr (hend.resolve_left nofun)

/-! ## Enabling -/

/-- What a trace of a start owes: anything that is done to the software context, but a clear, is the
write that is its last command, and all that comes before the write is done by then. -/
def EnablesLast (d : Device) (dir : Direction) (q : UInt16) (c : QueueConfig) (t : Trace) : Prop :=
  ∀ earlier word later command, t = earlier ++ .write d.variant.window.command word :: later →
    Command.decode? word d.variant.window.qidMask = some command →
    command.selector = .software dir → command.operation ≠ .clear →
      command = enabling dir q ∧
      d.variant.window.commands earlier = preparation dir q (streams dir c.memoryMapped) ∧
      d.variant.window.Serial false earlier ∧ d.variant.window.busyAfter false earlier = false ∧
      d.variant.window.commands later = []

theorem EnablesLast.of_begins {c : QueueConfig} {t : Trace}
    (hserial : d.variant.window.Serial false t)
    (hbegins : d.variant.window.commands t <+: descriptorCommands dir q c.memoryMapped) :
    d.EnablesLast dir q c t := by
  rintro earlier word later command rfl hword hs ho
  have hevent := (Window.command?_word d.variant.window word).trans hword
  have hcommands : d.variant.window.commands
      (earlier ++ .write d.variant.window.command word :: later) =
        d.variant.window.commands earlier ++ command :: d.variant.window.commands later := by
    rw [Window.commands_append]
    exact congrArg _ (List.filterMap_cons_some hevent)
  rw [hcommands] at hbegins
  obtain rfl : command = enabling dir q := by
    rcases List.mem_append.1 (hbegins.subset (List.mem_append_right _ List.mem_cons_self)) with
      hmem | hmem
    · rcases List.mem_cons.1 hmem with rfl | hrest
      · exact absurd rfl ho
      · exact absurd hs (between_other hrest)
    · exact List.mem_singleton.1 hmem
  obtain ⟨hbefore, hafter⟩ := append_cons_isPrefix_concat hbegins fun hmem => ne_enabling hmem rfl
  obtain ⟨hserial', hwrite⟩ := Window.serial_append.1 hserial
  refine ⟨rfl, hbefore, hserial', Bool.eq_false_iff.2 fun hbusy => ?_, hafter⟩
  exact hwrite.1 hbusy (List.mem_append_right _ (List.mem_singleton.2 rfl))

section

variable {c : QueueConfig} {card card' : Card} {r : Checked (Except QueueError Unit)} {t : Trace}

/-- At a moment of a start when its last command is still to come. -/
theorem cleared_before_enabling (hfate : ClearsFirst dir q card)
    (hnone : d.variant.window.commands t ≠ [])
    (hbegins : d.variant.window.commands t <+: descriptorCommands dir q c.memoryMapped)
    (hleft : d.variant.window.commands t ≠ descriptorCommands dir q c.memoryMapped) :
    d.access.Cleared ((Card.backend d.variant.window).after card t) (.software dir) q := by
  have hbefore := (List.prefix_concat_iff.1 hbegins).resolve_left hleft
  rw [preparation_eq] at hbefore
  rcases List.prefix_cons_iff.1 hbefore with hnil | ⟨rest, hcommands, hrest⟩
  · exact absurd hnil hnone
  · exact cleared_after (queueContext_descriptor dir).1 hcommands
      (fun command hmem => between_other (hrest.subset hmem)) hfate

variable (hsettles : card.Settles d.access.poll.attempts) (hfate : ClearsFirst dir q card)
  (hr : (d.startQueue q dir.queueType c).run.trace (Card.backend d.variant.window) card =
    (r, card', t))
include hsettles hfate hr

/-- A start that hands over a command and fails leaves its queue disabled. -/
theorem cleared_of_failed (hnone : d.variant.window.commands t ≠ []) (hfails : r ≠ .ok (.ok ())) :
    d.access.Cleared card' (.software dir) q := by
  obtain ⟨hrun, hcard'⟩ := Script.run_of_trace hr
  rcases startQueue_withholds d q dir c card hsettles hfate r _ hrun with hok | rfl | hcleared
  · exact absurd hok hfails
  · have haccepted := (Card.context_after d.variant.window t card' (.software dir) q).1
    rw [← hcard'] at haccepted
    exact absurd (List.eq_nil_of_length_eq_zero (by omega)) hnone
  · exact hcleared

/-- From its first command on a queue is disabled, until its start succeeds. -/
theorem cleared_until_enabled {t' : Trace} (ht : t' <+: t)
    (hnone : d.variant.window.commands t' ≠ []) :
    (d.variant.window.commands t' = descriptorCommands dir q c.memoryMapped ∧ r = .ok (.ok ())) ∨
      d.access.Cleared ((Card.backend d.variant.window).after card t') (.software dir) q := by
  obtain ⟨later, rfl⟩ := ht
  have hissues := startQueue_issues d q dir.queueType c
  rw [startCommands_queueType] at hissues
  have hbegins := (hissues.of_trace hr).2.1
  rw [Window.commands_append] at hbegins
  by_cases hall : d.variant.window.commands t' = descriptorCommands dir q c.memoryMapped
  · by_cases hok : r = .ok (.ok ())
    · exact .inl ⟨hall, hok⟩
    · -- The last command was handed over and has failed, so it was not carried out, nor is
      -- another one from here on.
      have hlater : d.access.variant.window.commands later = [] := by
        rw [hall] at hbegins
        exact List.append_right_eq_self.1
          ((List.prefix_append _ _).eq_of_length_le hbegins.length_le).symm
      have hcleared := cleared_of_failed hsettles hfate hr (fun h => hnone (by
        rw [Window.commands_append] at h
        exact (List.append_eq_nil_iff.1 h).1)) hok
      rw [(Script.run_of_trace hr).2, Backend.after_append] at hcleared
      refine .inr ((cleared_after_others (queueContext_descriptor dir).1 ?_).1 hcleared)
      rw [hlater]
      exact nofun
  · exact .inr (cleared_before_enabling hfate hnone ((List.prefix_append _ _).trans hbegins) hall)

end

/-- Whatever the device does, a start of a descriptor queue writes the software context, which holds
the queue enable bit, as its last command, and not before all other contexts are cleared and written.
On a device that carries out no command that times out, the software context is zero from the first
clear on, until the last command of a start that succeeds: so a start that fails after its first
clear leaves the queue disabled. -/
theorem startQueue_enables_last (d : Device) (dir : Direction) (q : UInt16) (c : QueueConfig) :
    (∀ {σ : Type} (b : Backend σ) (s s' : σ) r t,
      (d.startQueue q dir.queueType c).run.trace b s = (r, s', t) → d.EnablesLast dir q c t ∧
        (r = .ok (.ok ()) →
          d.variant.window.commands t = descriptorCommands dir q c.memoryMapped)) ∧
    ∀ (card card' : Card) r t, card.Settles d.access.poll.attempts → ClearsFirst dir q card →
      (d.startQueue q dir.queueType c).run.trace (Card.backend d.variant.window) card =
        (r, card', t) →
      (∀ t', t' <+: t → d.variant.window.commands t' ≠ [] →
        (d.variant.window.commands t' = descriptorCommands dir q c.memoryMapped ∧
            r = .ok (.ok ())) ∨
          d.access.Cleared ((Card.backend d.variant.window).after card t') (.software dir) q) ∧
      (d.variant.window.commands t ≠ [] → r ≠ .ok (.ok ()) →
        d.access.Cleared card' (.software dir) q) := by
  refine ⟨fun b s s' r t hr => ?_, fun card card' r t hsettles hfate hr => ⟨?_, ?_⟩⟩
  · have hissues := startQueue_issues d q dir.queueType c
    rw [startCommands_queueType] at hissues
    obtain ⟨hserial, hbegins, hok⟩ := hissues.of_trace hr
    exact ⟨EnablesLast.of_begins hserial hbegins, fun h => (hok () h).1⟩
  · exact fun t' ht hnone => cleared_until_enabled hsettles hfate hr ht hnone
  · exact cleared_of_failed hsettles hfate hr

/-- A card with a word in every context, which loses one command. -/
def losingNth (n : Nat) : Card :=
  { wordCard with fate := fun i _ => if i = n then .lost else .done 0 }

/-- A stream is started, and the clear of its completion context is lost. -/
def lostStart : Checked (Except QueueError Unit) × Card × Trace :=
  (softDevice.startQueue 3 .c2h {}).run.trace (Card.backend .soft) (losingNth 4)

theorem lost_clear_leaves_disabled :
    lostStart.1 = .ok (.error (.access .busyTimeout)) ∧
      Window.soft.commands lostStart.2.2 = (preparation .c2h 3 true).take 5 ∧
      softDevice.access.Cleared lostStart.2.1 .softwareC2h 3 := by
  have hsettles : (losingNth 4).Settles softDevice.access.poll.attempts := by
    intro i c
    by_cases hi : i = 4
    · exact .inl (if_pos hi)
    · exact .inr ⟨0, Nat.zero_le _, if_neg hi⟩
  have hresult : lostStart.1 = .ok (.error (.access .busyTimeout)) := by decide +kernel
  have hcommands : Window.soft.commands lostStart.2.2 = (preparation .c2h 3 true).take 5 := by
    decide +kernel
  have hr : lostStart = (.ok (.error (.access .busyTimeout)), lostStart.2.1, lostStart.2.2) :=
    Prod.ext hresult Prod.mk.eta.symm
  have hlast := (startQueue_enables_last softDevice .c2h 3 {}).2 _ _ _ _ hsettles nofun hr
  refine ⟨hresult, hcommands, hlast.2 (fun hnone => ?_) nofun⟩
  cases hcommands.symm.trans hnone

end Device

end DmaQueues
