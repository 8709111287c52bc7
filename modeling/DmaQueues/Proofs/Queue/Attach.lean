import DmaQueues.Proofs.Identification
import DmaQueues.Proofs.Queue.Bringup
import DmaQueues.Proofs.Queue.SetMap

/-!
# Attaching

A physical function is identified from registers alone. Then the contexts of as many queues as the
capacity register tells of are zeroed one after the other, and the function maps after them. The
capacity register has twelve bits for the number, a command eleven or more for a queue id: if the
number is too large, the first queue without a place ends the attach (`attach_outcome`).

`Wipes` is what a part of this does on a prompt device: it zeroes its targets if a command has a
place for all of them, and is refused otherwise.
-/

namespace DmaQueues

namespace Access

/-- Cells by selector and queue id. -/
abbrev Targets := List (Selector × UInt16)

variable {a : Access} {targets later : Targets}

/-- `cells` with some of them zeroed. -/
def wipe (a : Access) (targets : Targets) (cells : Cells) : Cells := fun s q =>
  if (s, q) ∈ targets then List.replicate (a.width s) 0 else cells s q

theorem wipe_singleton (a : Access) (s : Selector) (q : UInt16) (cells : Cells) :
    a.wipe [(s, q)] cells = cells.store s q (List.replicate (a.width s) 0) := by
  funext s' q'
  unfold wipe Cells.store
  simp only [List.mem_singleton, Prod.mk.injEq]
  split
  next h => rw [h.1]
  next => rfl

theorem wipe_append (a : Access) (targets later : Targets) (cells : Cells) :
    a.wipe (targets ++ later) cells = a.wipe later (a.wipe targets cells) := by
  funext s q
  unfold wipe
  simp only [List.mem_append]
  by_cases hlater : (s, q) ∈ later
  · rw [if_pos (.inr hlater), if_pos hlater]
  · rw [if_neg hlater]
    simp only [hlater, or_false]

/-- All targets are there. -/
def Reaches (a : Access) (targets : Targets) : Prop :=
  ∀ t ∈ targets, a.Addresses t.1 t.2

instance (a : Access) (targets : Targets) : Decidable (a.Reaches targets) :=
  inferInstanceAs (Decidable (∀ t ∈ targets, _))

theorem reaches_append : a.Reaches (targets ++ later) ↔ a.Reaches targets ∧ a.Reaches later :=
  List.forall_mem_append

end Access

namespace Device

open Access

variable {d : Device} {targets later : Targets}

/-! ## Zeroing cells -/

/-- On a prompt card `op` zeroes its targets if all are there, and is refused otherwise. -/
def Wipes (d : Device) (op : Action QueueError Unit) (targets : Targets) : Prop :=
  ∀ card : Card, card.Prompt d.access.poll.attempts →
    op.run.Returns (Card.backend d.access.variant.window) card fun r card' =>
      if d.access.Reaches targets then
        r = .ok () ∧ d.access.cells card' = d.access.wipe targets (d.access.cells card)
      else r = .error (.access .invalidParameter)

theorem Wipes.bind {op next : Action QueueError Unit} (h : d.Wipes op targets)
    (hnext : d.Wipes next later) : d.Wipes (op >>= fun _ => next) (targets ++ later) := by
  intro card hp
  obtain ⟨r, card', hr, hop⟩ := h card hp
  rw [Script.run_action_bind]
  refine .step hr ?_
  simp only [reaches_append, wipe_append]
  split at hop
  next hreaches =>
    obtain ⟨rfl, hcells⟩ := hop
    refine (hnext card' (hp.run hr)).mono fun r' card'' hlater => ?_
    simpa only [hreaches, true_and, ← hcells] using hlater
  next hrefused =>
    subst hop
    exact Script.returns_pure.2 (by simp only [hrefused, false_and, if_false])

theorem wipes_nil {op : Action QueueError Unit} (h : op.run.Silent (· = .ok ())) :
    d.Wipes op [] := by
  intro card _
  obtain ⟨r, card', hr⟩ := h.total.run (Card.backend d.access.variant.window) card
  obtain rfl := Card.leads_offline h.offline r card' hr
  have hreaches : d.access.Reaches [] := nofun
  refine ⟨r, card', hr, ?_⟩
  dsimp only
  rw [if_pos hreaches]
  exact ⟨h.ends.of_run hr, rfl⟩

theorem wipes_clear {s : Selector} (hs : d.access.variant.supports s = true) (q : UInt16) :
    d.Wipes (d.clear s q) [(s, q)] := by
  intro card hp
  unfold clear
  rw [lift_run]
  refine (Access.clear_effect hs card q).bind fun r card' ho => Script.returns_pure.2 ?_
  have hreaches : d.access.Reaches [(s, q)] ↔ d.access.Addresses s q := List.forall_mem_singleton
  rcases ho.of_prompt hp with ⟨hq, rfl, hcells⟩ | ⟨hq, rfl, -⟩
  · rw [if_pos (hreaches.2 hq), wipe_singleton]
    exact ⟨rfl, hcells⟩
  · rw [if_neg (mt hreaches.1 hq)]
    rfl

theorem wipes_forM {α : Type} {g : α → Action QueueError Unit} {f : α → Targets} {items : List α}
    (h : ∀ x ∈ items, d.Wipes (g x) (f x)) : d.Wipes (items.forM g) (items.flatMap f) := by
  induction items with
  | nil => exact wipes_nil ⟨trivial, trivial, rfl⟩
  | cons x rest ih =>
    exact (h x List.mem_cons_self).bind (ih fun y hy => h y (List.mem_cons_of_mem _ hy))

/-! ## What attaching zeroes -/

/-- The contexts of the queues, then the function maps. -/
def initTargets (d : Device) : Targets :=
  ((List.range d.attributes.queueCount).flatMap fun qid =>
    (queueContexts d.attributes.streaming).flatMap fun s => [(s, UInt16.ofNat qid)]) ++
  (List.range d.attributes.functionCount).flatMap fun id => [(.functionMap, UInt16.ofNat id)]

/-- All contexts that queues own, but the prefetch and completion contexts only where there are
streams. -/
theorem mem_queueContexts {streaming : Bool} {s : Selector} :
    s ∈ queueContexts streaming ↔
      queueContext s = true ∧ (s = .prefetch ∨ s = .completion → streaming = true) := by
  cases streaming <;> cases s <;> decide

theorem initContextMemory_wipes (d : Device) : d.Wipes d.initContextMemory d.initTargets := by
  have hsupports : ∀ s ∈ queueContexts d.attributes.streaming,
      d.access.variant.supports s = true :=
    fun s hs => supports_queueContext d.access (mem_queueContexts.1 hs).1
  have hqueues : d.Wipes ((List.range d.attributes.queueCount).forM fun qid =>
      (queueContexts d.attributes.streaming).forM fun s => d.clear s (UInt16.ofNat qid)) _ :=
    wipes_forM fun qid _ => wipes_forM fun s hs => wipes_clear (hsupports s hs) (UInt16.ofNat qid)
  have hmaps : d.Wipes ((List.range d.attributes.functionCount).forM fun id =>
      d.clear .functionMap (UInt16.ofNat id)) _ :=
    wipes_forM fun id _ => wipes_clear rfl (UInt16.ofNat id)
  have hnotice : d.Wipes (liftM (Script.notice (.memoryCleared d.attributes.queueCount))) [] :=
    wipes_nil ⟨trivial, trivial, rfl⟩
  have hall := hqueues.bind (hmaps.bind hnotice)
  rw [List.append_nil] at hall
  exact hall

/-! ## Attaching a physical function -/

open Identification

variable {card : Card} {v : Variant}

/-- The context belongs to one of the queues that the registers tell of. Without streaming engines
the prefetch and completion contexts do not. -/
def OfQueue (regs : Registers) (s : Selector) (q : UInt16) : Prop :=
  q.toNat < queueCount regs ∧ queueContext s = true ∧
    (s = .prefetch ∨ s = .completion → streamsEnabled regs = true)

/-- The function map of a physical function, if these are numbered from zero. -/
def OfFunction (regs : Registers) (s : Selector) (q : UInt16) : Prop :=
  s = .functionMap ∧ q.toNat < countFunctions (regs Register.barMap)

instance (regs : Registers) (s : Selector) (q : UInt16) : Decidable (OfQueue regs s q) :=
  inferInstanceAs (Decidable (_ ∧ _))

instance (regs : Registers) (s : Selector) (q : UInt16) : Decidable (OfFunction regs s q) :=
  inferInstanceAs (Decidable (_ ∧ _))

theorem mem_initTargets {regs : Registers} (h : Describes d.attributes regs) {s : Selector}
    {q : UInt16} : (s, q) ∈ d.initTargets ↔ OfQueue regs s q ∨ OfFunction regs s q := by
  have hofNat : ∀ {n : Nat}, n ≤ 65536 → ((∃ i < n, q = UInt16.ofNat i) ↔ q.toNat < n) := by
    intro n hn
    constructor
    · rintro ⟨i, hi, rfl⟩
      rwa [UInt16.toNat_ofNat_of_lt' (show i < 65536 by omega)]
    · exact fun h => ⟨q.toNat, h, UInt16.ofNat_toNat.symm⟩
  have hqueues := queueCount_lt regs
  have hfunctions := countFunctions_le (regs Register.barMap)
  unfold OfQueue OfFunction
  rw [← hofNat (by omega : queueCount regs ≤ 65536),
    ← hofNat (by omega : countFunctions (regs Register.barMap) ≤ 65536), ← h.queues, ← h.functions,
    ← h.streaming]
  simp only [initTargets, List.mem_append, List.mem_flatMap, List.mem_range, List.mem_singleton,
    Prod.mk.injEq, mem_queueContexts]
  refine or_congr ⟨?_, ?_⟩ ⟨?_, ?_⟩
  · rintro ⟨i, hi, _, hs, rfl, hq⟩
    exact ⟨⟨i, hi, hq⟩, hs⟩
  · rintro ⟨⟨i, hi, hq⟩, hs⟩
    exact ⟨i, hi, s, hs, rfl, hq⟩
  · rintro ⟨i, hi, hs, hq⟩
    exact ⟨hs, i, hi, hq⟩
  · rintro ⟨hs, i, hi, hq⟩
    exact ⟨i, hi, hs, hq⟩

/-- Only the queues can be too many. -/
theorem reaches_initTargets {regs : Registers} (h : Describes d.attributes regs) :
    d.access.Reaches d.initTargets ↔
      queueCount regs ≤ 2 ^ d.access.variant.window.qidMask.width := by
  have haddresses : ∀ {s} (_ : queueContext s = true) (q : UInt16), d.access.Addresses s q ↔
      q.toNat < 2 ^ d.access.variant.window.qidMask.width := fun hs q =>
    (addresses_queueContext d.access hs q).trans
      (Engine.addresses_iff (e := d.access.engine) d.access.variant.window_valid)
  constructor
  · intro hreaches
    by_contra hlarge
    -- The first queue id that is too wide for a command belongs to one of the queues.
    have hlt := queueCount_lt regs
    have hfirst : (UInt16.ofNat (2 ^ d.access.variant.window.qidMask.width)).toNat =
        2 ^ d.access.variant.window.qidMask.width :=
      UInt16.toNat_ofNat_of_lt' (show _ < 65536 by omega)
    have hthere := hreaches (.softwareH2c, _) ((mem_initTargets h).2 (.inl
      ⟨show (UInt16.ofNat _).toNat < _ by rw [hfirst]; omega, rfl, nofun⟩))
    rw [haddresses rfl, hfirst] at hthere
    exact Nat.lt_irrefl _ hthere
  · rintro hfits ⟨s, q⟩ ht
    rcases (mem_initTargets h).1 ht with ⟨hq, hs, -⟩ | ⟨hs, hq⟩
    · exact (haddresses hs q).2 (hq.trans_le hfits)
    · obtain rfl : s = .functionMap := hs
      have hlt := hq.trans_le (countFunctions_le _)
      exact addresses_functionMap.2 (hlt.trans_le d.access.variant.four_le_functionLimit)

/-- Before it zeroes anything, attaching only looks at registers. -/
theorem attach_run (h : Physical card.registers v) (poll : Poll) :
    ∃ d : Device, d.access.variant = v ∧ d.access.poll = poll ∧
      Describes d.attributes card.registers ∧
      (attach { poll, clearOnAttach := true }).run.run (Card.backend v.window) card =
        (d.initContextMemory >>= fun _ => pure d).run.run (Card.backend v.window) card := by
  obtain ⟨hidentifier, hcapabilities, hbarMap, hcapacity, hengines⟩ :
      Register.identifier ≠ v.window.command ∧ Register.capabilities ≠ v.window.command ∧
        Register.barMap ≠ v.window.command ∧ Register.capacity ≠ v.window.command ∧
        Register.engines ≠ v.window.command := by
    cases v <;> decide
  obtain ⟨attributes, regs', hread, hdescribes⟩ := readAttributes_returns v card.registers
  have hprobe := Card.run_peeks (probe_peeks hidentifier hcapabilities poll) card
  have hattributes :=
    Card.run_peeks (readAttributes_peeks hbarMap hcapacity hcapabilities hengines v) card
  rw [h.probe_run] at hprobe
  rw [hread] at hattributes
  let access : Access :=
    ⟨v, poll, some (Version.decode false (card.registers Register.capabilities))⟩
  refine ⟨⟨access, attributes, { poll, clearOnAttach := true }⟩, rfl, rfl, hdescribes, ?_⟩
  unfold attach
  rw [Script.run_action_bind, lift_run, bind_assoc, Script.run_bind, hprobe]
  show ((liftM (readAttributes v) : Action QueueError Attributes) >>= fun _ => _).run.run _ card = _
  rw [Script.run_lift_bind, Script.run_bind, hattributes]
  rfl

/-- A prompt physical function is attached if its queues all have their place in a command, and else
refused. If it is attached, these cells are zero afterwards and all others are as they were. -/
theorem attach_cells {poll : Poll} (h : Physical card.registers v)
    (hp : card.Prompt poll.attempts) :
    ∃ r card', (attach { poll, clearOnAttach := true }).run.run (Card.backend v.window) card =
        (.ok r, card') ∧
      if queueCount card.registers ≤ 2 ^ v.window.qidMask.width then
        ∃ d, r = .ok d ∧ d.access.variant = v ∧ d.access.poll = poll ∧ ∀ s q,
          d.access.cells card' s q =
            if OfQueue card.registers s q ∨ OfFunction card.registers s q then
              List.replicate (d.access.width s) 0
            else d.access.cells card s q
      else r = .error (.access .invalidParameter) := by
  obtain ⟨d, rfl, rfl, hdescribes, hattach⟩ := attach_run h poll
  obtain ⟨r, card', hr, hwipes⟩ := initContextMemory_wipes d card hp
  rw [hattach, Script.run_action_bind, Script.run_bind, hr]
  simp only [reaches_initTargets hdescribes] at hwipes
  by_cases hfits : queueCount card.registers ≤ 2 ^ d.access.variant.window.qidMask.width
  · rw [if_pos hfits] at hwipes
    obtain ⟨rfl, hcells⟩ := hwipes
    refine ⟨.ok d, card', rfl, ?_⟩
    rw [if_pos hfits]
    refine ⟨d, rfl, rfl, rfl, fun s q => ?_⟩
    rw [hcells]
    unfold wipe
    simp only [mem_initTargets hdescribes]
  · rw [if_neg hfits] at hwipes
    subst hwipes
    exact ⟨_, card', rfl, by rw [if_neg hfits]⟩

/-- Whatever its registers and its contexts hold, a prompt physical function is attached if its
queues all have their place in a command, and else refused. All contexts of these queues are zero
then, and all other contexts but the function maps are as they were. -/
theorem attach_outcome {poll : Poll} (h : Physical card.registers v)
    (hp : card.Prompt poll.attempts) :
    if queueCount card.registers ≤ 2 ^ v.window.qidMask.width then
      ∃ d card', (attach { poll, clearOnAttach := true }).run.run (Card.backend v.window) card =
          (.ok (.ok d), card') ∧ d.variant = v ∧
        (∀ s q, OfQueue card.registers s q → d.access.Cleared card' s q) ∧
        ∀ s q, s ≠ .functionMap → ¬ OfQueue card.registers s q →
          d.access.cells card' s q = d.access.cells card s q
    else
      ∃ card', (attach { poll, clearOnAttach := true }).run.run (Card.backend v.window) card =
        (.ok (.error (.access .invalidParameter)), card') := by
  obtain ⟨r, card', hr, hattach⟩ := attach_cells h hp
  split
  next hfits =>
    rw [if_pos hfits] at hattach
    obtain ⟨d, rfl, hvariant, -, hcells⟩ := hattach
    refine ⟨d, card', hr, hvariant, fun s q hof => ?_, fun s q hs hof => ?_⟩
    · exact (hcells s q).trans (if_pos (.inl hof))
    · exact (hcells s q).trans (if_neg (not_or.2 ⟨hof, fun hmap => hs hmap.1⟩))
  next hlarge =>
    rw [if_neg hlarge] at hattach
    exact ⟨card', hattach ▸ hr⟩

/-- A soft part with two functions, two queues and no streaming engines, and a word in every
context. -/
def twoQueueCard : Card :=
  { wordCard with registers := fun o =>
      if o = Register.identifier then 0x1fd30000 else if o = Register.barMap then 0x41
      else if o = Register.capacity then 2 else 0 }

theorem two_queues_are_cleared :
    ∃ d card', (attach { poll := ⟨1, 1⟩, clearOnAttach := true }).run.run (Card.backend .soft)
        twoQueueCard = (.ok (.ok d), card') ∧
      d.access.Cleared card' .creditC2h 1 ∧
      d.access.cells card' .creditC2h 2 = d.access.cells twoQueueCard .creditC2h 2 ∧
      d.access.cells card' .prefetch 1 = d.access.cells twoQueueCard .prefetch 1 := by
  have hid : Physical twoQueueCard.registers .legacySoft := ⟨by decide, rfl⟩
  have hp : twoQueueCard.Prompt (Poll.attempts ⟨1, 1⟩) := fun _ _ => ⟨0, Nat.zero_le _, rfl⟩
  have houtcome := attach_outcome hid hp
  rw [if_pos (by decide)] at houtcome
  obtain ⟨d, card', hr, -, hcleared, hkept⟩ := houtcome
  exact ⟨d, card', hr, hcleared .creditC2h 1 (by decide),
    hkept .creditC2h 2 (by decide) (by decide), hkept .prefetch 1 (by decide) (by decide)⟩

end Device

end DmaQueues
