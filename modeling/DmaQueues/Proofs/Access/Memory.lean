import DmaQueues.Access
import DmaQueues.Proofs.Engine
import DmaQueues.Proofs.Packing.Tables

/-!
# Accesses on the reference card

The cells of a device are its contexts, by selector and queue id; with a direct function map
the cells of that selector are registers instead. Each access is specified by its `Effect`:
what it answers and which cells it leaves behind. An access of one cell never touches
another.
-/

namespace DmaQueues

theorem Variant.window_valid (v : Variant) : v.window.Valid := by
  cases v <;> exact ⟨by decide, by decide, by decide, by decide +kernel, by decide +kernel⟩

theorem RecordKind.layout_words_le (k : RecordKind) (v : Variant) :
    (k.layout v.family).words ≤ v.window.words := by
  cases v <;> cases k <;> decide

theorem Register.toNat_functionMap (functionId : UInt16) :
    (functionMap functionId).toNat = 0x400 + 4 * functionId.toNat := by
  have hlt := functionId.toNat_lt
  have hfour : (4 : UInt32).toNat = 4 := rfl
  have hbase : (0x400 : UInt32).toNat = 0x400 := rfl
  rw [functionMap, UInt32.toNat_add, UInt32.toNat_mul, UInt16.toNat_toUInt32, hfour, hbase]
  omega

/-- The words of every context. -/
abbrev Cells := Selector → UInt16 → List UInt32

/-- `cells` with one of them replaced. -/
def Cells.store (cells : Cells) (selector : Selector) (qid : UInt16) (words : List UInt32) :
    Cells :=
  fun s q => if s = selector ∧ q = qid then words else cells s q

theorem Cells.store_apply (cells : Cells) (selector s : Selector) (qid q : UInt16)
    (words : List UInt32) : cells.store selector qid words s q =
      if q = qid then if s = selector then words else cells s q else cells s q := by
  unfold Cells.store
  by_cases hq : q = qid
  · simp only [hq, and_true, if_true]
  · simp only [hq, and_false, if_false]

theorem Cells.store_self (cells : Cells) (selector : Selector) (qid : UInt16)
    (words : List UInt32) : cells.store selector qid words selector qid = words :=
  if_pos ⟨rfl, rfl⟩

theorem Cells.store_other {cells : Cells} {selector s : Selector} {qid q : UInt16}
    {words : List UInt32} (h : ¬ (s = selector ∧ q = qid)) :
    cells.store selector qid words s q = cells s q :=
  if_neg h

namespace Access

open Card

variable {α β : Type} {a : Access} {s : Selector} {q : UInt16} {card : Card}

/-- Words of a cell. -/
def width (a : Access) (s : Selector) : Nat :=
  if a.isDirect s then 1 else a.variant.window.words

theorem resize_one (words : List UInt32) : resize 1 words = [words.headD 0] := by
  cases words <;> simp [resize]

/-- The cells in a memory. A direct function map has none beyond its registers. -/
def cellsOf (a : Access) (m : Memory) : Cells := fun s q =>
  if a.isDirect s then
    if q.toNat < Register.functionMapCount then [m.registers (Register.functionMap q)] else [0]
  else m.contexts s q

def cells (a : Access) (card : Card) : Cells :=
  a.cellsOf (card.memory a.variant.window)

/-- The cell is there. -/
def Addresses (a : Access) (s : Selector) (q : UInt16) : Prop :=
  if a.isDirect s then q.toNat < Register.functionMapCount else a.engine.Addresses q

instance (a : Access) (s : Selector) (q : UInt16) : Decidable (a.Addresses s q) :=
  inferInstanceAs (Decidable (ite _ _ _))

/-- `op`, an access of one cell, leaves `stored` behind and answers `answer` once it is done. -/
def Effect (a : Access) (op : Action AccessError α) (card : Card) (s : Selector) (q : UInt16)
    (stored : Cells) (answer : α) : Prop :=
  op.run.Returns (backend a.variant.window) card fun r card' =>
    Outcome (a.Addresses s q) (card.Prompt a.poll.attempts) (card.Settles a.poll.attempts)
      (a.cells card) stored answer r (a.cells card')

theorem eq_of_isDirect (h : a.isDirect s = true) : s = .functionMap := by
  have hboth : s = .functionMap ∧ a.variant.directFunctionMap = true := by
    simpa [isDirect] using h
  exact hboth.1

theorem cellsOf_indirect (hd : a.isDirect s = false) (m : Memory) (q : UInt16) :
    a.cellsOf m s q = m.contexts s q := by
  unfold cellsOf
  rw [hd]
  rfl

theorem cellsOf_direct (hd : a.isDirect s = true) (m : Memory) (q : UInt16) :
    a.cellsOf m s q = if q.toNat < Register.functionMapCount then
      [m.registers (Register.functionMap q)] else [0] :=
  if_pos hd

theorem length_cells (a : Access) (card : Card) (s : Selector) (q : UInt16) :
    (a.cells card s q).length = a.width s := by
  unfold cells width
  cases hd : a.isDirect s with
  | false =>
    rw [cellsOf_indirect hd]
    exact length_context _ _ _ _
  | true =>
    rw [cellsOf_direct hd]
    split <;> rfl

/-! ## Contexts behind the window -/

theorem cellsOf_store (hd : a.isDirect s = false) (m : Memory) (q : UInt16)
    (words : List UInt32) : a.cellsOf (m.store s q words) = (a.cellsOf m).store s q words := by
  funext s' q'
  cases hd' : a.isDirect s' with
  | false =>
    rw [cellsOf_indirect hd', Cells.store, cellsOf_indirect hd']
    rfl
  | true =>
    have hne : ¬ (s' = s ∧ q' = q) := fun h => by
      rw [h.1, hd] at hd'
      cases hd'
    rw [cellsOf_direct hd', Cells.store_other hne, cellsOf_direct hd']
    rfl

theorem addresses_indirect (hd : a.isDirect s = false) :
    a.Addresses s q ↔ a.engine.Addresses q := by
  unfold Addresses
  rw [hd]
  exact Iff.rfl

theorem Effect.of_engine {op : Action AccessError α} {stored : Memory} {answer : α}
    (hd : a.isDirect s = false)
    (h : op.run.Returns (backend a.variant.window) card fun r card' =>
      Outcome (a.engine.Addresses q) (card.Prompt a.poll.attempts) (card.Settles a.poll.attempts)
        (card.memory a.variant.window) stored answer r (card'.memory a.variant.window)) :
    a.Effect op card s q (a.cellsOf stored) answer := by
  refine h.mono fun r card' ho => ?_
  rw [addresses_indirect hd]
  exact ho.view a.cellsOf

theorem engine_write_effect (hd : a.isDirect s = false) {data : List UInt32}
    (hlength : data.length ≤ a.variant.window.words) (card : Card) (q : UInt16) :
    a.Effect (a.engine.write s q data) card s q
      ((a.cells card).store s q (resize (a.width s) data)) () := by
  have hwidth : a.width s = a.variant.window.words := by
    unfold width
    rw [hd]
    rfl
  have heffect := Effect.of_engine hd
    (Engine.write_returns (e := a.engine) a.variant.window_valid s q hlength card)
  rw [cellsOf_store hd] at heffect
  rw [hwidth]
  exact heffect

theorem engine_read_effect (hd : a.isDirect s = false) {length : Nat}
    (hlength : length ≤ a.variant.window.words) (card : Card) (q : UInt16) :
    a.Effect (a.engine.read s q length) card s q (a.cells card)
      ((a.cells card s q).take length) := by
  have hcell : a.cells card s q = card.context a.variant.window s q := cellsOf_indirect hd _ q
  rw [hcell]
  exact Effect.of_engine hd
    (Engine.read_returns (e := a.engine) a.variant.window_valid s q hlength card)

/-! ## Function map registers -/

theorem cellsOf_set (hd : a.isDirect s = true) (hq : q.toNat < Register.functionMapCount)
    (m : Memory) (value : UInt32) :
    a.cellsOf { m with registers := m.registers.set (Register.functionMap q) value } =
      (a.cellsOf m).store s q [value] := by
  obtain rfl := eq_of_isDirect hd
  funext s' q'
  cases hd' : a.isDirect s' with
  | false =>
    have hne : ¬ (s' = .functionMap ∧ q' = q) := fun h => by
      rw [h.1, hd] at hd'
      cases hd'
    rw [cellsOf_indirect hd', Cells.store_other hne, cellsOf_indirect hd']
  | true =>
    obtain rfl := eq_of_isDirect hd'
    rw [cellsOf_direct hd]
    by_cases hkey : q' = q
    · rw [hkey, Cells.store_self, if_pos hq]
      exact congrArg (· :: []) (if_pos rfl)
    · have hne : Register.functionMap q' ≠ Register.functionMap q := by
        intro heq
        have hnat := congrArg UInt32.toNat heq
        rw [Register.toNat_functionMap, Register.toNat_functionMap] at hnat
        exact hkey (UInt16.toNat_inj.1 (by omega))
      rw [Cells.store_other fun h => hkey h.2, cellsOf_direct hd]
      simp only [Registers.set, if_neg hne]

theorem functionMap_low (hq : q.toNat < Register.functionMapCount) (v : Variant) :
    (Register.functionMap q).toNat < v.window.data.toNat := by
  have hmaps := v.window_valid.maps
  rw [Register.toNat_functionMap]
  omega

/-- A check of the function id, and then an access that cannot fail. -/
theorem checked_effect {op : Script α} {card' : Card} {stored : Cells} {answer : α}
    (hd : a.isDirect s = true)
    (hop : q.toNat < Register.functionMapCount →
      op.run (backend a.variant.window) card = (.ok answer, card') ∧ a.cells card' = stored) :
    a.Effect (checkFunction q >>= fun _ => liftM op) card s q stored answer := by
  have haddresses : a.Addresses s q ↔ q.toNat < Register.functionMapCount := by
    unfold Addresses
    rw [hd]
    exact Iff.rfl
  unfold Effect checkFunction
  by_cases hq : q.toNat < Register.functionMapCount
  · obtain ⟨hr, hs⟩ := hop hq
    rw [if_neg (by omega)]
    refine ⟨.ok answer, card', ?_, ?_⟩
    · show (liftM op : Action AccessError α).run.run _ card = _
      rw [Script.run_lift, Script.run_bind, hr]
      rfl
    · cases hs
      exact .done (haddresses.2 hq)
  · rw [if_pos (by omega)]
    exact ⟨.error .invalidParameter, card, rfl, .refused fun h => hq (haddresses.1 h)⟩

theorem direct_put_effect (hd : a.isDirect s = true) (card : Card) (q : UInt16) (value : UInt32) :
    a.Effect (checkFunction q >>= fun _ => liftM (Script.put (Register.functionMap q) value)) card
      s q ((a.cells card).store s q [value]) () := by
  have hcommand := a.variant.window_valid
  refine checked_effect hd fun hq => ⟨run_put fun heq => ?_, ?_⟩
  · have hlow := functionMap_low hq a.variant
    rw [heq] at hlow
    have hdata := hcommand.data
    have hmask := hcommand.mask
    omega
  · unfold cells
    rw [memory_set (functionMap_low hq a.variant)]
    exact cellsOf_set hd hq _ value

theorem direct_get_effect (hd : a.isDirect s = true) (card : Card) (q : UInt16) :
    a.Effect (checkFunction q >>= fun _ => liftM (Script.get (Register.functionMap q))) card
      s q (a.cells card) ((a.cells card s q).headD 0) := by
  have hcommand := a.variant.window_valid
  refine checked_effect hd fun hq => ⟨?_, rfl⟩
  have hlow := functionMap_low hq a.variant
  have hcell : (a.cells card s q).headD 0 = card.registers (Register.functionMap q) := by
    unfold cells cellsOf memory
    rw [if_pos hd, if_pos hq]
    exact if_pos hlow
  rw [hcell]
  refine run_get fun heq => ?_
  rw [heq] at hlow
  have hdata := hcommand.data
  have hmask := hcommand.mask
  omega

/-! ## Packed records -/

variable {R F : Type} [DecidableEq F] [Fields R F] {l : Layout F} {r : R}

theorem Effect.map {op : Action AccessError α} {stored : Cells} {answer : α}
    (h : a.Effect op card s q stored answer) (f : α → β) :
    a.Effect (f <$> op) card s q stored (f answer) := by
  obtain ⟨result, card', hr, ho⟩ := h
  refine ⟨f <$> result, card', ?_, ho.map f⟩
  rw [← bind_pure_comp, Script.run_action_bind, Script.run_bind, hr]
  cases result <;> rfl

/-- What a record is stored as. -/
def image (a : Access) (l : Layout F) (s : Selector) (r : R) : List UInt32 :=
  resize (a.width s) (l.pack r)

theorem writePacked_effect (hl : l.Valid) (hw : l.words ≤ a.variant.window.words)
    (hd : a.isDirect s = false) (hr : l.Holds r) (card : Card) (q : UInt16) :
    a.Effect (a.writePacked l s q r) card s q ((a.cells card).store s q (a.image l s r)) () := by
  have hlength : (l.pack r).length ≤ a.variant.window.words := by
    rw [Layout.length_pack]
    omega
  unfold writePacked
  rw [Layout.encode_eq hl.segment_fits hr]
  exact engine_write_effect hd hlength card q

theorem readPacked_effect (hw : l.words ≤ a.variant.window.words)
    (hd : a.isDirect s = false) (card : Card) (q : UInt16) :
    a.Effect (a.readPacked l s q) card s q (a.cells card)
      (l.decode ((a.cells card s q).take l.words) : R) := by
  unfold readPacked
  rw [bind_pure_comp]
  exact (engine_read_effect hd hw card q).map _

/-- A completion record whose trigger mode the hardware has is written like any other. -/
theorem writeCompletion_eq {r : CompletionContext}
    (hmode : r.triggerMode.toNat ≤ TriggerMode.maxCode) (q : UInt16) :
    a.writeCompletion q r = a.writePacked (CompletionContext.layout a.family) .completion q r := by
  have hvalid : r.validate = pure () := by
    unfold CompletionContext.validate
    rw [if_neg (by omega)]
  unfold writeCompletion CompletionContext.encodeValid
  rw [hvalid]
  rfl

theorem writeCompletion_effect {r : CompletionContext}
    (hr : (CompletionContext.layout a.family).Holds r)
    (hmode : r.triggerMode.toNat ≤ TriggerMode.maxCode) (card : Card) (q : UInt16) :
    a.Effect (a.writeCompletion q r) card .completion q
      ((a.cells card).store .completion q
        (a.image (CompletionContext.layout a.family) .completion r)) () := by
  rw [writeCompletion_eq hmode]
  exact writePacked_effect (RecordKind.layout_valid a.family .completion)
    (RecordKind.layout_words_le .completion a.variant) rfl hr card q

theorem writeFunctionMap_effect {r : FunctionMap} (hr : (FunctionMap.layout a.family).Holds r)
    (card : Card) (q : UInt16) :
    a.Effect (a.writeFunctionMap q r) card .functionMap q
      ((a.cells card).store .functionMap q
        (a.image (FunctionMap.layout a.family) .functionMap r)) () := by
  have hl : (FunctionMap.layout a.family).Valid := RecordKind.layout_valid a.family .functionMap
  have hw : (FunctionMap.layout a.family).words ≤ a.variant.window.words :=
    RecordKind.layout_words_le .functionMap a.variant
  have hwrite := writePacked_effect hl hw (s := .functionMap) (r := r)
  unfold writePacked at hwrite
  unfold writeFunctionMap
  rw [Layout.encode_eq hl.segment_fits hr] at hwrite ⊢
  cases hd : a.variant.directFunctionMap with
  | false => exact hwrite hd hr card q
  | true =>
    have hput := direct_put_effect (s := .functionMap) hd card q
      (((FunctionMap.layout a.family).pack r).headD 0)
    rw [← resize_one, show (1 : Nat) = a.width .functionMap from (if_pos hd).symm] at hput
    exact hput

theorem readFunctionMap_effect (card : Card) (q : UInt16) :
    a.Effect (a.readFunctionMap q) card .functionMap q (a.cells card)
      ((FunctionMap.layout a.family).decode
        ((a.cells card .functionMap q).take (FunctionMap.layout a.family).words)) := by
  have hw : (FunctionMap.layout a.family).words ≤ a.variant.window.words :=
    RecordKind.layout_words_le .functionMap a.variant
  unfold readFunctionMap
  cases hd : a.variant.directFunctionMap with
  | false => exact readPacked_effect (s := .functionMap) hw hd card q
  | true =>
    have hcell : (a.cells card .functionMap q).take (FunctionMap.layout a.family).words =
        [(a.cells card .functionMap q).headD 0] := by
      have hlength := length_cells a card .functionMap q
      rw [show a.width .functionMap = 1 from if_pos hd] at hlength
      have hone : 1 ≤ (FunctionMap.layout a.family).words := by
        cases a.family <;> decide
      rw [List.take_of_length_le (by omega), ← resize_one, resize_eq hlength]
    rw [hcell]
    have hget := (direct_get_effect (s := .functionMap) hd card q).map fun x =>
      ((FunctionMap.layout a.family).decode [x] : FunctionMap)
    rw [← bind_pure_comp, bind_assoc] at hget
    exact hget

/-! ## Any cell -/

theorem checkSelector_eq (hs : a.variant.supports s = true) : a.checkSelector s = pure () := by
  unfold checkSelector
  rw [hs]
  rfl

theorem clear_effect (hs : a.variant.supports s = true) (card : Card) (q : UInt16) :
    a.Effect (a.clear s q) card s q
      ((a.cells card).store s q (List.replicate (a.width s) 0)) () := by
  unfold clear
  rw [checkSelector_eq hs]
  cases hd : a.isDirect s with
  | false =>
    have hclear := Effect.of_engine hd
      (Engine.clear_returns (e := a.engine) a.variant.window_valid s q card)
    rw [cellsOf_store hd] at hclear
    rw [show a.width s = a.variant.window.words by rw [width, hd]; rfl]
    exact hclear
  | true =>
    rw [show a.width s = 1 from if_pos hd]
    exact direct_put_effect hd card q 0

theorem invalidate_effect (hs : a.variant.supports s = true) (hd : a.isDirect s = false)
    (card : Card) (q : UInt16) : a.Effect (a.invalidate s q) card s q (a.cells card) () := by
  unfold invalidate
  rw [checkSelector_eq hs, hd]
  exact Effect.of_engine hd
    (Engine.invalidate_returns (e := a.engine) a.variant.window_valid s q card)

end Access

end DmaQueues
