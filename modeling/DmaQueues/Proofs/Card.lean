import DmaQueues.Card
import DmaQueues.Proofs.Command
import DmaQueues.Proofs.Run
import DmaQueues.Register

/-!
# Runs over the reference card

Blocks of registers are stored and fetched as a whole while they keep clear of the command
register. `Card.run_waitIdle` says how long a command is waited for, and `Card.accept_cases`
what can become of it.
-/

namespace DmaQueues

/-- The function map registers, the data words, the mask words and the command register stand in
this order, and the queue id above the other fields of a command. -/
structure Window.Valid (w : Window) : Prop where
  maps : 0x400 + 4 * Register.functionMapCount ≤ w.data.toNat
  data : w.data.toNat + 4 * w.words ≤ w.mask.toNat
  mask : w.mask.toNat + 4 * w.words ≤ w.command.toNat
  qid : w.qidMask.Contiguous
  low : 7 ≤ w.qidMask.shift

namespace Card

/-! ## Consecutive registers -/

theorem toNat_offset (offset : UInt32) {i : Nat} (h : offset.toNat + 4 * i < 2 ^ 32) :
    (offset + UInt32.ofNat (4 * i)).toNat = offset.toNat + 4 * i := by
  rw [UInt32.toNat_add, UInt32.toNat_ofNat', Nat.mod_eq_of_lt (by omega : 4 * i < 2 ^ 32),
    Nat.mod_eq_of_lt h]

/-- `registers` with `words` stored from the register `index` places after `offset` on. -/
def storeFrom (registers : Registers) (offset : UInt32) (index : Nat) (words : List UInt32) :
    Registers :=
  (words.zipIdx index).foldl
    (fun rs entry => rs.set (offset + UInt32.ofNat (4 * entry.2)) entry.1) registers

theorem setWords_eq (registers : Registers) (offset : UInt32) (words : List UInt32) :
    setWords registers offset words = storeFrom registers offset 0 words := rfl

theorem storeFrom_cons (registers : Registers) (offset : UInt32) (index : Nat) (word : UInt32)
    (words : List UInt32) :
    storeFrom registers offset index (word :: words) =
      storeFrom (registers.set (offset + UInt32.ofNat (4 * index)) word) offset (index + 1)
        words := rfl

/-- Registers outside of those that are stored to. -/
theorem storeFrom_other {registers : Registers} {offset o : UInt32} {words : List UInt32}
    {index : Nat} (hlt : offset.toNat + 4 * (index + words.length) ≤ 2 ^ 32)
    (ho : o.toNat < offset.toNat + 4 * index ∨
      offset.toNat + 4 * (index + words.length) ≤ o.toNat) :
    storeFrom registers offset index words o = registers o := by
  induction words generalizing registers index with
  | nil => rfl
  | cons word rest ih =>
    simp only [List.length_cons] at hlt ho
    rw [storeFrom_cons, ih (by omega) (by omega)]
    refine if_neg fun heq => ?_
    have hat := toNat_offset offset (i := index) (by omega)
    rw [heq, hat] at ho
    omega

theorem storeFrom_at {registers : Registers} {offset : UInt32} {words : List UInt32}
    {index i : Nat} (hlt : offset.toNat + 4 * (index + words.length) ≤ 2 ^ 32)
    (hi : i < words.length) :
    storeFrom registers offset index words (offset + UInt32.ofNat (4 * (index + i))) =
      words[i] := by
  induction words generalizing registers index i with
  | nil => cases hi
  | cons word rest ih =>
    simp only [List.length_cons] at hlt hi
    rw [storeFrom_cons]
    cases i with
    | zero =>
      rw [storeFrom_other (by omega) (.inl (by rw [toNat_offset _ (by omega)]; omega))]
      exact if_pos rfl
    | succ k =>
      rw [show index + (k + 1) = index + 1 + k by omega]
      exact ih (by omega) (by omega)

theorem setWords_other {registers : Registers} {offset o : UInt32} {words : List UInt32}
    (hlt : offset.toNat + 4 * words.length ≤ 2 ^ 32)
    (ho : o.toNat < offset.toNat ∨ offset.toNat + 4 * words.length ≤ o.toNat) :
    setWords registers offset words o = registers o := by
  rw [setWords_eq]
  exact storeFrom_other (by omega) (by omega)

theorem setWords_at {registers : Registers} {offset : UInt32} {words : List UInt32} {i : Nat}
    (hlt : offset.toNat + 4 * words.length ≤ 2 ^ 32) (hi : i < words.length) :
    setWords registers offset words (offset + UInt32.ofNat (4 * i)) = words[i] := by
  have hat : storeFrom registers offset 0 words (offset + UInt32.ofNat (4 * (0 + i))) = words[i] :=
    storeFrom_at (by omega) hi
  rw [Nat.zero_add] at hat
  exact hat

/-! ## Blocks through the backend -/

variable {w : Window} {card : Card}

theorem offsetAt_eq {offset : UInt32} {index : Nat} (h : offset.toNat + 4 * index < 2 ^ 32) :
    Script.offsetAt offset index = .ok (offset + UInt32.ofNat (4 * index)) := by
  have hadd : Checked.add offset.toNat (4 * index) = .ok (offset.toNat + 4 * index) := if_pos h
  unfold Script.offsetAt
  rw [hadd]
  refine congrArg Except.ok (UInt32.toNat_inj.1 ?_)
  rw [toNat_offset offset h, UInt32.toNat_ofNat', Nat.mod_eq_of_lt h]

/-- A register that is not the command register. -/
theorem run_put {offset value : UInt32} (h : offset ≠ w.command) :
    (Script.put offset value).run (backend w) card =
      (.ok (), { card with registers := card.registers.set offset value }) := by
  simp only [Script.put, Script.run, backend, if_neg h]

theorem run_get {offset : UInt32} (h : offset ≠ w.command) :
    (Script.get offset).run (backend w) card = (.ok (card.registers offset), card) := by
  simp only [Script.get, Script.run, backend, if_neg h]

theorem run_putFrom {offset : UInt32} {words : List UInt32} {index : Nat}
    (h : offset.toNat + 4 * (index + words.length) ≤ w.command.toNat) :
    (Script.putFrom offset index words).run (backend w) card =
      (.ok (), { card with registers := storeFrom card.registers offset index words }) := by
  have hcommand := w.command.toNat_lt
  induction words generalizing card index with
  | nil => rfl
  | cons word rest ih =>
    simp only [List.length_cons] at h
    have hat := toNat_offset offset (i := index) (by omega)
    have hne : offset + UInt32.ofNat (4 * index) ≠ w.command := fun heq => by
      rw [heq] at hat
      omega
    show (Script.ofChecked (Script.offsetAt offset index) >>= fun o => Script.put o word >>=
      fun _ => Script.putFrom offset (index + 1) rest).run _ _ = _
    rw [offsetAt_eq (by omega)]
    show (Script.put _ word >>= fun _ => Script.putFrom offset (index + 1) rest).run _ _ = _
    rw [Script.run_bind, run_put hne]
    exact ih (by omega)

theorem total_putFrom {offset : UInt32} {words : List UInt32} {index : Nat}
    (h : offset.toNat + 4 * (index + words.length) ≤ 2 ^ 32) :
    (Script.putFrom offset index words).Total := by
  induction words generalizing index with
  | nil => trivial
  | cons word rest ih =>
    simp only [List.length_cons] at h
    show (Script.ofChecked (Script.offsetAt offset index) >>= fun o =>
      Script.put o word >>= fun _ => Script.putFrom offset (index + 1) rest).Total
    rw [offsetAt_eq (by omega)]
    exact ih (by omega)

theorem run_putBlock {offset : UInt32} {words : List UInt32}
    (h : offset.toNat + 4 * words.length ≤ w.command.toNat) :
    (Script.putBlock offset words).run (backend w) card =
      (.ok (), { card with registers := setWords card.registers offset words }) :=
  run_putFrom (by omega)

theorem run_getFrom {offset : UInt32} {length index : Nat}
    (h : offset.toNat + 4 * (index + length) ≤ w.command.toNat) :
    (Script.getFrom offset index length).run (backend w) card =
      (.ok ((List.range' index length).map (card.wordAt offset)), card) := by
  have hcommand := w.command.toNat_lt
  induction length generalizing index with
  | zero => rfl
  | succ n ih =>
    have hat := toNat_offset offset (i := index) (by omega)
    have hne : offset + UInt32.ofNat (4 * index) ≠ w.command := fun heq => by
      rw [heq] at hat
      omega
    show (Script.ofChecked (Script.offsetAt offset index) >>= fun o => Script.get o >>= fun value =>
      Script.getFrom offset (index + 1) n >>= fun values => pure (value :: values)).run _ _ = _
    rw [offsetAt_eq (by omega)]
    show (Script.get _ >>= fun value => Script.getFrom offset (index + 1) n >>= fun values =>
      pure (value :: values)).run _ _ = _
    rw [Script.run_bind, run_get hne]
    show (Script.getFrom offset (index + 1) n >>= fun values => pure _).run _ _ = _
    rw [Script.run_bind, ih (by omega)]
    rfl

theorem run_getBlock {offset : UInt32} {length : Nat}
    (h : offset.toNat + 4 * length ≤ w.command.toNat) :
    (Script.getBlock offset length).run (backend w) card =
      (.ok ((List.range length).map (card.wordAt offset)), card) := by
  rw [List.range_eq_range']
  exact run_getFrom (by omega)

/-! ## Waiting for a command -/

/-- The command is done after so many samples that were busy. -/
def doneWithin (card : Card) (samples : Nat) : Bool :=
  match card.remaining with
  | none => false
  | some left => decide (left ≤ samples)

/-- The card after so many samples. -/
def sampled (card : Card) (samples : Nat) : Card :=
  { card with remaining := card.remaining.map (· - samples) }

theorem sampled_sampled (card : Card) (m n : Nat) :
    (card.sampled m).sampled n = card.sampled (m + n) := by
  unfold sampled
  cases card.remaining with
  | none => rfl
  | some left => simp only [Option.map_some, Nat.sub_add_eq]

theorem run_sampleIdle (e : Engine) (card : Card) :
    e.sampleIdle.run (backend e.window) card = (.ok (card.doneWithin 0), card.sampled 1) := by
  have hread : (backend e.window).read card e.window.command = card.sample := if_pos rfl
  obtain ⟨registers, contexts, fate, accepted, remaining⟩ := card
  unfold Engine.sampleIdle
  rw [Script.run_bind]
  simp only [Script.get, Script.run, hread]
  have hbusy : ((1 : UInt32) &&& Command.busyMask == 0) = false := by decide +kernel
  have hidle : ((0 : UInt32) &&& Command.busyMask == 0) = true := by decide +kernel
  rcases remaining with _ | _ | left
  · simp only [sample, hbusy]
    rfl
  · simp only [sample, hidle]
    rfl
  · simp only [sample, hbusy]
    rfl

theorem run_waitIdle (e : Engine) (attempts : Nat) (card : Card) :
    (e.waitIdle attempts).run (backend e.window) card =
      (.ok (card.doneWithin attempts), card.sampled (attempts + 1)) := by
  induction attempts generalizing card with
  | zero => exact run_sampleIdle e card
  | succ n ih =>
    unfold Engine.waitIdle
    rw [Script.run_bind, run_sampleIdle]
    cases hdone : card.doneWithin 0 with
    | true =>
      obtain ⟨registers, contexts, fate, accepted, remaining⟩ := card
      obtain ⟨left, rfl⟩ : ∃ left, remaining = some left := by
        cases remaining with
        | none => cases hdone
        | some left => exact ⟨left, rfl⟩
      obtain rfl : left = 0 := by simpa [doneWithin] using hdone
      simp [doneWithin, sampled, Script.run, pure]
    | false =>
      show (e.waitIdle n).run _ (card.sampled 1) = _
      rw [ih, sampled_sampled, Nat.add_comm 1]
      obtain ⟨registers, contexts, fate, accepted, remaining⟩ := card
      cases remaining with
      | none => rfl
      | some left =>
        have hpos : ¬ left ≤ 0 := by simpa [doneWithin] using hdone
        have hiff : left - 1 ≤ n ↔ left ≤ n + 1 := by omega
        simp only [doneWithin, sampled, Option.map_some, hiff]

/-- Notices are no concern of the card. -/
theorem run_offline {α : Type} {p : Script α} (h : p.Offline) :
    (p.run (backend w) card).2 = card := by
  induction p with
  | pure a => rfl
  | halt f => rfl
  | note n next ih => exact ih () h
  | read offset next ih => exact h.elim
  | write offset value next ih => exact h.elim
  | delay us next ih => exact h.elim

/-- Where only other registers than the command register are read, the card shows their
contents. -/
theorem run_peeks {α : Type} {p : Script α} (h : p.Peeks (· ≠ w.command)) (card : Card) :
    p.run (backend w) card = ((p.run Backend.plain card.registers).1, card) := by
  induction p with
  | pure a => rfl
  | halt f => rfl
  | note n next ih => exact ih () h
  | read offset next ih =>
    have hread : (backend w).read card offset = (card.registers offset, card) := if_neg h.1
    simp only [Script.run, hread]
    exact ih _ (h.2 _)
  | write offset value next ih => exact h.elim
  | delay us next ih => exact h.elim

theorem leads_offline {α : Type} {p : Script α} (h : p.Offline) :
    p.Leads (backend w) card fun _ card' => card' = card :=
  fun _ _ hr => (congrArg Prod.snd hr).symm.trans (run_offline h)

theorem leaves_offline {α : Type} {p : Script α} (h : p.Offline) :
    p.Leaves (backend w) card fun _ card' => card' = card :=
  fun _ _ hr => (congrArg Prod.snd hr).symm.trans (run_offline h)

/-! ## What becomes of a command -/

/-- Every command is done before the samples run out. -/
def Prompt (samples : Nat) (card : Card) : Prop :=
  ∀ i c, ∃ left ≤ samples, card.fate i c = .done left

/-- Every command is done before the samples run out, or it is never executed. -/
def Settles (samples : Nat) (card : Card) : Prop :=
  ∀ i c, card.fate i c = .lost ∨ ∃ left ≤ samples, card.fate i c = .done left

theorem Prompt.settles {samples : Nat} (h : card.Prompt samples) : card.Settles samples :=
  fun i c => .inr (h i c)

/-- The fates of the commands are settled from the start. -/
theorem run_fate {α : Type} (p : Script α) (card : Card) :
    (p.run (backend w) card).2.fate = card.fate := by
  refine Script.run_keeps (I := fun card' : Card => card'.fate = card.fate) ?_ ?_ ?_ ?_ p rfl
  · intro card' offset h
    simp only [backend]
    split
    · unfold sample
      split <;> exact h
    · exact h
  · intro card' offset value h
    simp only [backend]
    split
    · split
      · next c _ =>
        refine Eq.trans ?_ h
        unfold accept execute
        cases card'.fate card'.accepted c <;> cases c.operation <;> rfl
      · exact h
    · exact h
  · exact fun _ _ h => h
  · exact fun _ _ h => h

theorem Prompt.run {α : Type} {samples : Nat} (h : card.Prompt samples) {p : Script α}
    {r : Checked α} {card' : Card} (hr : p.run (backend w) card = (r, card')) :
    card'.Prompt samples := by
  have hfate := run_fate (w := w) p card
  rw [hr] at hfate
  unfold Prompt
  rw [hfate]
  exact h

theorem Prompt.leads {α : Type} {samples : Nat} (h : card.Prompt samples) (p : Script α) :
    p.Leads (backend w) card fun _ card' => card'.Prompt samples :=
  fun _ _ hr => h.run hr

theorem Settles.run {α : Type} {samples : Nat} (h : card.Settles samples) {p : Script α}
    {r : Checked α} {card' : Card} (hr : p.run (backend w) card = (r, card')) :
    card'.Settles samples := by
  have hfate := run_fate (w := w) p card
  rw [hr] at hfate
  unfold Settles
  rw [hfate]
  exact h

theorem Settles.leads {α : Type} {samples : Nat} (h : card.Settles samples) (p : Script α) :
    p.Leads (backend w) card fun _ card' => card'.Settles samples :=
  fun _ _ hr => h.run hr

/-- What a card stores. -/
def contents (card : Card) : Registers × (Selector → UInt16 → Option (List UInt32)) :=
  (card.registers, card.contexts)

/-- A command is executed in time, or never, or too late. -/
theorem accept_cases (card : Card) (w : Window) (samples : Nat) (c : Command) :
    ((card.accept w c).doneWithin samples = true ∧
        (card.accept w c).contents = (card.execute w c).contents) ∨
      ((card.accept w c).doneWithin samples = false ∧ ¬ card.Prompt samples ∧
        (card.accept w c).contents = card.contents) ∨
      ((card.accept w c).doneWithin samples = false ∧ ¬ card.Settles samples ∧
        (card.accept w c).contents = (card.execute w c).contents) := by
  have hexecuted : ∀ remaining, ({ ({ card with accepted := card.accepted + 1 } : Card).execute w c
      with remaining := remaining } : Card).contents = (card.execute w c).contents := by
    intro remaining
    unfold execute
    cases c.operation <;> rfl
  unfold accept
  cases hf : card.fate card.accepted c with
  | done left =>
    by_cases hle : left ≤ samples
    · exact .inl ⟨decide_eq_true hle, hexecuted _⟩
    · refine .inr (.inr ⟨decide_eq_false hle, fun hs => ?_, hexecuted _⟩)
      rcases hs card.accepted c with hl | ⟨left', hle', hd⟩
      · cases hf.symm.trans hl
      · cases hf.symm.trans hd
        exact hle hle'
  | lost =>
    refine .inr (.inl ⟨rfl, fun hp => ?_, rfl⟩)
    obtain ⟨left, -, hd⟩ := hp card.accepted c
    cases hf.symm.trans hd
  | stalled =>
    refine .inr (.inr ⟨rfl, fun hs => ?_, hexecuted _⟩)
    rcases hs card.accepted c with hl | ⟨left, -, hd⟩
    · cases hf.symm.trans hl
    · cases hf.symm.trans hd

end Card

end DmaQueues
