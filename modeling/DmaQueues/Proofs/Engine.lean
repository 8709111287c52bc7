import DmaQueues.Proofs.Card

/-!
# The indirect engine on the reference card

What outlasts a command is the `Memory` of the card: its contexts, and the registers below
the window. An access of the engine is specified by its `Outcome`: it is done, or refused
because its queue id is too wide, or it times out, which leaves the memory as it was if the
command was lost and changed if it was only late.
-/

namespace DmaQueues

/-! ## Memory -/

/-- What a card holds, apart from the window. -/
structure Memory where
  contexts : Selector → UInt16 → List UInt32
  registers : Registers

/-- `memory` with the context of one queue replaced. -/
def Memory.store (memory : Memory) (selector : Selector) (qid : UInt16) (words : List UInt32) :
    Memory :=
  { memory with contexts := fun s q =>
      if s = selector ∧ q = qid then words else memory.contexts s q }

namespace Card

variable {w : Window} {card card' : Card}

/-- The contexts as the window shows them, and the registers below it. -/
def memory (card : Card) (w : Window) : Memory where
  contexts := card.context w
  registers o := if o.toNat < w.data.toNat then card.registers o else 0

theorem memory_congr (h : card'.contents = card.contents) : card'.memory w = card.memory w := by
  obtain ⟨hregisters, hcontexts⟩ := Prod.mk.inj h
  unfold memory context
  rw [hregisters, hcontexts]

@[simp] theorem length_resize (length : Nat) (words : List UInt32) :
    (resize length words).length = length := by
  unfold resize
  simp only [List.length_append, List.length_take, List.length_replicate]
  omega

theorem resize_eq {length : Nat} {words : List UInt32} (h : words.length = length) :
    resize length words = words := by
  unfold resize
  rw [← h, List.take_length, Nat.sub_self, List.replicate_zero, List.append_nil]

theorem resize_zero (n length : Nat) :
    resize n (List.replicate length 0) = List.replicate n 0 := by
  unfold resize
  rw [List.take_replicate, List.length_replicate, List.replicate_append_replicate]
  congr 1
  omega

theorem take_resize {length : Nat} {words : List UInt32} (h : words.length ≤ length) :
    (resize length words).take words.length = words := by
  unfold resize
  rw [List.take_of_length_le h, List.take_left]

@[simp] theorem length_context (card : Card) (w : Window) (selector : Selector) (qid : UInt16) :
    (card.context w selector qid).length = w.words :=
  length_resize _ _

theorem context_setContext {selector s : Selector} {qid q : UInt16} {words : List UInt32}
    (h : words.length = w.words) :
    (card.setContext selector qid words).context w s q =
      if s = selector ∧ q = qid then words else card.context w s q := by
  unfold context setContext
  by_cases hkey : s = selector ∧ q = qid
  · simp only [if_pos hkey, Option.getD_some, resize_eq h]
  · simp only [if_neg hkey]

theorem memory_setContext {selector : Selector} {qid : UInt16} {words : List UInt32}
    (h : words.length = w.words) :
    (card.setContext selector qid words).memory w = (card.memory w).store selector qid words := by
  have hcontexts : (card.setContext selector qid words).context w = fun s q =>
      if s = selector ∧ q = qid then words else card.context w s q :=
    funext fun s => funext fun q => context_setContext h
  unfold memory Memory.store
  rw [hcontexts]
  rfl

/-- Registers from the window on are no part of the memory. -/
theorem memory_setWords (card : Card) {offset : UInt32} {words : List UInt32}
    (hlow : w.data.toNat ≤ offset.toNat) (hlt : offset.toNat + 4 * words.length ≤ 2 ^ 32) :
    ({ card with registers := setWords card.registers offset words } : Card).memory w =
      card.memory w := by
  have hregisters : ∀ o : UInt32, (if o.toNat < w.data.toNat then
      setWords card.registers offset words o else 0) =
        if o.toNat < w.data.toNat then card.registers o else 0 := by
    intro o
    by_cases ho : o.toNat < w.data.toNat
    · rw [if_pos ho, if_pos ho, setWords_other hlt (.inl (by omega))]
    · rw [if_neg ho, if_neg ho]
  show Memory.mk _ _ = Memory.mk _ _
  simp only [hregisters]
  rfl

/-- A register of its own changes nothing else. -/
theorem memory_set {offset value : UInt32} (hlow : offset.toNat < w.data.toNat) :
    ({ card with registers := card.registers.set offset value } : Card).memory w =
      { card.memory w with registers := (card.memory w).registers.set offset value } := by
  have hregisters : ∀ o : UInt32, (if o.toNat < w.data.toNat then
      card.registers.set offset value o else 0) =
        if o = offset then value else if o.toNat < w.data.toNat then card.registers o else 0 := by
    intro o
    by_cases ho : o = offset
    · rw [if_pos ho, if_pos (ho ▸ hlow)]
      exact if_pos ho
    · rw [if_neg ho]
      show (if _ then (if o = offset then value else card.registers o) else 0) = _
      rw [if_neg ho]
  show Memory.mk _ _ = Memory.mk _ _
  simp only [hregisters]
  rfl

/-! ### A loaded window -/

/-- The window holds `words` under a full mask. -/
def loaded (card : Card) (w : Window) (words : List UInt32) : Card :=
  { card with
    registers := setWords (setWords card.registers w.data words) w.mask
      (List.replicate w.words 0xFFFFFFFF) }

variable {words : List UInt32}

theorem run_load (hv : w.Valid) (h : words.length = w.words) (card : Card) :
    (Script.putBlock w.data words >>= fun _ =>
      Script.putBlock w.mask (List.replicate w.words 0xFFFFFFFF)).run (backend w) card =
        (.ok (), card.loaded w words) := by
  have hdata := hv.data
  have hmask := hv.mask
  rw [Script.run_bind, run_putBlock (by omega)]
  exact run_putBlock (by rw [List.length_replicate]; omega)

theorem memory_loaded (hv : w.Valid) (h : words.length = w.words) (card : Card) :
    (card.loaded w words).memory w = card.memory w := by
  have hdata := hv.data
  have hmask := hv.mask
  have hcommand := w.command.toNat_lt
  have hmasks : (List.replicate w.words (0xFFFFFFFF : UInt32)).length = w.words :=
    List.length_replicate
  let data : Card := { card with registers := setWords card.registers w.data words }
  have houter : (card.loaded w words).memory w = data.memory w :=
    memory_setWords data (by omega) (by omega)
  exact houter.trans (memory_setWords card (by omega) (by omega))

/-- Under a full mask a write replaces the whole context. -/
theorem masked_loaded (hv : w.Valid) (h : words.length = w.words) {old : List UInt32}
    (hold : old.length = w.words) (card : Card) : (card.loaded w words).masked w old = words := by
  have hdata := hv.data
  have hmask := hv.mask
  have hcommand := w.command.toNat_lt
  have hmasks : (List.replicate w.words (0xFFFFFFFF : UInt32)).length = w.words :=
    List.length_replicate
  have hnone : ∀ x y : UInt32, (x &&& ~~~0xFFFFFFFF) ||| (y &&& 0xFFFFFFFF) = y := by
    intro x y
    rw [show (~~~0xFFFFFFFF : UInt32) = 0 by decide, UInt32.and_zero, UInt32.zero_or,
      show (0xFFFFFFFF : UInt32) = -1 by decide, UInt32.and_neg_one]
  refine List.ext_getElem (by simp [masked, hold, h]) fun i hi hi' => ?_
  have hat := toNat_offset w.data (i := i) (by omega)
  have hword : (card.loaded w words).wordAt w.data i = words[i] :=
    (setWords_other (by omega) (.inl (by omega))).trans (setWords_at (by omega) hi')
  have hfull : (card.loaded w words).wordAt w.mask i = 0xFFFFFFFF :=
    (setWords_at (by omega) (by omega)).trans (List.getElem_replicate (by omega))
  simp only [masked, List.getElem_mapIdx, hword, hfull, hnone]

end Card

/-! ## Outcomes -/

/-- How an access ends that answers `a` and changes the memory from `before` to `stored`: unless it
is allowed it is refused, and on a card that is not prompt or does not settle it can time out. -/
inductive Outcome {μ α : Type} (allowed prompt settles : Prop) (before stored : μ) (a : α) :
    Except AccessError α → μ → Prop
  | done (h : allowed) : Outcome allowed prompt settles before stored a (.ok a) stored
  | refused (h : ¬ allowed) :
    Outcome allowed prompt settles before stored a (.error .invalidParameter) before
  | lost (h : allowed) (hp : ¬ prompt) :
    Outcome allowed prompt settles before stored a (.error .busyTimeout) before
  | late (h : allowed) (hp : ¬ prompt) (hs : ¬ settles) :
    Outcome allowed prompt settles before stored a (.error .busyTimeout) stored

namespace Outcome

variable {μ ν α β : Type} {allowed prompt settles : Prop} {before stored after : μ} {a : α}
  {result : Except AccessError α}

/-- What is answered can be worked on. -/
theorem map (h : Outcome allowed prompt settles before stored a result after) (f : α → β) :
    Outcome allowed prompt settles before stored (f a) (f <$> result) after := by
  cases h with
  | done h => exact .done h
  | refused h => exact .refused h
  | lost h hp => exact .lost h hp
  | late h hp hs => exact .late h hp hs

theorem of_ok {b : α} (h : Outcome allowed prompt settles before stored a (.ok b) after) :
    allowed ∧ b = a ∧ after = stored := by
  cases h with
  | done h => exact ⟨h, rfl, rfl⟩

/-- On a prompt card an access is done or refused. -/
theorem of_prompt (h : Outcome allowed prompt settles before stored a result after)
    (hp : prompt) :
    (allowed ∧ result = .ok a ∧ after = stored) ∨
      (¬ allowed ∧ result = .error .invalidParameter ∧ after = before) := by
  cases h with
  | done h => exact .inl ⟨h, rfl, rfl⟩
  | refused h => exact .inr ⟨h, rfl, rfl⟩
  | lost _ hn => exact absurd hp hn
  | late _ hn => exact absurd hp hn

/-- What is stored is stored whole or not at all. -/
theorem before_or_stored (h : Outcome allowed prompt settles before stored a result after) :
    after = before ∨ after = stored := by
  cases h with
  | done h => exact .inr rfl
  | refused h => exact .inl rfl
  | lost h hp => exact .inl rfl
  | late h hp hs => exact .inr rfl

/-- On a card that settles an error leaves things as they were. -/
theorem of_settles {e : AccessError}
    (h : Outcome allowed prompt settles before stored a (.error e) after) (hs : settles) :
    after = before := by
  cases h with
  | refused h => rfl
  | lost h hp => rfl
  | late h hp hn => exact absurd hs hn

/-- An error says nothing of the answer. -/
theorem of_error {e : AccessError}
    (h : Outcome allowed prompt settles before stored a (.error e) after) (b : β) :
    Outcome allowed prompt settles before stored b (.error e) after := by
  cases h with
  | refused h => exact .refused h
  | lost h hp => exact .lost h hp
  | late h hp hs => exact .late h hp hs

/-- What is changed or kept can be looked at in another way. -/
theorem congr (h : Outcome allowed prompt settles before stored a result after)
    {before' stored' after' : ν} (hbefore : after = before → after' = before')
    (hstored : after = stored → after' = stored') :
    Outcome allowed prompt settles before' stored' a result after' := by
  cases h with
  | done h =>
    rw [hstored rfl]
    exact .done h
  | refused h =>
    rw [hbefore rfl]
    exact .refused h
  | lost h hp =>
    rw [hbefore rfl]
    exact .lost h hp
  | late h hp hs =>
    rw [hstored rfl]
    exact .late h hp hs

theorem view (h : Outcome allowed prompt settles before stored a result after) (f : μ → ν) :
    Outcome allowed prompt settles (f before) (f stored) a result (f after) :=
  h.congr (congrArg f) (congrArg f)

end Outcome

namespace Engine

open Card

variable {e : Engine} {c : Command} {card : Card}

/-- The queue id has its place in a command. -/
def Addresses (e : Engine) (qid : UInt16) : Prop :=
  Mask.fits e.window.qidMask qid.toUInt64 = true

instance (e : Engine) (qid : UInt16) : Decidable (e.Addresses qid) :=
  inferInstanceAs (Decidable (_ = _))

/-! ## Commands -/

theorem run_commandWord (hv : e.window.Valid) (hq : e.Addresses c.qid) :
    (e.commandWord c).run.run (backend e.window) card =
      (.ok (.ok (c.word e.window.qidMask)), card) := by
  unfold commandWord
  rw [Command.encode_eq hv.qid hq]
  rfl

theorem run_commandWord_error (hq : ¬ e.Addresses c.qid) :
    (e.commandWord c).run.run (backend e.window) card =
      (.ok (.error .invalidParameter), card) := by
  unfold commandWord
  rw [Command.encode_error (Bool.eq_false_iff.2 hq)]
  rfl

/-- A command that is handed over and waited for. -/
theorem run_issue (hv : e.window.Valid) (hq : e.Addresses c.qid) (card : Card) :
    (e.issue c (c.word e.window.qidMask)).run.run (backend e.window) card =
      (.ok (if (card.accept e.window c).doneWithin e.poll.attempts then .ok ()
        else .error .busyTimeout), (card.accept e.window c).sampled (e.poll.attempts + 1)) := by
  have hput : (Script.put e.window.command (c.word e.window.qidMask)).run (backend e.window) card =
      (.ok (), card.accept e.window c) := by
    simp only [Script.put, Script.run, backend, if_pos, Command.decode?_word hv.qid hv.low hq]
  have hwait := run_waitIdle e e.poll.attempts (card.accept e.window c)
  unfold issue
  simp only [Script.run_lift_bind]
  show (Script.put _ _ >>= fun _ => _).run _ card = _
  rw [Script.run_bind, hput]
  simp only
  rw [Script.run_bind, hwait]
  cases (card.accept e.window c).doneWithin e.poll.attempts <;> rfl

theorem run_simple (hv : e.window.Valid) (hq : e.Addresses c.qid) (card : Card) :
    (e.simple c).run.run (backend e.window) card =
      (.ok (if (card.accept e.window c).doneWithin e.poll.attempts then .ok ()
        else .error .busyTimeout), (card.accept e.window c).sampled (e.poll.attempts + 1)) := by
  unfold simple
  rw [Script.run_action_bind, Script.run_bind, run_commandWord hv hq]
  exact run_issue hv hq card

/-- A command that was issued has the outcome of its fate. -/
theorem issue_returns (hv : e.window.Valid) (hq : e.Addresses c.qid) (card : Card) :
    (e.issue c (c.word e.window.qidMask)).run.Returns (backend e.window) card fun r card' =>
      Outcome (e.Addresses c.qid) (card.Prompt e.poll.attempts) (card.Settles e.poll.attempts)
        card.contents (card.execute e.window c).contents () r card'.contents := by
  refine ⟨_, _, run_issue hv hq card, ?_⟩
  show Outcome _ _ _ _ _ _ _ (card.accept e.window c).contents
  rcases accept_cases card e.window e.poll.attempts c with ⟨hd, hc⟩ | ⟨hd, hn, hc⟩ | ⟨hd, hn, hc⟩
  · rw [hd, hc]
    exact .done hq
  · rw [hd, hc]
    exact .lost hq hn
  · rw [hd, hc]
    exact .late hq (fun hp => hn hp.settles) hn

/-- An access whose queue id is too wide is refused before the device sees anything of it. -/
theorem command_returns {α : Type} {f : UInt32 → Action AccessError α}
    {Q : Except AccessError α → Card → Prop} (hv : e.window.Valid)
    (haddressed : e.Addresses c.qid →
      (f (c.word e.window.qidMask)).run.Returns (backend e.window) card Q)
    (hrefused : ¬ e.Addresses c.qid → Q (.error .invalidParameter) card) :
    (e.commandWord c >>= f).run.Returns (backend e.window) card Q := by
  rw [Script.run_action_bind]
  by_cases hq : e.Addresses c.qid
  · exact .step (run_commandWord hv hq) (haddressed hq)
  · exact .step (run_commandWord_error hq) (Script.returns_pure.2 (hrefused hq))

/-! ## Accesses -/

theorem clear_returns (hv : e.window.Valid) (selector : Selector) (qid : UInt16) (card : Card) :
    (e.clear selector qid).run.Returns (backend e.window) card fun r card' =>
      Outcome (e.Addresses qid) (card.Prompt e.poll.attempts) (card.Settles e.poll.attempts)
        (card.memory e.window)
        ((card.memory e.window).store selector qid (List.replicate e.window.words 0))
        () r (card'.memory e.window) := by
  refine command_returns hv (fun hq => ?_) .refused
  refine (issue_returns hv hq card).mono fun r card' ho => ho.congr memory_congr fun hc => ?_
  rw [memory_congr hc]
  exact memory_setContext List.length_replicate

theorem invalidate_returns (hv : e.window.Valid) (selector : Selector) (qid : UInt16)
    (card : Card) :
    (e.invalidate selector qid).run.Returns (backend e.window) card fun r card' =>
      Outcome (e.Addresses qid) (card.Prompt e.poll.attempts) (card.Settles e.poll.attempts)
        (card.memory e.window) (card.memory e.window) () r (card'.memory e.window) := by
  refine command_returns hv (fun hq => ?_) .refused
  exact (issue_returns hv hq card).mono fun r card' ho => ho.congr memory_congr memory_congr

/-- Data that fits the window replaces the whole context. -/
theorem write_returns (hv : e.window.Valid) (selector : Selector) (qid : UInt16)
    {data : List UInt32} (hlength : data.length ≤ e.window.words) (card : Card) :
    (e.write selector qid data).run.Returns (backend e.window) card fun r card' =>
      Outcome (e.Addresses qid) (card.Prompt e.poll.attempts) (card.Settles e.poll.attempts)
        (card.memory e.window)
        ((card.memory e.window).store selector qid (resize e.window.words data))
        () r (card'.memory e.window) := by
  have hwords : (resize e.window.words data).length = e.window.words := length_resize _ _
  have hfilled : data ++ List.replicate (e.window.words - data.length) 0 =
      resize e.window.words data := by
    rw [resize, List.take_of_length_le hlength]
  unfold write
  rw [if_neg (by omega)]
  refine command_returns hv (fun hq => ?_) .refused
  simp only [Script.run_lift_bind]
  rw [hfilled, ← bind_assoc]
  refine .step (run_load hv hwords card) ?_
  refine (issue_returns hv hq (card.loaded e.window _)).mono fun r card' ho => ?_
  refine ho.congr (fun hc => ?_) fun hc => ?_
  · rw [memory_congr hc, memory_loaded hv hwords]
  · rw [memory_congr hc]
    refine (memory_setContext (by simp [masked])).trans ?_
    rw [memory_loaded hv hwords, masked_loaded hv hwords (length_context _ _ _ _)]

/-- A read that is done answers the first words of the context. -/
theorem read_returns (hv : e.window.Valid) (selector : Selector) (qid : UInt16) {length : Nat}
    (hlength : length ≤ e.window.words) (card : Card) :
    (e.read selector qid length).run.Returns (backend e.window) card fun r card' =>
      Outcome (e.Addresses qid) (card.Prompt e.poll.attempts) (card.Settles e.poll.attempts)
        (card.memory e.window) (card.memory e.window)
        ((card.context e.window selector qid).take length) r (card'.memory e.window) := by
  have hdata := hv.data
  have hmask := hv.mask
  have hcommand := e.window.command.toNat_lt
  let context := card.context e.window selector qid
  have hcontext : context.length = e.window.words := length_context _ _ _ _
  have hfetched : ∀ card' : Card, card'.contents =
      (card.execute e.window ⟨selector, .read, qid⟩).contents →
      card'.memory e.window = card.memory e.window := by
    intro card' hc
    rw [memory_congr hc]
    exact memory_setWords card (by omega) (by rw [length_context]; omega)
  unfold read
  rw [if_neg (by omega)]
  refine command_returns hv (fun hq => ?_) .refused
  refine (issue_returns hv hq card).action (fun u card' ho => ?_) fun error card' ho => ?_
  · obtain ⟨-, -, hc⟩ := ho.of_ok
    have hregisters : card'.registers = setWords card.registers e.window.data context :=
      congrArg Prod.fst hc
    have hwords : (List.range length).map (card'.wordAt e.window.data) = context.take length := by
      refine List.ext_getElem (by simp [hcontext, hlength]) fun i hi hi' => ?_
      simp only [List.length_map, List.length_range] at hi
      rw [List.getElem_map, List.getElem_range, List.getElem_take, wordAt, hregisters]
      exact setWords_at (by omega) (by omega)
    rw [Script.run_lift]
    refine .step (run_getBlock (by omega)) (Script.returns_pure.2 ?_)
    rw [hwords, hfetched card' hc]
    exact .done hq
  · exact (ho.of_error _).congr memory_congr (hfetched card')

/-! ## No access ends in a fault -/

theorem total_waitIdle (e : Engine) (attempts : Nat) : (e.waitIdle attempts).Total := by
  have hsample : e.sampleIdle.Total := fun _ => trivial
  induction attempts with
  | zero => exact hsample
  | succ n ih =>
    refine hsample.bind fun idle => ?_
    cases idle with
    | true => trivial
    | false => exact ih

theorem total_commandWord (hv : e.window.Valid) (c : Command) : (e.commandWord c).run.Total := by
  unfold commandWord
  by_cases hq : e.Addresses c.qid
  · rw [Command.encode_eq hv.qid hq]
    trivial
  · rw [Command.encode_error (Bool.eq_false_iff.2 hq)]
    trivial

theorem total_issue (e : Engine) (c : Command) (word : UInt32) : (e.issue c word).run.Total := by
  unfold issue
  simp only [Script.run_lift_bind]
  refine (total_waitIdle e e.poll.attempts).bind fun idle => ?_
  cases idle <;> trivial

theorem total_clear (hv : e.window.Valid) (selector : Selector) (qid : UInt16) :
    (e.clear selector qid).run.Total :=
  (total_commandWord hv _).action fun word => total_issue e _ word

theorem total_write (hv : e.window.Valid) (selector : Selector) (qid : UInt16)
    (data : List UInt32) : (e.write selector qid data).run.Total := by
  have hdata := hv.data
  have hmask := hv.mask
  have hcommand := e.window.command.toNat_lt
  unfold write
  by_cases hlength : data.length > e.window.words
  · rw [if_pos hlength]
    trivial
  · rw [if_neg hlength]
    refine (total_commandWord hv _).action fun word => ?_
    simp only [Script.run_lift_bind]
    refine (total_putFrom ?_).bind fun _ => (total_putFrom ?_).bind fun _ =>
      total_issue e _ word
    · rw [List.length_append, List.length_replicate]
      omega
    · rw [List.length_replicate]
      omega

end Engine

end DmaQueues
