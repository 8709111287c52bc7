import DmaQueues.Proofs.Engine.Commands

/-!
# States along a trace

`Backend.after` is the state of a backend after some events. The moments of a run are the states
after the beginnings of its trace. On the reference card a context at any moment is decided by the
commands before it: it stays as it is until a command on it is carried out (`Card.context_after`).
-/

namespace DmaQueues

namespace Backend

variable {σ : Type}

def advance (b : Backend σ) (s : σ) : Event → σ
  | .read offset _ => (b.read s offset).2
  | .write offset value => b.write s offset value
  | .delay us => b.delay s us
  | .note n => b.note s n

/-- The state after some events. -/
def after (b : Backend σ) (s : σ) (t : Trace) : σ :=
  t.foldl b.advance s

theorem after_append (b : Backend σ) (s : σ) (t t' : Trace) :
    b.after s (t ++ t') = b.after (b.after s t) t' :=
  List.foldl_append

end Backend

namespace Script

variable {α σ : Type} {b : Backend σ} {p : Script α} {r : Checked α} {s s' : σ}

private theorem after_cons {event : Event} {s₁ : σ} {earlier history : List Event}
    (h : ∃ t : Trace, history = t.reverse ++ event :: earlier ∧ s' = b.after s₁ t)
    (hs : b.advance s event = s₁) :
    ∃ t : Trace, history = t.reverse ++ earlier ∧ s' = b.after s t := by
  obtain ⟨t, rfl, rfl⟩ := h
  subst hs
  exact ⟨event :: t, by rw [List.reverse_cons, List.append_assoc]; rfl, rfl⟩

theorem after_of_recorded {earlier history : List Event}
    (hr : p.run b.recorded (s, earlier) = (r, s', history)) :
    p.run b s = (r, s') ∧ ∃ t : Trace, history = t.reverse ++ earlier ∧ s' = b.after s t := by
  induction p generalizing s earlier with
  | pure a =>
    cases hr
    exact ⟨rfl, [], rfl, rfl⟩
  | halt f =>
    cases hr
    exact ⟨rfl, [], rfl, rfl⟩
  | read offset next ih =>
    obtain ⟨hrun, ht⟩ := ih _ hr
    exact ⟨hrun, after_cons ht rfl⟩
  | write offset value next ih =>
    obtain ⟨hrun, ht⟩ := ih () hr
    exact ⟨hrun, after_cons ht rfl⟩
  | delay us next ih =>
    obtain ⟨hrun, ht⟩ := ih () hr
    exact ⟨hrun, after_cons ht rfl⟩
  | note n next ih =>
    obtain ⟨hrun, ht⟩ := ih () hr
    exact ⟨hrun, after_cons ht rfl⟩

/-- A recorded run is the run, and ends in the state after its events. -/
theorem run_of_trace {t : Trace} (hr : p.trace b s = (r, s', t)) :
    p.run b s = (r, s') ∧ s' = b.after s t := by
  unfold trace at hr
  split at hr
  next r' s'' history hrun =>
    cases hr
    obtain ⟨hrun', t, rfl, hs⟩ := after_of_recorded hrun
    rw [List.append_nil, List.reverse_reverse]
    exact ⟨hrun', hs⟩

end Script

namespace Card

variable {w : Window} {card : Card} {c : Command} {s : Selector} {q : UInt16} {t : Trace}

/-! ## One command -/

theorem accept_accepted (card : Card) (w : Window) (c : Command) :
    (card.accept w c).accepted = card.accepted + 1 := by
  unfold accept execute
  cases card.fate card.accepted c <;> cases c.operation <;> rfl

theorem accept_fate (card : Card) (w : Window) (c : Command) :
    (card.accept w c).fate = card.fate := by
  unfold accept execute
  cases card.fate card.accepted c <;> cases c.operation <;> rfl

theorem accept_lost (h : card.fate card.accepted c = .lost) :
    (card.accept w c).contexts = card.contexts := by
  unfold accept
  rw [h]

/-- A command that is carried out, in time or not. -/
theorem accept_executed (h : card.fate card.accepted c ≠ .lost) :
    (card.accept w c).contexts = (card.execute w c).contexts := by
  unfold accept execute
  cases hf : card.fate card.accepted c with
  | lost => exact absurd hf h
  | done samples => cases c.operation <;> rfl
  | stalled => cases c.operation <;> rfl

theorem accept_other (h : ¬ (c.selector = s ∧ c.qid = q)) :
    (card.accept w c).contexts s q = card.contexts s q := by
  by_cases hlost : card.fate card.accepted c = .lost
  · rw [accept_lost hlost]
  · have hset : ∀ words, (card.setContext c.selector c.qid words).contexts s q =
        card.contexts s q := fun words => if_neg fun hkey => h ⟨hkey.1.symm, hkey.2.symm⟩
    rw [accept_executed hlost]
    unfold execute
    cases c.operation with
    | clear => exact hset _
    | write => exact hset _
    | read => rfl
    | invalidate => rfl

theorem accept_clear (h : card.fate card.accepted ⟨s, .clear, q⟩ ≠ .lost) :
    (card.accept w ⟨s, .clear, q⟩).context w s q = List.replicate w.words 0 := by
  unfold context
  rw [accept_executed h]
  show resize w.words
    ((if s = s ∧ q = q then some (List.replicate w.words 0) else card.contexts s q).getD []) = _
  rw [if_pos ⟨rfl, rfl⟩]
  simp [resize]

/-! ## The commands of a trace -/

/-- What hands over no command leaves the contexts as they are. -/
theorem advance_of_none (card : Card) {event : Event} (h : w.command? event = none) :
    ∃ registers remaining,
      (backend w).advance card event = { card with registers, remaining } := by
  cases event with
  | read offset value =>
    have hread : (backend w).advance card (.read offset value) =
        (if offset = w.command then card.sample else (card.registers offset, card)).2 := rfl
    rw [hread]
    split
    · unfold sample
      split <;> exact ⟨_, _, rfl⟩
    · exact ⟨_, _, rfl⟩
  | write offset value =>
    rw [Window.command?_write] at h
    by_cases hoffset : offset = w.command
    · rw [if_pos hoffset] at h
      refine ⟨card.registers, card.remaining, ?_⟩
      show (backend w).write card offset value = card
      simp only [backend, if_pos hoffset, h]
    · refine ⟨card.registers.set offset value, card.remaining, ?_⟩
      show (backend w).write card offset value = _
      simp only [backend, if_neg hoffset]
  | delay us => exact ⟨_, _, rfl⟩
  | note n => exact ⟨_, _, rfl⟩

theorem advance_of_some {event : Event} (h : w.command? event = some c) :
    (backend w).advance card event = card.accept w c := by
  cases event with
  | write offset value =>
    rw [Window.command?_write] at h
    by_cases hoffset : offset = w.command
    · rw [if_pos hoffset] at h
      show (backend w).write card offset value = _
      simp only [backend, if_pos hoffset, h]
    · rw [if_neg hoffset] at h
      cases h
  | _ => cases h

/-- The commands are counted, and a context that none of them changes stays as it is. -/
theorem context_after (w : Window) (t : Trace) (card : Card) (s : Selector) (q : UInt16) :
    ((backend w).after card t).accepted = card.accepted + (w.commands t).length ∧
      ((backend w).after card t).fate = card.fate ∧
      ((∀ i c, (w.commands t)[i]? = some c → c.selector = s → c.qid = q →
          card.fate (card.accepted + i) c = .lost) →
        ((backend w).after card t).contexts s q = card.contexts s q) := by
  induction t generalizing card with
  | nil => exact ⟨rfl, rfl, fun _ => rfl⟩
  | cons event rest ih =>
    have hstep : (backend w).after card (event :: rest) =
        (backend w).after ((backend w).advance card event) rest := rfl
    rw [hstep]
    cases hevent : w.command? event with
    | none =>
      have hcommands : w.commands (event :: rest) = w.commands rest :=
        List.filterMap_cons_none hevent
      obtain ⟨registers, remaining, hcard⟩ := advance_of_none card hevent
      rw [hcommands, hcard]
      exact ih { card with registers, remaining }
    | some c =>
      have hcommands : w.commands (event :: rest) = c :: w.commands rest :=
        List.filterMap_cons_some hevent
      obtain ⟨haccepted, hfate, hcontext⟩ := ih (card.accept w c)
      rw [accept_accepted] at haccepted hcontext
      rw [accept_fate] at hfate hcontext
      rw [advance_of_some hevent, hcommands]
      refine ⟨by rw [haccepted, List.length_cons]; omega, hfate, fun hlost => ?_⟩
      have hfirst : (card.accept w c).contexts s q = card.contexts s q := by
        by_cases hkey : c.selector = s ∧ c.qid = q
        · rw [accept_lost (hlost 0 c rfl hkey.1 hkey.2)]
        · exact accept_other hkey
      refine (hcontext fun i c' hi hs hq => ?_).trans hfirst
      have hlost' := hlost (i + 1) c' hi hs hq
      rwa [show card.accepted + (i + 1) = card.accepted + 1 + i by omega] at hlost'

end Card

end DmaQueues
