import DmaQueues.Engine
import DmaQueues.Proofs.Script

/-!
# Runs of a script

`Returns b p s Q` says that `p`, run over the backend `b` from the state `s`, ends in a
value and `Q` holds of that value and of the state afterwards; `Leads` says the same only
if it ends in a value and not in a fault, and `Leaves` says it of either. All are put together
along `>>=`, and for actions an error skips what follows.
-/

namespace DmaQueues.Script

variable {α β ε σ : Type} {b : Backend σ}

def Returns (b : Backend σ) (p : Script α) (s : σ) (Q : α → σ → Prop) : Prop :=
  ∃ a s', p.run b s = (.ok a, s') ∧ Q a s'

def Leads (b : Backend σ) (p : Script α) (s : σ) (Q : α → σ → Prop) : Prop :=
  ∀ a s', p.run b s = (.ok a, s') → Q a s'

variable {p : Script α} {s : σ} {P Q : α → σ → Prop}

theorem Returns.leads (h : p.Returns b s Q) : p.Leads b s Q := by
  obtain ⟨a, s', hr, hq⟩ := h
  intro a' s'' hr'
  cases hr.symm.trans hr'
  exact hq

@[simp] theorem leads_pure {a : α} : (Pure.pure a : Script α).Leads b s Q ↔ Q a s := by
  constructor
  · exact fun h => h a s rfl
  · rintro h a' s' hr
    cases hr
    exact h

@[simp] theorem returns_pure {a : α} : (Pure.pure a : Script α).Returns b s Q ↔ Q a s := by
  constructor
  · rintro ⟨a', s', hr, h⟩
    cases hr
    exact h
  · exact fun h => ⟨a, s, rfl, h⟩

/-- A script can be run to find out what it returns. -/
instance decidableReturns [∀ a s', Decidable (Q a s')] : Decidable (p.Returns b s Q) :=
  match h : p.run b s with
  | (.ok a, s') =>
    decidable_of_iff (Q a s') ⟨fun hq => ⟨a, s', h, hq⟩, fun ⟨_, _, h', hq⟩ => by
      cases h.symm.trans h'
      exact hq⟩
  | (.error _, _) => .isFalse fun ⟨_, _, h', _⟩ => nomatch h.symm.trans h'

theorem Leads.mono (h : p.Leads b s P) (hpq : ∀ a s', P a s' → Q a s') : p.Leads b s Q :=
  fun a s' hr => hpq a s' (h a s' hr)

theorem Returns.mono (h : p.Returns b s P) (hpq : ∀ a s', P a s' → Q a s') :
    p.Returns b s Q := by
  obtain ⟨a, s', hr, hp⟩ := h
  exact ⟨a, s', hr, hpq a s' hp⟩

theorem Leads.bind {f : α → Script β} {R : β → σ → Prop} (h : p.Leads b s P)
    (hf : ∀ a s', P a s' → (f a).Leads b s' R) : (p >>= f).Leads b s R := by
  intro c s'' hr
  rw [run_bind] at hr
  split at hr
  · next a s' hp => exact hf a s' (h a s' hp) c s'' hr
  · cases hr

/-- The first step of a script, when its run is known. -/
theorem Returns.step {f : α → Script β} {R : β → σ → Prop} {a : α} {s' : σ}
    (h : p.run b s = (.ok a, s')) (hf : (f a).Returns b s' R) : (p >>= f).Returns b s R := by
  obtain ⟨c, s'', hr, hq⟩ := hf
  refine ⟨c, s'', ?_, hq⟩
  rw [run_bind, h]
  exact hr

theorem Returns.bind {f : α → Script β} {R : β → σ → Prop} (h : p.Returns b s P)
    (hf : ∀ a s', P a s' → (f a).Returns b s' R) : (p >>= f).Returns b s R := by
  obtain ⟨a, s', hr, hp⟩ := h
  exact .step hr (hf a s' hp)

/-- What a script ends in whatever the registers answer, it ends in here. -/
theorem Leads.of_ends {P : α → Prop} (h : p.Ends P) : p.Leads b s fun a _ => P a :=
  fun _ _ hr => h.of_run hr

theorem Leads.and (hp : p.Leads b s P) (hq : p.Leads b s Q) :
    p.Leads b s fun a s' => P a s' ∧ Q a s' :=
  fun a s' hr => ⟨hp a s' hr, hq a s' hr⟩

/-- What every access keeps, every run keeps. -/
theorem run_keeps {I : σ → Prop} (hread : ∀ s offset, I s → I (b.read s offset).2)
    (hwrite : ∀ s offset value, I s → I (b.write s offset value))
    (hdelay : ∀ s us, I s → I (b.delay s us)) (hnote : ∀ s n, I s → I (b.note s n))
    (p : Script α) {s : σ} (hs : I s) : I (p.run b s).2 := by
  induction p generalizing s with
  | pure a => exact hs
  | halt f => exact hs
  | read offset next ih => exact ih _ (hread s offset hs)
  | write offset value next ih => exact ih () (hwrite s offset value hs)
  | delay us next ih => exact ih () (hdelay s us hs)
  | note n next ih => exact ih () (hnote s n hs)

/-- Plain registers keep their contents while they are only looked at. -/
theorem run_plain {P : UInt32 → Prop} {p : Script α} (h : p.Peeks P) (regs : Registers) :
    (p.run Backend.plain regs).2 = regs := by
  induction p with
  | pure a => rfl
  | halt f => rfl
  | note n next ih => exact ih () h
  | read offset next ih => exact ih _ (h.2 _)
  | write offset value next ih => exact h.elim
  | delay us next ih => exact h.elim

/-- However `p` ends, `Q` holds of that and of the state afterwards. -/
def Leaves (b : Backend σ) (p : Script α) (s : σ) (Q : Checked α → σ → Prop) : Prop :=
  ∀ r s', p.run b s = (r, s') → Q r s'

theorem Leaves.mono {P Q : Checked α → σ → Prop} (h : p.Leaves b s P)
    (hpq : ∀ r s', P r s' → Q r s') : p.Leaves b s Q :=
  fun r s' hr => hpq r s' (h r s' hr)

theorem Leaves.and {P Q : Checked α → σ → Prop} (hp : p.Leaves b s P) (hq : p.Leaves b s Q) :
    p.Leaves b s fun r s' => P r s' ∧ Q r s' :=
  fun r s' hr => ⟨hp r s' hr, hq r s' hr⟩

@[simp] theorem leaves_pure {a : α} {Q : Checked α → σ → Prop} :
    (Pure.pure a : Script α).Leaves b s Q ↔ Q (.ok a) s := by
  constructor
  · exact fun h => h _ s rfl
  · rintro h r s' hr
    cases hr
    exact h

theorem Leaves.bind {f : α → Script β} {P : Checked α → σ → Prop} {R : Checked β → σ → Prop}
    (h : p.Leaves b s P) (hf : ∀ a s', P (.ok a) s' → (f a).Leaves b s' R)
    (hfault : ∀ e s', P (.error e) s' → R (.error e) s') : (p >>= f).Leaves b s R := by
  intro r s'' hr
  rw [run_bind] at hr
  split at hr
  · next a s' hp => exact hf a s' (h _ s' hp) r s'' hr
  · next e s' hp =>
    cases hr
    exact hfault e _ (h _ _ hp)

/-! ## Actions -/

/-- An error of `op` is the error of the whole. -/
theorem run_action_bind (op : Action ε α) (f : α → Action ε β) :
    (op >>= f).run = op.run >>= fun r =>
      match r with
      | .ok a => (f a).run
      | .error e => Pure.pure (.error e) := by
  refine congrArg (op.run >>= ·) (funext fun r => ?_)
  cases r <;> rfl

theorem run_lift (p : Script α) :
    (liftM p : Action ε α).run = p >>= fun a => Pure.pure (.ok a) := rfl

/-- A script as the first step of an action. -/
theorem run_lift_bind (p : Script α) (f : α → Action ε β) :
    ((liftM p : Action ε α) >>= f).run = p >>= fun a => (f a).run :=
  ExceptT.run_bind_lift p f

theorem Leads.action {op : Action ε α} {f : α → Action ε β} {P : Except ε α → σ → Prop}
    {R : Except ε β → σ → Prop} (h : op.run.Leads b s P)
    (hok : ∀ a s', P (.ok a) s' → (f a).run.Leads b s' R)
    (herror : ∀ e s', P (.error e) s' → R (.error e) s') : (op >>= f).run.Leads b s R := by
  rw [run_action_bind]
  refine h.bind fun r s' hp => ?_
  cases r with
  | ok a => exact hok a s' hp
  | error e => exact leads_pure.2 (herror e s' hp)

theorem Returns.action {op : Action ε α} {f : α → Action ε β} {P : Except ε α → σ → Prop}
    {R : Except ε β → σ → Prop} (h : op.run.Returns b s P)
    (hok : ∀ a s', P (.ok a) s' → (f a).run.Returns b s' R)
    (herror : ∀ e s', P (.error e) s' → R (.error e) s') : (op >>= f).run.Returns b s R := by
  rw [run_action_bind]
  refine h.bind fun r s' hp => ?_
  cases r with
  | ok a => exact hok a s' hp
  | error e => exact returns_pure.2 (herror e s' hp)

theorem Leaves.action {op : Action ε α} {f : α → Action ε β}
    {P : Checked (Except ε α) → σ → Prop} {R : Checked (Except ε β) → σ → Prop}
    (h : op.run.Leaves b s P) (hok : ∀ a s', P (.ok (.ok a)) s' → (f a).run.Leaves b s' R)
    (herror : ∀ e s', P (.ok (.error e)) s' → R (.ok (.error e)) s')
    (hfault : ∀ e s', P (.error e) s' → R (.error e) s') : (op >>= f).run.Leaves b s R := by
  rw [run_action_bind]
  refine h.bind (fun r s' hp => ?_) hfault
  cases r with
  | ok a => exact hok a s' hp
  | error e => exact leaves_pure.2 (herror e s' hp)

theorem Total.action {op : Action ε α} {f : α → Action ε β} (h : op.run.Total)
    (hf : ∀ a, (f a).run.Total) : (op >>= f).run.Total := by
  rw [run_action_bind]
  refine h.bind fun r => ?_
  cases r with
  | ok a => exact hf a
  | error e => trivial

theorem Peeks.action {P : UInt32 → Prop} {op : Action ε α} {f : α → Action ε β}
    (h : op.run.Peeks P) (hf : ∀ a, (f a).run.Peeks P) : (op >>= f).run.Peeks P := by
  rw [run_action_bind]
  refine h.bind fun r => ?_
  cases r with
  | ok a => exact hf a
  | error e => trivial

theorem total_lift {p : Script α} (h : p.Total) : (liftM p : Action ε α).run.Total :=
  h.map _

end DmaQueues.Script
