import DmaQueues.Access
import DmaQueues.Proofs.Run
import DmaQueues.Proofs.Word.Mask

/-!
# What a device is identified by

Probing looks at two registers, one for the identifier and one for the version
(`probe_spec`). For a virtual function both are sought at the same two places, but the
identifier check moves on from the first place if the identifier is not there, and the
version if no platform is. So a device is accepted by one of them and may be decoded from
the other: `virtual_probe` says when the decoded register has the identifier.
-/

namespace DmaQueues.Identification

open Script

/-- The upper half of the register is the identifier of a configuration block. -/
def Identifies (raw : UInt32) : Prop :=
  Mask.get Register.identifierMask raw = Register.magic

instance (raw : UInt32) : Decidable (Identifies raw) :=
  inferInstanceAs (Decidable (_ = _))

/-- The register that the identifier check decides on. -/
def identifierPlace (isVirtual : Bool) (regs : Registers) : UInt32 :=
  if isVirtual then
    if Identifies (regs Register.functionIdentifier) then Register.functionIdentifier
    else Register.functionIdentifierEqdma
  else Register.identifier

/-- The register that is decoded. -/
def versionPlace (isVirtual : Bool) (regs : Registers) : UInt32 :=
  if isVirtual then
    if (Version.decode true (regs Register.functionIdentifier)).platform.isSome then
      Register.functionIdentifier
    else Register.functionIdentifierEqdma
  else Register.capabilities

variable {isVirtual : Bool} {regs : Registers}

/-! ## Steps of a probe -/

theorem readIdentifier_run (offset : UInt32) (regs : Registers) :
    (readIdentifier offset).run Backend.plain regs =
      (.ok (Mask.get Register.identifierMask (regs offset)), regs) := rfl

theorem identifier_run (isVirtual : Bool) (regs : Registers) :
    (identifier isVirtual).run Backend.plain regs =
      (.ok (Mask.get Register.identifierMask (regs (identifierPlace isVirtual regs))), regs) := by
  cases isVirtual with
  | false => rfl
  | true =>
    unfold identifier identifierPlace
    simp only [if_true, run_bind, readIdentifier_run]
    by_cases hfirst : Identifies (regs Register.functionIdentifier)
    · have hmagic : Mask.get Register.identifierMask (regs Register.functionIdentifier) =
          Register.magic := hfirst
      rw [if_pos hmagic, if_pos hfirst]
      rfl
    · have hmagic : ¬ Mask.get Register.identifierMask (regs Register.functionIdentifier) =
          Register.magic := hfirst
      rw [if_neg hmagic, if_neg hfirst]
      rfl

theorem checkBar_run (isVirtual : Bool) (regs : Registers) :
    (checkBar isVirtual).run.run Backend.plain regs =
      (.ok (if Identifies (regs (identifierPlace isVirtual regs)) then .ok ()
        else .error .invalidConfigBar), regs) := by
  unfold checkBar
  rw [run_lift_bind, run_bind, identifier_run]
  generalize regs (identifierPlace isVirtual regs) = raw
  by_cases hid : Mask.get Register.identifierMask raw = Register.magic
  · have hidentifies : Identifies raw := hid
    rw [if_pos hidentifies]
    simp only [hid]
    rfl
  · have hidentifies : ¬ Identifies raw := hid
    rw [if_neg hidentifies]
    simp only [ne_eq, hid, not_false_eq_true, if_true]
    rfl

theorem readVersion_run (isVirtual : Bool) (regs : Registers) :
    (readVersion isVirtual).run Backend.plain regs =
      (.ok (Version.decode isVirtual (regs (versionPlace isVirtual regs))), regs) := by
  cases isVirtual with
  | false => rfl
  | true =>
    unfold readVersion versionPlace
    have hget : ∀ offset, (Script.get offset).run Backend.plain regs = (.ok (regs offset), regs) :=
      fun _ => rfl
    simp only [if_true, run_bind, hget]
    by_cases hknown : (Version.decode true (regs Register.functionIdentifier)).platform.isSome
    · rw [if_pos hknown, if_pos hknown]
      rfl
    · rw [if_neg hknown, if_neg hknown]
      rfl

/-- A version is turned down for one reason only. -/
theorem select_run (v : Version) (regs : Registers) :
    (∃ variant, (select v).run.run Backend.plain regs = (.ok (.ok variant), regs)) ∨
      (select v).run.run Backend.plain regs = (.ok (.error .unsupportedVersion), regs) := by
  unfold select
  split
  · exact .inl ⟨_, rfl⟩
  · exact .inl ⟨_, rfl⟩
  · split
    · exact .inl ⟨_, rfl⟩
    · exact .inl ⟨_, rfl⟩
    · exact .inr rfl
  · exact .inl ⟨_, rfl⟩
  · exact .inr rfl

/-! ## Probing -/

/-- The outcome of a probe of registers with these contents. -/
inductive Probed (isVirtual : Bool) (poll : Poll) (regs : Registers) :
    Except AccessError Access → Prop where
  | foreign : ¬ Identifies (regs (identifierPlace isVirtual regs)) →
      Probed isVirtual poll regs (.error .invalidConfigBar)
  | unsupported : Identifies (regs (identifierPlace isVirtual regs)) →
      (select (Version.decode isVirtual (regs (versionPlace isVirtual regs)))).run.run
        Backend.plain regs = (.ok (.error .unsupportedVersion), regs) →
      Probed isVirtual poll regs (.error .unsupportedVersion)
  | found {variant : Variant} : Identifies (regs (identifierPlace isVirtual regs)) →
      (select (Version.decode isVirtual (regs (versionPlace isVirtual regs)))).run.run
        Backend.plain regs = (.ok (.ok variant), regs) →
      Probed isVirtual poll regs
        (.ok ⟨variant, poll, some (Version.decode isVirtual (regs (versionPlace isVirtual regs)))⟩)

/-- A probe ends in no fault and writes nothing. -/
theorem probe_spec (isVirtual : Bool) (poll : Poll) (regs : Registers) :
    ∃ answer, (Access.probe isVirtual poll).run.run Backend.plain regs = (.ok answer, regs) ∧
      Probed isVirtual poll regs answer := by
  unfold Access.probe
  rw [run_action_bind, run_bind, checkBar_run]
  by_cases hid : Identifies (regs (identifierPlace isVirtual regs))
  · rw [if_pos hid]
    dsimp only
    rw [run_lift_bind, run_bind, readVersion_run]
    dsimp only
    rw [run_action_bind, run_bind]
    rcases select_run (Version.decode isVirtual (regs (versionPlace isVirtual regs))) regs with
      ⟨variant, hselect⟩ | hselect
    · rw [hselect]
      exact ⟨_, rfl, .found hid hselect⟩
    · rw [hselect]
      exact ⟨_, rfl, .unsupported hid hselect⟩
  · rw [if_neg hid]
    exact ⟨_, rfl, .foreign hid⟩

/-! ## Physical functions -/

/-- The registers are those of a physical function that is identified as `v`. -/
structure Physical (regs : Registers) (v : Variant) : Prop where
  identifies : Identifies (regs Register.identifier)
  selects : (select (Version.decode false (regs Register.capabilities))).run.run Backend.plain
    regs = (.ok (.ok v), regs)

theorem offline_select (v : Version) : (select v).run.Offline := by
  unfold select
  split
  · trivial
  · trivial
  · split <;> trivial
  · trivial
  · trivial

theorem peeks_get {P : UInt32 → Prop} {offset : UInt32} (h : P offset) :
    (Script.get offset).Peeks P :=
  ⟨h, fun _ => trivial⟩

theorem probe_peeks {P : UInt32 → Prop} (hidentifier : P Register.identifier)
    (hcapabilities : P Register.capabilities) (poll : Poll) :
    (Access.probe false poll).run.Peeks P := by
  have hbar : (checkBar false).run.Peeks P := by
    unfold checkBar
    rw [run_lift_bind]
    refine Peeks.bind ((peeks_get hidentifier).bind fun _ => trivial) fun found => ?_
    split <;> trivial
  unfold Access.probe
  refine hbar.action fun _ => ?_
  rw [run_lift_bind]
  refine Peeks.bind ((peeks_get hcapabilities).bind fun _ => trivial) fun version => ?_
  exact ((offline_select version).peeks P).action fun _ => trivial

theorem Physical.probe_run {v : Variant} (h : Physical regs v) (poll : Poll) :
    (Access.probe false poll).run.run Backend.plain regs =
      (.ok (.ok ⟨v, poll, some (Version.decode false (regs Register.capabilities))⟩), regs) := by
  obtain ⟨answer, hrun, hprobed⟩ := probe_spec false poll regs
  rw [hrun]
  cases hprobed with
  | foreign hid => exact absurd h.identifies hid
  | unsupported _ hselect => cases hselect.symm.trans h.selects
  | found _ hselect =>
    cases hselect.symm.trans h.selects
    rfl

/-- Queues that the registers tell of. -/
def queueCount (regs : Registers) : Nat :=
  (Mask.get Register.queueCountMask (regs Register.capacity)).toNat

/-- Both streaming engines are there. -/
def streamsEnabled (regs : Registers) : Bool :=
  regs Register.engines &&& Register.streamMask == Register.streamMask

theorem queueCount_lt (regs : Registers) : queueCount regs < 4096 := by
  have hle := Mask.toNat_get_le Register.queueCountMask (regs Register.capacity)
  have hmask : Register.queueCountMask.toNat = 4095 := by decide
  unfold queueCount
  omega

theorem countFunctions_le (barMap : UInt32) : countFunctions barMap ≤ 4 :=
  List.countP_le_length

theorem silent_descriptorMode (v : Variant) (capabilities : UInt32) :
    (descriptorMode v capabilities).Silent fun _ => True := by
  unfold descriptorMode
  split
  · dsimp only
    split <;> exact ⟨trivial, trivial, trivial⟩
  · exact ⟨trivial, trivial, trivial⟩

theorem readAttributes_peeks {P : UInt32 → Prop} (hbarMap : P Register.barMap)
    (hcapacity : P Register.capacity) (hcapabilities : P Register.capabilities)
    (hengines : P Register.engines) (v : Variant) : (readAttributes v).Peeks P := by
  refine (peeks_get hbarMap).bind fun _ => (peeks_get hcapacity).bind fun _ => ?_
  refine (peeks_get hcapabilities).bind fun capabilities => ?_
  refine ((silent_descriptorMode v capabilities).offline.peeks P).bind fun _ => ?_
  exact (peeks_get hengines).bind fun _ => trivial

/-- What the attributes say of the registers. -/
structure Describes (attributes : Attributes) (regs : Registers) : Prop where
  functions : attributes.functionCount = countFunctions (regs Register.barMap)
  queues : attributes.queueCount = queueCount regs
  streaming : attributes.streaming = streamsEnabled regs

theorem readAttributes_returns (v : Variant) (regs : Registers) :
    (readAttributes v).Returns Backend.plain regs fun attributes _ =>
      Describes attributes regs := by
  have hget : ∀ offset, (Script.get offset).run Backend.plain regs = (.ok (regs offset), regs) :=
    fun _ => rfl
  have hpresent : ∀ present : Capability → Bool,
      (Capability.all.filter present).contains .streaming = present .streaming := by
    intro present
    cases hp : present .streaming <;> simp [Capability.all, hp]
  refine .step (hget _) (.step (hget _) (.step (hget _) ?_))
  have hsilent := silent_descriptorMode v (regs Register.capabilities)
  obtain ⟨mode, regs', hmode⟩ := hsilent.total.run Backend.plain regs
  obtain rfl : regs' = regs :=
    (congrArg Prod.snd hmode).symm.trans (run_plain (hsilent.offline.peeks fun _ => True) regs)
  exact .step hmode (.step (hget _) (returns_pure.2 ⟨rfl, rfl, hpresent _⟩))

/-! ## Virtual functions -/

theorem identifierPlace_iff (regs : Registers) :
    Identifies (regs (identifierPlace true regs)) ↔
      Identifies (regs Register.functionIdentifier) ∨
        Identifies (regs Register.functionIdentifierEqdma) := by
  unfold identifierPlace
  rw [if_pos rfl]
  by_cases hfirst : Identifies (regs Register.functionIdentifier)
  · simp [hfirst]
  · simp [hfirst]

/-- The register that is decoded is the one that was accepted, or has the identifier by itself. -/
theorem versionPlace_iff (hid : Identifies (regs (identifierPlace true regs))) :
    Identifies (regs (versionPlace true regs)) ↔
      versionPlace true regs = identifierPlace true regs ∨
        Identifies (regs Register.functionIdentifier) ∧
          Identifies (regs Register.functionIdentifierEqdma) := by
  constructor
  · intro hversion
    unfold versionPlace identifierPlace at *
    simp only [if_true] at *
    by_cases hfirst : Identifies (regs Register.functionIdentifier)
    · by_cases hknown : (Version.decode true (regs Register.functionIdentifier)).platform.isSome
      · exact .inl (by rw [if_pos hknown, if_pos hfirst])
      · rw [if_neg hknown] at hversion
        exact .inr ⟨hfirst, hversion⟩
    · by_cases hknown : (Version.decode true (regs Register.functionIdentifier)).platform.isSome
      · rw [if_pos hknown] at hversion
        exact absurd hversion hfirst
      · exact .inl (by rw [if_neg hknown, if_neg hfirst])
  · rintro (hsame | ⟨hfirst, hsecond⟩)
    · rwa [hsame]
    · unfold versionPlace
      rw [if_pos rfl]
      split
      · exact hfirst
      · exact hsecond

/-- A probe of a virtual function is accepted by the first of its two places that has the
identifier, and decodes the first that shows a platform. Where these are the same place, and where
both places have it, the decoded register has the identifier; else it has not. -/
theorem virtual_probe (poll : Poll) (regs : Registers) :
    match (Access.probe true poll).run.run Backend.plain regs with
    | (.ok (.ok a), regs') => regs' = regs ∧ a.poll = poll ∧
      Identifies (regs (identifierPlace true regs)) ∧
      ∃ version, a.version = some version ∧
        version = Version.decode true (regs (versionPlace true regs)) ∧
        version.raw = regs (versionPlace true regs) ∧
        (select version).run.run Backend.plain regs = (.ok (.ok a.variant), regs) ∧
        (Identifies version.raw ↔ versionPlace true regs = identifierPlace true regs ∨
          Identifies (regs Register.functionIdentifier) ∧
            Identifies (regs Register.functionIdentifierEqdma))
    | (.ok (.error error), regs') => regs' = regs ∧
      (error = .invalidConfigBar ∧ ¬ Identifies (regs Register.functionIdentifier) ∧
          ¬ Identifies (regs Register.functionIdentifierEqdma) ∨
        error = .unsupportedVersion ∧ Identifies (regs (identifierPlace true regs)) ∧
          (select (Version.decode true (regs (versionPlace true regs)))).run.run
            Backend.plain regs = (.ok (.error .unsupportedVersion), regs))
    | (.error _, _) => False := by
  obtain ⟨answer, hrun, hprobed⟩ := probe_spec true poll regs
  rw [hrun]
  cases hprobed with
  | foreign hid =>
    rw [identifierPlace_iff, not_or] at hid
    exact ⟨rfl, .inl ⟨rfl, hid⟩⟩
  | unsupported hid hselect => exact ⟨rfl, .inr ⟨rfl, hid, hselect⟩⟩
  | found hid hselect =>
    exact ⟨rfl, rfl, hid, _, rfl, rfl, rfl, hselect, versionPlace_iff hid⟩

/-- The first place reads zero, which is the version of a soft part, and the second has the
identifier and the version of an EQDMA part. The device is taken for the soft part. -/
theorem blank_register_selects_variant :
    ∃ a version, (Access.probe true {}).run.run Backend.plain
        (Registers.set (fun _ => 0) Register.functionIdentifierEqdma 0x1FD30010) =
          (.ok (.ok a), Registers.set (fun _ => 0) Register.functionIdentifierEqdma 0x1FD30010) ∧
      a.variant = .legacySoft ∧ a.version = some version ∧ version.raw = 0 ∧
      ¬ Identifies version.raw ∧ Identifies 0x1FD30010 ∧
      (select (Version.decode true 0x1FD30010)).run.run Backend.plain (fun _ => 0) =
        (.ok (.ok .eqdma), fun _ => 0) := by
  refine ⟨⟨.legacySoft, {}, some (Version.decode true 0)⟩, _, rfl, rfl, rfl, rfl, ?_, ?_, rfl⟩
  · decide
  · decide

end DmaQueues.Identification
