import DmaQueues.Proofs.Engine.History
import DmaQueues.Proofs.Packing.Extension
import DmaQueues.Proofs.Queue.Bringup
import DmaQueues.Proofs.Queue.SetRange

/-!
# Setting the map of a function

A map is set through two words of a context, one word of a context or a register. All three
accept the same: values that their layout has a place for, of a function that has a map
(`Variant.functionLimit`). What is not accepted is refused before the first access, so on a prompt
device a call either replaces one map or does nothing (`setFunctionMap_outcome`).
-/

namespace DmaQueues

/-- Functions with an id below this one have a map: there is a register for each, or their id has a
place in a command. -/
def Variant.functionLimit (v : Variant) : Nat :=
  if v.directFunctionMap then Register.functionMapCount else 2 ^ v.window.qidMask.width

/-- There are more maps than a device has physical functions. -/
theorem Variant.four_le_functionLimit (v : Variant) : 4 ≤ v.functionLimit := by
  cases v <;> decide

/-- Data for a queue id without a place is refused before the first access. -/
theorem Engine.write_refused {e : Engine} {selector : Selector} {qid : UInt16}
    (hq : ¬ e.Addresses qid) {data : List UInt32} (hlength : data.length ≤ e.window.words) :
    (e.write selector qid data).run.Silent (· = .error .invalidParameter) := by
  unfold write
  rw [if_neg (by omega), Script.run_action_bind]
  unfold commandWord
  rw [Command.encode_error (c := ⟨selector, .write, qid⟩) (Bool.eq_false_iff.2 hq)]
  exact ⟨trivial, trivial, rfl⟩

namespace Access

variable {a : Access} {functionId : UInt16}

theorem addresses_functionMap :
    a.Addresses .functionMap functionId ↔ functionId.toNat < a.variant.functionLimit := by
  have hdirect : a.isDirect .functionMap = a.variant.directFunctionMap := rfl
  unfold Addresses Variant.functionLimit
  rw [hdirect]
  cases a.variant.directFunctionMap with
  | true => exact Iff.rfl
  | false => exact Engine.addresses_iff a.variant.window_valid

theorem writeFunctionMap_refused {m : FunctionMap} (hm : (FunctionMap.layout a.family).Holds m)
    (hid : ¬ a.Addresses .functionMap functionId) :
    (a.writeFunctionMap functionId m).run.Silent (· = .error .invalidParameter) := by
  have hl : (FunctionMap.layout a.family).Valid := RecordKind.layout_valid a.family .functionMap
  have hw : (FunctionMap.layout a.family).words ≤ a.variant.window.words :=
    RecordKind.layout_words_le .functionMap a.variant
  unfold writeFunctionMap
  rw [Layout.encode_eq hl.segment_fits hm]
  cases hd : a.variant.directFunctionMap with
  | true =>
    have hdirect : a.isDirect .functionMap = true := hd
    have hlimit : ¬ functionId.toNat < Register.functionMapCount := by
      rwa [Addresses, if_pos hdirect] at hid
    show (checkFunction functionId >>= fun _ => _).run.Silent _
    unfold checkFunction
    rw [if_pos (by omega)]
    exact ⟨trivial, trivial, rfl⟩
  | false =>
    have hindirect : a.isDirect .functionMap = false := hd
    rw [addresses_indirect hindirect] at hid
    exact Engine.write_refused hid (by rw [Layout.length_pack]; exact (min_le_left _ _).trans hw)

end Access

namespace Device

variable {d : Device} {card : Card} {functionId base count : UInt16}

/-- A map is read as it is held, if the function has one. -/
theorem functionMap_returns (hp : card.Prompt d.access.poll.attempts) (functionId : UInt16) :
    (d.functionMap functionId).run.Returns (Card.backend d.variant.window) card fun r _ =>
      r = if functionId.toNat < d.variant.functionLimit then .ok (d.access.maps card functionId)
        else .error (.access .invalidParameter) := by
  unfold functionMap
  rw [lift_run]
  refine (Access.readFunctionMap_effect card functionId).bind fun r card' ho => ?_
  refine Script.returns_pure.2 ?_
  rcases ho.of_prompt hp with ⟨hid, rfl, -⟩ | ⟨hid, rfl, -⟩
  · exact (if_pos (Access.addresses_functionMap.1 hid)).symm
  · exact (if_neg fun h => hid (Access.addresses_functionMap.2 h)).symm

theorem functionMap_run (hp : card.Prompt d.access.poll.attempts) (functionId : UInt16) :
    ((d.functionMap functionId).run.run (Card.backend d.variant.window) card).1 =
      .ok (if functionId.toNat < d.variant.functionLimit then .ok (d.access.maps card functionId)
        else .error (.access .invalidParameter)) := by
  obtain ⟨_, _, hrun, rfl⟩ := functionMap_returns (d := d) hp functionId
  rw [hrun]

theorem setFunctionMap_returns (hp : card.Prompt d.access.poll.attempts)
    (hm : (FunctionMap.layout d.access.family).Holds ({ base, count } : FunctionMap))
    (hid : functionId.toNat < d.variant.functionLimit) :
    (d.setFunctionMap functionId base count).run.Returns (Card.backend d.variant.window) card
      fun r card' => r = .ok () ∧ d.access.cells card' =
        (d.access.cells card).store .functionMap functionId
          (d.access.image (FunctionMap.layout d.access.family) .functionMap
            ({ base, count } : FunctionMap)) := by
  have hl : (FunctionMap.layout d.access.family).Valid :=
    RecordKind.layout_valid d.access.family .functionMap
  have hchecks : ∀ field value, (FunctionMap.layout d.access.family).accepts field value = true →
      Checks (checkFits (FunctionMap.layout d.access.family) field value) true () :=
    fun field value h => h ▸ checkFits_checks _ field value
  unfold setFunctionMap
  refine (hchecks .base _ (hm.accepts hl .base)).returns ?_
  refine (hchecks .count _ (hm.accepts hl .count)).returns ?_
  rw [Script.run_action_bind, lift_run, bind_assoc]
  refine (Access.writeFunctionMap_effect hm card functionId).bind fun r card' ho => ?_
  rcases ho.of_prompt hp with ⟨-, rfl, hcells⟩ | ⟨hn, -, -⟩
  · exact ⟨.ok (), card', rfl, rfl, hcells⟩
  · exact absurd (Access.addresses_functionMap.2 hid) hn

/-- The check of the values, the packing of the record and the queue id field of the command refuse
together what no map can hold. -/
theorem setFunctionMap_checks
    (h : ¬ ((FunctionMap.layout d.access.family).Holds ({ base, count } : FunctionMap) ∧
      functionId.toNat < d.variant.functionLimit)) :
    Checks (d.setFunctionMap functionId base count) false () := by
  have hl : (FunctionMap.layout d.access.family).Valid :=
    RecordKind.layout_valid d.access.family .functionMap
  have hchecks := checkFits_checks (FunctionMap.layout d.access.family)
  unfold setFunctionMap
  cases hbase : (FunctionMap.layout d.access.family).accepts .base base.toUInt64 with
  | false => exact Checks.refused (hbase ▸ hchecks .base base.toUInt64) _ ()
  | true =>
    show Checks _ (true && false) ()
    refine Checks.bind (hbase ▸ hchecks .base base.toUInt64) ?_
    cases hcount : (FunctionMap.layout d.access.family).accepts .count count.toUInt64 with
    | false => exact Checks.refused (hcount ▸ hchecks .count count.toUInt64) _ ()
    | true =>
      show Checks _ (true && false) ()
      refine Checks.bind (hcount ▸ hchecks .count count.toUInt64) ?_
      -- Both values have their places, so it is the function that has no map.
      have hm : (FunctionMap.layout d.access.family).Holds ({ base, count } : FunctionMap) := by
        refine hl.holds_of_accepts fun field => ?_
        cases field with
        | base => exact hbase
        | count => exact hcount
      have hid : ¬ d.access.Addresses .functionMap functionId :=
        fun hid => h ⟨hm, Access.addresses_functionMap.1 hid⟩
      exact (Checks.of_refused (Access.writeFunctionMap_refused hm hid) ()).refused _ ()

/-- On a prompt device, whatever it holds, a map whose values have their places is set if the
function has a map. It is read back as it was given, all other maps are read as before, and all
other contexts are as they were. Anything else is refused, and no register is accessed. -/
theorem setFunctionMap_outcome (hp : card.Prompt d.access.poll.attempts)
    (functionId base count : UInt16) :
    if (FunctionMap.layout d.access.family).Holds ({ base, count } : FunctionMap) ∧
        functionId.toNat < d.variant.functionLimit then
      ∃ card', (d.setFunctionMap functionId base count).run.run (Card.backend d.variant.window)
          card = (.ok (.ok ()), card') ∧
        ((d.functionMap functionId).run.run (Card.backend d.variant.window) card').1 =
          .ok (.ok { base, count }) ∧
        (∀ id, id ≠ functionId →
          ((d.functionMap id).run.run (Card.backend d.variant.window) card').1 =
            ((d.functionMap id).run.run (Card.backend d.variant.window) card).1) ∧
        ∀ s q, ¬ (s = .functionMap ∧ q = functionId) →
          d.access.cells card' s q = d.access.cells card s q
    else
      ∃ t, (d.setFunctionMap functionId base count).run.trace (Card.backend d.variant.window) card =
        (.ok (.error (.access .invalidParameter)), card, t) ∧ t.Untouched := by
  split
  next h =>
    obtain ⟨hm, hid⟩ := h
    obtain ⟨_, card', hr, rfl, hcells⟩ := setFunctionMap_returns hp hm hid
    have hmaps := Access.maps_store hm hcells
    refine ⟨card', hr, ?_, fun id hne => ?_, fun s q hother => ?_⟩
    · rw [functionMap_run (hp.run hr), if_pos hid, hmaps, Function.update_self]
    · rw [functionMap_run (hp.run hr), functionMap_run hp, hmaps, Function.update_of_ne hne]
    · rw [hcells]
      exact Cells.store_other hother
  next h =>
    have hrefused := setFunctionMap_checks h
    obtain ⟨_, card', t, htrace, rfl, ht⟩ :=
      (Script.Silent.gives hrefused).trace (Card.backend d.variant.window) card
    obtain rfl := Card.leads_offline hrefused.offline _ _ (Script.run_of_trace htrace).1
    exact ⟨t, htrace, ht⟩

/-- `softDevice` with registers for its function maps. -/
def hardDevice : Device :=
  { softDevice with access := ⟨.versalHard, ⟨1, 1⟩, none⟩ }

/-- The widest map of the last function. -/
theorem last_function_map_is_set :
    ∃ card', (hardDevice.setFunctionMap 255 2047 4095).run.run (Card.backend .hard) wordCard =
        (.ok (.ok ()), card') ∧
      ((hardDevice.functionMap 255).run.run (Card.backend .hard) card').1 =
        .ok (.ok ⟨2047, 4095⟩) ∧
      ((hardDevice.functionMap 254).run.run (Card.backend .hard) card').1 = .ok (.ok ⟨0, 0⟩) ∧
      hardDevice.access.cells card' .prefetch 255 = [7, 0, 0, 0] := by
  have hp : wordCard.Prompt hardDevice.access.poll.attempts := fun _ _ => ⟨0, Nat.zero_le _, rfl⟩
  have houtcome := setFunctionMap_outcome (d := hardDevice) hp 255 2047 4095
  rw [if_pos (by decide)] at houtcome
  obtain ⟨card', hr, hset, hmaps, hcells⟩ := houtcome
  exact ⟨card', hr, hset, (hmaps 254 (by decide)).trans rfl, hcells .prefetch 255 (by decide)⟩

end Device

end DmaQueues
