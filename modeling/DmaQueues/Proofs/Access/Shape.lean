import DmaQueues.Proofs.Engine.Call
import DmaQueues.Proofs.Script
import DmaQueues.Access

/-!
# The shape of an access

Every operation on a context or a function map has the same shape: checks that do without the
device, and then at most one call of the engine or one access of a function map register,
whose result may be converted. What holds of the pieces is put together along `Shape`, once for
all operations.
-/

namespace DmaQueues.Access

variable {a : Access} {s : Selector} {q : UInt16}

inductive Shape (a : Access) : {α : Type} → Action AccessError α → Prop where
  | offline {α : Type} {op : Action AccessError α} (h : op.run.Offline) : Shape a op
  | write (s : Selector) (q : UInt16) (data : List UInt32) : Shape a (a.engine.write s q data)
  | read (s : Selector) (q : UInt16) (length : Nat) : Shape a (a.engine.read s q length)
  | simple {c : Command} (hc : ¬ (c.operation = .write ∨ c.operation = .read)) :
    Shape a (a.engine.simple c)
  | put (hd : a.variant.directFunctionMap = true) (q : UInt16) (value : UInt32) :
    Shape a (checkFunction q >>= fun _ => liftM (Script.put (Register.functionMap q) value))
  | get (offset : UInt32) : Shape a (liftM (Script.get offset))
  | after {α β : Type} {check : Action AccessError α} {f : α → Action AccessError β}
    (h : check.run.Offline) (hf : ∀ x, Shape a (f x)) : Shape a (check >>= f)
  | map {α β : Type} {op : Action AccessError α} (h : Shape a op) (f : α → β) :
    Shape a (f <$> op)

/-! ## Checks -/

theorem offline_lift {α : Type} (c : Checked α) : (liftM c : Action AccessError α).run.Offline :=
  (Script.offline_ofChecked c).bind fun _ => trivial

theorem offline_checkSelector (a : Access) (s : Selector) : (a.checkSelector s).run.Offline := by
  unfold checkSelector
  split <;> trivial

theorem offline_checkFunction (q : UInt16) : (checkFunction q).run.Offline := by
  unfold checkFunction
  split <;> trivial

theorem offline_validate (r : CompletionContext) : r.validate.run.Offline := by
  unfold CompletionContext.validate
  split <;> trivial

/-! ## Operations -/

theorem shape_writePacked {R F : Type} [Fields R F] (l : Layout F) (s : Selector) (q : UInt16)
    (r : R) : a.Shape (a.writePacked l s q r) :=
  .after (offline_lift _) fun image => .write s q image

theorem shape_readPacked {R F : Type} [DecidableEq F] [Fields R F] (l : Layout F) (s : Selector)
    (q : UInt16) : a.Shape (a.readPacked l s q : Action AccessError R) := by
  unfold readPacked
  rw [bind_pure_comp]
  exact .map (.read s q l.words) _

theorem shape_writeCompletion (q : UInt16) (r : CompletionContext) :
    a.Shape (a.writeCompletion q r) := by
  unfold writeCompletion CompletionContext.encodeValid
  rw [bind_assoc]
  exact .after (offline_validate r) fun _ => .after (offline_lift _) fun image =>
    .write .completion q image

theorem shape_writeFunctionMap (q : UInt16) (r : FunctionMap) :
    a.Shape (a.writeFunctionMap q r) := by
  refine .after (offline_lift _) fun image => ?_
  split
  · next hd => exact .put hd q _
  · exact .write .functionMap q image

theorem shape_readFunctionMap (q : UInt16) : a.Shape (a.readFunctionMap q) := by
  unfold readFunctionMap
  split
  · refine .after (offline_checkFunction q) fun _ => ?_
    rw [bind_pure_comp]
    exact .map (.get _) _
  · exact shape_readPacked _ _ _

theorem shape_clear (a : Access) (s : Selector) (q : UInt16) : a.Shape (a.clear s q) := by
  refine .after (a.offline_checkSelector s) fun _ => ?_
  split
  · next hd => exact .put (Bool.and_eq_true_iff.1 hd).2 q 0
  · exact .simple (by simp)

theorem shape_invalidate (a : Access) (s : Selector) (q : UInt16) :
    a.Shape (a.invalidate s q) := by
  refine .after (a.offline_checkSelector s) fun _ => ?_
  split
  · exact .offline trivial
  · exact .simple (by simp)

theorem shape_writeRecord (s : Selector) (q : UInt16) (record : Record) :
    a.Shape (a.writeRecord s q record) := by
  unfold writeRecord
  split
  · exact shape_writePacked _ _ _ _
  · exact shape_writePacked _ _ _ _
  · exact shape_writePacked _ _ _ _
  · exact shape_writeCompletion q _
  · exact shape_writePacked _ _ _ _
  · exact shape_writeFunctionMap q _
  · exact .offline trivial

theorem shape_readRecord (s : Selector) (q : UInt16) : a.Shape (a.readRecord s q) := by
  cases s with
  | pasidRamLow => exact .offline trivial
  | pasidRamHigh => exact .offline trivial
  | timer => exact .offline trivial
  | functionMap => exact .map (shape_readFunctionMap q) _
  | _ => exact .map (shape_readPacked _ _ _) _

theorem shape_program (s : Selector) (operation : Operation) (q : UInt16)
    (record : Option Record) : a.Shape (a.program s operation q record) := by
  refine .after (a.offline_checkSelector s) fun _ => ?_
  cases operation with
  | clear => exact .map (a.shape_clear s q) fun _ => none
  | write =>
    cases record with
    | none => exact .offline trivial
    | some record => exact .map (shape_writeRecord s q record) fun _ => none
  | read => exact .map (shape_readRecord s q) some
  | invalidate => exact .map (a.shape_invalidate s q) fun _ => none

end DmaQueues.Access
