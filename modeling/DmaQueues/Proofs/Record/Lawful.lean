import DmaQueues.Record.Kind

/-!
# Lawful fields

A record is determined by its fields, and what a field of a built record reads depends on
the number given for that field only. The records of all kinds are lawful;
`RecordKind.Contents` and `RecordKind.Field` are their types, so that one statement can be
about any of them.
-/

namespace DmaQueues

class LawfulFields (R : Type) {F : outParam Type} [Fields R F] : Prop where
  ofValues_get : ∀ r : R, Fields.ofValues (Fields.get r) = r
  get_zero : ∀ f : F, Fields.get (Fields.zero : R) f = 0
  get_congr : ∀ (v w : F → UInt64) (f : F), v f = w f →
    Fields.get (Fields.ofValues v : R) f = Fields.get (Fields.ofValues w : R) f

namespace LawfulFields

variable {R F : Type} [Fields R F] [LawfulFields R]

/-- A field that is given its own number. -/
theorem get_of_eq {r : R} {v : F → UInt64} {f : F} (h : v f = Fields.get r f) :
    Fields.get (Fields.ofValues v : R) f = Fields.get r f := by
  rw [get_congr v (Fields.get r) f h, ofValues_get]

theorem get_of_zero {v : F → UInt64} {f : F} (h : v f = 0) :
    Fields.get (Fields.ofValues v : R) f = 0 :=
  (get_congr v (fun _ => 0) f h).trans (get_zero f)

theorem ext {r r' : R} (h : ∀ f, Fields.get r f = Fields.get r' f) : r = r' := by
  rw [← ofValues_get r, ← ofValues_get r', funext h]

end LawfulFields

@[simp] theorem toUInt64_ne_zero (b : Bool) : (b.toUInt64 != 0) = b := by
  cases b <;> rfl

instance : LawfulFields SoftwareContext where
  ofValues_get r := by simp [Fields.ofValues, Fields.get]
  get_zero f := by cases f <;> rfl
  get_congr v w f h := by cases f <;> simp only [Fields.get, Fields.ofValues, h]

instance : LawfulFields HardwareContext where
  ofValues_get r := by simp [Fields.ofValues, Fields.get]
  get_zero f := by cases f <;> rfl
  get_congr v w f h := by cases f <;> simp only [Fields.get, Fields.ofValues, h]

instance : LawfulFields CreditContext where
  ofValues_get r := by simp [Fields.ofValues, Fields.get]
  get_zero f := by cases f; rfl
  get_congr v w f h := by cases f; simp only [Fields.get, Fields.ofValues, h]

instance : LawfulFields PrefetchContext where
  ofValues_get r := by simp [Fields.ofValues, Fields.get]
  get_zero f := by cases f <;> rfl
  get_congr v w f h := by cases f <;> simp only [Fields.get, Fields.ofValues, h]

instance : LawfulFields CompletionContext where
  ofValues_get r := by simp [Fields.ofValues, Fields.get]
  get_zero f := by cases f <;> rfl
  get_congr v w f h := by cases f <;> simp only [Fields.get, Fields.ofValues, h]

instance : LawfulFields InterruptContext where
  ofValues_get r := by simp [Fields.ofValues, Fields.get]
  get_zero f := by cases f <;> rfl
  get_congr v w f h := by cases f <;> simp only [Fields.get, Fields.ofValues, h]

instance : LawfulFields FunctionMap where
  ofValues_get r := by simp [Fields.ofValues, Fields.get]
  get_zero f := by cases f <;> rfl
  get_congr v w f h := by cases f <;> simp only [Fields.get, Fields.ofValues, h]

namespace RecordKind

def Contents : RecordKind → Type
  | software => SoftwareContext
  | hardware => HardwareContext
  | credit => CreditContext
  | prefetch => PrefetchContext
  | completion => CompletionContext
  | interrupt => InterruptContext
  | functionMap => FunctionMap

def Field : RecordKind → Type
  | software => SoftwareField
  | hardware => HardwareField
  | credit => CreditField
  | prefetch => PrefetchField
  | completion => CompletionField
  | interrupt => InterruptField
  | functionMap => FunctionMapField

instance (k : RecordKind) : DecidableEq k.Field :=
  match k with
  | software => inferInstanceAs (DecidableEq SoftwareField)
  | hardware => inferInstanceAs (DecidableEq HardwareField)
  | credit => inferInstanceAs (DecidableEq CreditField)
  | prefetch => inferInstanceAs (DecidableEq PrefetchField)
  | completion => inferInstanceAs (DecidableEq CompletionField)
  | interrupt => inferInstanceAs (DecidableEq InterruptField)
  | functionMap => inferInstanceAs (DecidableEq FunctionMapField)

instance (k : RecordKind) : Fields k.Contents k.Field :=
  match k with
  | software => inferInstanceAs (Fields SoftwareContext SoftwareField)
  | hardware => inferInstanceAs (Fields HardwareContext HardwareField)
  | credit => inferInstanceAs (Fields CreditContext CreditField)
  | prefetch => inferInstanceAs (Fields PrefetchContext PrefetchField)
  | completion => inferInstanceAs (Fields CompletionContext CompletionField)
  | interrupt => inferInstanceAs (Fields InterruptContext InterruptField)
  | functionMap => inferInstanceAs (Fields FunctionMap FunctionMapField)

instance (k : RecordKind) : LawfulFields k.Contents :=
  match k with
  | software => inferInstanceAs (LawfulFields SoftwareContext)
  | hardware => inferInstanceAs (LawfulFields HardwareContext)
  | credit => inferInstanceAs (LawfulFields CreditContext)
  | prefetch => inferInstanceAs (LawfulFields PrefetchContext)
  | completion => inferInstanceAs (LawfulFields CompletionContext)
  | interrupt => inferInstanceAs (LawfulFields InterruptContext)
  | functionMap => inferInstanceAs (LawfulFields FunctionMap)

end RecordKind

end DmaQueues
