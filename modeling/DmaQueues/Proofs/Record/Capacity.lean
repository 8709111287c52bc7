import DmaQueues.Proofs.Record.Lawful
import DmaQueues.Proofs.Word.Mask

/-!
# Capacity of fields

A field that is built from a number keeps only so much of it: an integer field its lowest
bits, a flag whether the number is zero. A number without a bit beyond the capacity of the
field is kept as it is (`SizedFields`).
-/

namespace DmaQueues

/-- The largest number that a field holds. -/
def Fields.capacity (R : Type) {F : Type} [Fields R F] (f : F) : UInt64 :=
  Fields.get (Fields.ofValues (fun _ => ~~~0) : R) f

class SizedFields (R : Type) {F : outParam Type} [Fields R F] : Prop where
  get_ofValues : ∀ (v : F → UInt64) (f : F), v f &&& ~~~Fields.capacity R f = 0 →
    Fields.get (Fields.ofValues v : R) f = v f

/-! ## Numbers in the types of fields -/

/-- A number whose bits are all below `n` is below `2 ^ n`. -/
theorem lt_two_pow_of_masked {x : UInt64} {n : Nat} {c : UInt64} (hc : c.toNat = 2 ^ n - 1)
    (h : x &&& ~~~c = 0) : x.toNat < 2 ^ n := by
  refine Nat.lt_pow_two_of_testBit _ fun j hj => ?_
  cases hx : x.toNat.testBit j with
  | false => rfl
  | true =>
    have hbit := and_not_eq_zero.1 h j hx
    rw [hc, Nat.testBit_two_pow_sub_one, decide_eq_true_eq] at hbit
    omega

theorem toUInt64_flag {x : UInt64} (h : x &&& ~~~1 = 0) : (x != 0).toUInt64 = x := by
  have hx : x.toNat < 2 ^ 1 := lt_two_pow_of_masked rfl h
  obtain h0 | h1 : x.toNat = 0 ∨ x.toNat = 1 := by omega
  · rw [UInt64.toNat_inj.1 (h0.trans UInt64.toNat_zero.symm)]
    rfl
  · rw [UInt64.toNat_inj.1 (h1.trans UInt64.toNat_one.symm)]
    rfl

theorem toUInt64_toUInt8 {x : UInt64} (h : x &&& ~~~0xFF = 0) : x.toUInt8.toUInt64 = x := by
  have hx : x.toNat < 2 ^ 8 := lt_two_pow_of_masked rfl h
  refine UInt64.toNat_inj.1 ?_
  rw [UInt8.toNat_toUInt64, UInt64.toNat_toUInt8, Nat.mod_eq_of_lt hx]

theorem toUInt64_toUInt16 {x : UInt64} (h : x &&& ~~~0xFFFF = 0) :
    x.toUInt16.toUInt64 = x := by
  have hx : x.toNat < 2 ^ 16 := lt_two_pow_of_masked rfl h
  refine UInt64.toNat_inj.1 ?_
  rw [UInt16.toNat_toUInt64, UInt64.toNat_toUInt16, Nat.mod_eq_of_lt hx]

theorem toUInt64_toUInt32 {x : UInt64} (h : x &&& ~~~0xFFFFFFFF = 0) :
    x.toUInt32.toUInt64 = x := by
  have hx : x.toNat < 2 ^ 32 := lt_two_pow_of_masked rfl h
  refine UInt64.toNat_inj.1 ?_
  rw [UInt32.toNat_toUInt64, UInt64.toNat_toUInt32, Nat.mod_eq_of_lt hx]

/-! ## Records -/

instance : SizedFields SoftwareContext where
  get_ofValues v f h := by
    cases f <;> first
      | exact toUInt64_flag h
      | exact toUInt64_toUInt8 h
      | exact toUInt64_toUInt16 h
      | exact toUInt64_toUInt32 h
      | rfl

instance : SizedFields HardwareContext where
  get_ofValues v f h := by
    cases f <;> first
      | exact toUInt64_flag h
      | exact toUInt64_toUInt8 h
      | exact toUInt64_toUInt16 h

instance : SizedFields CreditContext where
  get_ofValues v f h := by cases f; exact toUInt64_toUInt16 h

instance : SizedFields PrefetchContext where
  get_ofValues v f h := by
    cases f <;> first
      | exact toUInt64_flag h
      | exact toUInt64_toUInt8 h
      | exact toUInt64_toUInt16 h

instance : SizedFields CompletionContext where
  get_ofValues v f h := by
    cases f <;> first
      | exact toUInt64_flag h
      | exact toUInt64_toUInt8 h
      | exact toUInt64_toUInt16 h
      | exact toUInt64_toUInt32 h
      | rfl

instance : SizedFields InterruptContext where
  get_ofValues v f h := by
    cases f <;> first
      | exact toUInt64_flag h
      | exact toUInt64_toUInt8 h
      | exact toUInt64_toUInt16 h
      | exact toUInt64_toUInt32 h
      | rfl

instance : SizedFields FunctionMap where
  get_ofValues v f h := by cases f <;> exact toUInt64_toUInt16 h

instance (k : RecordKind) : SizedFields k.Contents :=
  match k with
  | .software => inferInstanceAs (SizedFields SoftwareContext)
  | .hardware => inferInstanceAs (SizedFields HardwareContext)
  | .credit => inferInstanceAs (SizedFields CreditContext)
  | .prefetch => inferInstanceAs (SizedFields PrefetchContext)
  | .completion => inferInstanceAs (SizedFields CompletionContext)
  | .interrupt => inferInstanceAs (SizedFields InterruptContext)
  | .functionMap => inferInstanceAs (SizedFields FunctionMap)

end DmaQueues
