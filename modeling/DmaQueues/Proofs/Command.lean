import DmaQueues.Command
import DmaQueues.Proofs.Word.Mask
import DmaQueues.Window

/-!
# Command words

A command whose queue id fits is packed into a word from which it can be read back, since
the fields of the word are apart (`Command.decode?_word`).
-/

namespace DmaQueues

namespace Mask

variable {m : Mask}

theorem Contiguous.fits_iff (h : Contiguous m) {value : UInt64} :
    fits m value = true ↔ value.toNat < 2 ^ width m := by
  have hbound := h.bound
  have hpos := Nat.two_pow_pos (width m)
  unfold fits
  rw [decide_eq_true_iff, UInt64.le_iff_toNat_le, toNat_widthMax (by omega)]
  omega

theorem Contiguous.put_eq (h : Contiguous m) {value : UInt32} (hv : value.toNat < 2 ^ width m) :
    put m value = .ok (place m value) := by
  unfold put
  rw [if_neg h.1, if_pos (h.fits_iff.2 (by simpa using hv))]

/-- A field reads what was placed in it, whatever stands in the rest of the word. -/
theorem Contiguous.get_of_place (h : Contiguous m) {word value : UInt32}
    (hv : value.toNat < 2 ^ width m)
    (hword : ∀ j, m.toNat.testBit j = true →
      word.toNat.testBit j = (place m value).toNat.testBit j) :
    get m word = value := by
  refine eq_of_testBit32 fun k => ?_
  rw [h.testBit_get]
  by_cases hk : k < width m
  · have hm : m.toNat.testBit (shift m + k) = true := by
      rw [h.testBit]
      simpa using hk
    rw [hword _ hm, h.testBit_place, hm]
    simp [hk]
  · rw [Nat.testBit_lt_two_pow (Nat.lt_of_lt_of_le hv (Nat.pow_le_pow_right (by decide)
      (by omega)))]
    simp [hk]

end Mask

namespace Command

variable {c : Command} {qidMask : Mask}

/-- The word of a command. -/
def word (c : Command) (qidMask : Mask) : UInt32 :=
  busyMask ||| selectorMask.place (UInt32.ofNat c.selector.code) |||
    operationMask.place (UInt32.ofNat c.operation.code) ||| Mask.place qidMask c.qid.toUInt32

theorem contiguous_selectorMask : selectorMask.Contiguous := by decide

theorem contiguous_operationMask : operationMask.Contiguous := by decide

theorem selector_code_lt (s : Selector) : (UInt32.ofNat s.code).toNat < 2 ^ selectorMask.width := by
  cases s <;> decide

theorem operation_code_lt (op : Operation) :
    (UInt32.ofNat op.code).toNat < 2 ^ operationMask.width := by
  cases op <;> decide

theorem qid_lt (h : qidMask.Contiguous) (hq : Mask.fits qidMask c.qid.toUInt64 = true) :
    c.qid.toUInt32.toNat < 2 ^ qidMask.width := by
  have hlt := h.fits_iff.1 hq
  simpa using hlt

theorem encode_eq (h : qidMask.Contiguous) (hq : Mask.fits qidMask c.qid.toUInt64 = true) :
    (c.encode qidMask).run = .ok (.ok (c.word qidMask)) := by
  have hs := contiguous_selectorMask.put_eq (selector_code_lt c.selector)
  have ho := contiguous_operationMask.put_eq (operation_code_lt c.operation)
  have hp := h.put_eq (qid_lt h hq)
  unfold encode
  rw [hq, hs, ho, hp]
  rfl

theorem encode_error (hq : Mask.fits qidMask c.qid.toUInt64 = false) :
    (c.encode qidMask).run = .ok (.error .invalidParameter) := by
  unfold encode
  rw [hq]
  rfl

/-- The parts of a word are apart, so each bit of it comes from one of them. -/
theorem testBit_word (h : qidMask.Contiguous) (c : Command) (j : Nat) :
    (c.word qidMask).toNat.testBit j =
      (busyMask.toNat.testBit j ||
        selectorMask.toNat.testBit j &&
          (UInt32.ofNat c.selector.code).toNat.testBit (j - selectorMask.shift) ||
        operationMask.toNat.testBit j &&
          (UInt32.ofNat c.operation.code).toNat.testBit (j - operationMask.shift) ||
        qidMask.toNat.testBit j && c.qid.toUInt32.toNat.testBit (j - qidMask.shift)) := by
  unfold word
  simp only [UInt32.toNat_or, Nat.testBit_or, contiguous_selectorMask.testBit_place,
    contiguous_operationMask.testBit_place, h.testBit_place]

theorem testBit_busyMask (j : Nat) : busyMask.toNat.testBit j = decide (j < 1) := by
  rw [show busyMask.toNat = 2 ^ 1 - 1 by decide, Nat.testBit_two_pow_sub_one]

theorem testBit_selectorMask (j : Nat) :
    selectorMask.toNat.testBit j = decide (1 ≤ j ∧ j < 5) := by
  rw [contiguous_selectorMask.testBit, show selectorMask.shift = 1 by decide,
    show selectorMask.width = 4 by decide]

theorem testBit_operationMask (j : Nat) :
    operationMask.toNat.testBit j = decide (5 ≤ j ∧ j < 7) := by
  rw [contiguous_operationMask.testBit, show operationMask.shift = 5 by decide,
    show operationMask.width = 2 by decide]

/-- A command survives its word if the queue id stands above the other fields. -/
theorem decode?_word (h : qidMask.Contiguous) (hlow : 7 ≤ qidMask.shift)
    (hq : Mask.fits qidMask c.qid.toUInt64 = true) : decode? (c.word qidMask) qidMask = some c := by
  have hselector : selectorMask.get (c.word qidMask) = UInt32.ofNat c.selector.code := by
    refine contiguous_selectorMask.get_of_place (selector_code_lt _) fun j hj => ?_
    rw [testBit_word h, contiguous_selectorMask.testBit_place, hj]
    rw [testBit_selectorMask, decide_eq_true_iff] at hj
    rw [testBit_busyMask, testBit_operationMask, h.testBit, decide_eq_false (by omega),
      decide_eq_false (by omega), decide_eq_false (by omega)]
    simp
  have hoperation : operationMask.get (c.word qidMask) = UInt32.ofNat c.operation.code := by
    refine contiguous_operationMask.get_of_place (operation_code_lt _) fun j hj => ?_
    rw [testBit_word h, contiguous_operationMask.testBit_place, hj]
    rw [testBit_operationMask, decide_eq_true_iff] at hj
    rw [testBit_busyMask, testBit_selectorMask, h.testBit, decide_eq_false (by omega),
      decide_eq_false (by omega), decide_eq_false (by omega)]
    simp
  have hqid : Mask.get qidMask (c.word qidMask) = c.qid.toUInt32 := by
    refine h.get_of_place (qid_lt h hq) fun j hj => ?_
    rw [testBit_word h, h.testBit_place, hj]
    rw [h.testBit, decide_eq_true_iff] at hj
    rw [testBit_busyMask, testBit_selectorMask, testBit_operationMask, decide_eq_false (by omega),
      decide_eq_false (by omega), decide_eq_false (by omega)]
    simp
  have hscode : (UInt32.ofNat c.selector.code).toNat = c.selector.code := by
    cases c.selector <;> rfl
  have hocode : (UInt32.ofNat c.operation.code).toNat = c.operation.code := by
    cases c.operation <;> rfl
  unfold decode?
  rw [hselector, hoperation, hqid, hscode, hocode, Selector.ofCode?_code, Operation.ofCode?_code]
  show some (Command.mk _ _ _) = some c
  rw [UInt16.toUInt16_toUInt32]

end Command

end DmaQueues
