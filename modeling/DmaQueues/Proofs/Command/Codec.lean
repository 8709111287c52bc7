import DmaQueues.Proofs.Command

/-!
# Command words in both directions

A command is packed exactly if its queue id fits the mask, and its word gives the command back. The
other way round, a word is unpacked exactly if its selector code is in use; if the word has no bit
beside its fields, the command is packed into the word again, with the busy bit set
(`command_words_are_exact`).
-/

namespace DmaQueues

namespace Mask

variable {m : Mask}

/-- What was read from a field, placed again, is the field. -/
theorem Contiguous.place_get (h : Contiguous m) (word : UInt32) :
    place m (get m word) = word &&& m := by
  refine eq_of_testBit32 fun j => ?_
  rw [h.testBit_place, h.testBit_get, UInt32.toNat_and, Nat.testBit_and, h.testBit]
  by_cases hj : shift m ≤ j ∧ j < shift m + width m
  · have hback : shift m + (j - shift m) = j := by omega
    have hlt : j - shift m < width m := by omega
    simp [hj, hback, hlt]
  · simp [hj]

theorem Contiguous.get_lt (h : Contiguous m) (word : UInt32) :
    (get m word).toNat < 2 ^ width m := by
  refine Nat.lt_pow_two_of_testBit _ fun k hk => ?_
  rw [h.testBit_get, decide_eq_false (by omega), Bool.false_and]

end Mask

theorem Selector.code_of_ofCode? {code : Nat} {s : Selector} (h : ofCode? code = some s) :
    s.code = code := by
  have hall : ∀ i : Fin all.length, (all.get i).code = i := by decide
  obtain ⟨hlt, rfl⟩ := List.getElem?_eq_some_iff.1 h
  exact hall ⟨code, hlt⟩

theorem Selector.ofCode?_eq_none {code : Nat} : ofCode? code = none ↔ 12 < code :=
  List.getElem?_eq_none_iff

theorem Operation.code_of_ofCode? {code : Nat} {op : Operation} (h : ofCode? code = some op) :
    op.code = code := by
  unfold ofCode? at h
  split at h <;> cases h <;> rfl

theorem Operation.exists_ofCode? {code : Nat} (h : code < 4) : ∃ op, ofCode? code = some op := by
  match code with
  | 0 => exact ⟨clear, rfl⟩
  | 1 => exact ⟨write, rfl⟩
  | 2 => exact ⟨read, rfl⟩
  | 3 => exact ⟨invalidate, rfl⟩

namespace Command

variable {c : Command} {qidMask : Mask} {word : UInt32}

/-- The bits of a command word that belong to a field. -/
def fieldBits (qidMask : Mask) : UInt32 :=
  busyMask ||| selectorMask ||| operationMask ||| qidMask

theorem seven_le_shift (h : qidMask.Contiguous) (hplace : qidMask &&& ~~~Mask.ones 31 7 = 0) :
    7 ≤ qidMask.shift := by
  have hones : (Mask.ones 31 7).Contiguous := by decide
  have hbit := and_not_eq_zero32.1 hplace qidMask.shift
  have hpos := h.width_pos
  rw [h.testBit, hones.testBit, show (Mask.ones 31 7).shift = 7 by decide,
    decide_eq_true_iff, decide_eq_true_iff] at hbit
  exact (hbit ⟨Nat.le_refl _, by omega⟩).1

/-! ## Packing -/

theorem encode_exact (h : qidMask.Contiguous) (c : Command) :
    (c.encode qidMask).run =
      if c.qid.toNat < 2 ^ qidMask.width then .ok (.ok (c.word qidMask))
      else .ok (.error .invalidParameter) := by
  have hfits : Mask.fits qidMask c.qid.toUInt64 = true ↔ c.qid.toNat < 2 ^ qidMask.width := by
    rw [h.fits_iff, UInt16.toNat_toUInt64]
  split
  next hq => exact encode_eq h (hfits.2 hq)
  next hq => exact encode_error (Bool.eq_false_iff.2 fun hfit => hq (hfits.1 hfit))

/-- A word is busy and has the bits of its fields only. -/
theorem word_fieldBits (h : qidMask.Contiguous) (c : Command) :
    c.word qidMask &&& busyMask = busyMask ∧ c.word qidMask &&& ~~~fieldBits qidMask = 0 := by
  constructor
  · refine eq_of_testBit32 fun j => ?_
    rw [UInt32.toNat_and, Nat.testBit_and, testBit_word h]
    cases busyMask.toNat.testBit j <;> simp
  · refine and_not_eq_zero32.2 fun j hj => ?_
    rw [testBit_word h] at hj
    simp only [fieldBits, UInt32.toNat_or, Nat.testBit_or]
    simp only [Bool.or_eq_true, Bool.and_eq_true] at hj ⊢
    tauto

/-! ## Unpacking -/

theorem decode?_eq_some (hd : decode? word qidMask = some c) :
    c.selector.code = (selectorMask.get word).toNat ∧
      c.operation.code = (operationMask.get word).toNat ∧
      c.qid = (Mask.get qidMask word).toUInt16 := by
  unfold decode? at hd
  obtain ⟨s, hs, hd⟩ := Option.bind_eq_some_iff.1 hd
  obtain ⟨op, hop, hd⟩ := Option.bind_eq_some_iff.1 hd
  cases hd
  exact ⟨Selector.code_of_ofCode? hs, Operation.code_of_ofCode? hop, rfl⟩

theorem decode?_eq_none (word : UInt32) (qidMask : Mask) :
    decode? word qidMask = none ↔ 12 < (selectorMask.get word).toNat := by
  have hwidth : operationMask.width = 2 := by decide
  have hlt := contiguous_operationMask.get_lt word
  rw [hwidth] at hlt
  obtain ⟨op, hop⟩ := Operation.exists_ofCode? hlt
  rw [← Selector.ofCode?_eq_none]
  unfold decode?
  rw [hop]
  cases Selector.ofCode? (selectorMask.get word).toNat with
  | none => exact ⟨fun _ => rfl, fun _ => rfl⟩
  | some s => simp

/-- A command that was unpacked from a word with no bit beside its fields is packed into it. -/
theorem word_of_decode? (h : qidMask.Contiguous) (hwidth : qidMask.width ≤ 16)
    (hword : word &&& ~~~fieldBits qidMask = 0) (hd : decode? word qidMask = some c) :
    c.word qidMask = word ||| busyMask := by
  obtain ⟨hselector, hoperation, hqid⟩ := decode?_eq_some hd
  have hlt : (Mask.get qidMask word).toNat < 2 ^ 16 :=
    (h.get_lt word).trans_le (Nat.pow_le_pow_right (by decide) hwidth)
  have hqid' : c.qid.toUInt32 = Mask.get qidMask word := by
    rw [hqid, ← UInt32.toNat_inj, UInt16.toNat_toUInt32, UInt32.toNat_toUInt16,
      Nat.mod_eq_of_lt hlt]
  unfold Command.word
  rw [hselector, hoperation, hqid', UInt32.ofNat_toNat, UInt32.ofNat_toNat,
    contiguous_selectorMask.place_get, contiguous_operationMask.place_get, h.place_get]
  refine eq_of_testBit32 fun j => ?_
  have hbit := and_not_eq_zero32.1 hword j
  simp only [fieldBits, UInt32.toNat_or, UInt32.toNat_and, Nat.testBit_or,
    Nat.testBit_and] at hbit ⊢
  cases hj : word.toNat.testBit j with
  | false => simp
  | true =>
    have hfields := hbit hj
    revert hfields
    cases busyMask.toNat.testBit j <;> simp

/-! ## Both directions -/

/-- For a queue id field of any place and width above the other fields: a command is packed exactly
if its queue id fits, into a busy word with no bit beside the fields that is unpacked to the
command, so no two commands share a word. If the field has at most 16 bits, a word with no bit
beside the fields is unpacked unless its selector code is not in use, and then it is, but for the
busy bit, the word of what was unpacked. -/
theorem command_words_are_exact (h : qidMask.Contiguous)
    (hplace : qidMask &&& ~~~Mask.ones 31 7 = 0) :
    (∀ c : Command,
      if c.qid.toNat < 2 ^ qidMask.width then
        ∃ word, (c.encode qidMask).run = .ok (.ok word) ∧ word &&& busyMask = busyMask ∧
          word &&& ~~~fieldBits qidMask = 0 ∧ decode? word qidMask = some c
      else (c.encode qidMask).run = .ok (.error .invalidParameter)) ∧
    (∀ (c c' : Command) (word : UInt32), (c.encode qidMask).run = .ok (.ok word) →
      (c'.encode qidMask).run = .ok (.ok word) → c = c') ∧
    (qidMask.width ≤ 16 → ∀ word : UInt32, word &&& ~~~fieldBits qidMask = 0 →
      (decode? word qidMask = none ↔ 12 < (selectorMask.get word).toNat) ∧
      ∀ c, decode? word qidMask = some c →
        (c.encode qidMask).run = .ok (.ok (word ||| busyMask))) := by
  have hlow : 7 ≤ qidMask.shift := seven_le_shift h hplace
  have hdecode : ∀ c : Command, c.qid.toNat < 2 ^ qidMask.width →
      decode? (c.word qidMask) qidMask = some c := fun c hq =>
    decode?_word h hlow (h.fits_iff.2 (by rwa [UInt16.toNat_toUInt64]))
  have hencoded : ∀ (c : Command) (word : UInt32), (c.encode qidMask).run = .ok (.ok word) →
      c.qid.toNat < 2 ^ qidMask.width ∧ word = c.word qidMask := by
    intro c word hc
    rw [encode_exact h] at hc
    split at hc
    next hq => exact ⟨hq, (Except.ok.inj (Except.ok.inj hc)).symm⟩
    next => cases hc
  refine ⟨fun c => ?_, fun c c' word hc hc' => ?_, fun hwidth word hword => ⟨?_, fun c hd => ?_⟩⟩
  · rw [encode_exact h]
    split
    next hq =>
      exact ⟨c.word qidMask, rfl, (word_fieldBits h c).1, (word_fieldBits h c).2, hdecode c hq⟩
    next => rfl
  · obtain ⟨hq, rfl⟩ := hencoded c word hc
    obtain ⟨hq', hsame⟩ := hencoded c' _ hc'
    have hd := hdecode c hq
    rw [hsame, hdecode c' hq'] at hd
    exact (Option.some.inj hd).symm
  · exact decode?_eq_none word qidMask
  · have hq : c.qid.toNat < 2 ^ qidMask.width := by
      rw [(decode?_eq_some hd).2.2, UInt32.toNat_toUInt16]
      exact (Nat.mod_le _ _).trans_lt (h.get_lt word)
    rw [encode_exact h, if_pos hq, word_of_decode? h hwidth hword hd]

/-- Queue ids in bits 23 to 16. -/
theorem byte_ids_are_exact :
    (∃ word, (encode ⟨.functionMap, .read, 255⟩ 0xFF0000).run = .ok (.ok word) ∧
      decode? word 0xFF0000 = some ⟨.functionMap, .read, 255⟩) ∧
    (encode ⟨.functionMap, .read, 256⟩ 0xFF0000).run = .ok (.error .invalidParameter) ∧
    decode? 0x1A 0xFF0000 = none ∧
    (encode ⟨.timer, .invalidate, 9⟩ 0xFF0000).run = .ok (.ok (0x90076 ||| busyMask)) := by
  have hmask : Mask.Contiguous 0xFF0000 := by decide
  obtain ⟨hpack, -, hunpack⟩ := command_words_are_exact hmask (by decide)
  have hnarrow : Mask.width 0xFF0000 ≤ 16 := by decide
  have hfits := hpack ⟨.functionMap, .read, 255⟩
  have hwide := hpack ⟨.functionMap, .read, 256⟩
  rw [if_pos (by decide)] at hfits
  rw [if_neg (by decide)] at hwide
  obtain ⟨word, hword, -, -, hd⟩ := hfits
  exact ⟨⟨word, hword, hd⟩, hwide,
    (hunpack hnarrow 0x1A (by decide)).1.2 (by decide),
    (hunpack hnarrow 0x90076 (by decide)).2 _ (by decide)⟩

end Command

end DmaQueues
