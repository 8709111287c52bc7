import DmaQueues.Proofs.Word.Mask
import DmaQueues.Word.Segment

/-!
# Bits of scattered values

A segment that `Fits` moves bit `b` of the value to bit `target b` of its word and back
(`source`). So what is stored and what is collected is known bit by bit: a bit of a word is
a bit of the value if a segment occupies it, and a bit of the value comes from the words if
a segment carries it. Segments that occupy no bit twice give back what was stored.
-/

namespace DmaQueues

namespace Segment

def Fits (s : Segment) : Prop :=
  Mask.Contiguous s.mask ∧ s.lsb + s.width ≤ 64

instance (s : Segment) : Decidable s.Fits :=
  inferInstanceAs (Decidable (_ ∧ _))

/-- Bit `j` of word `i` belongs to the segment. -/
def occupies (s : Segment) (i j : Nat) : Bool :=
  s.word == i && s.mask.toNat.testBit j

/-- Bit `b` of the value belongs to the segment. -/
def carries (s : Segment) (b : Nat) : Bool :=
  decide (s.lsb ≤ b ∧ b < s.lsb + s.width)

/-- Where a bit of the value is stored in the word. -/
def target (s : Segment) (b : Nat) : Nat :=
  s.mask.shift + (b - s.lsb)

/-- The bit of the value that is stored at a bit of the word. -/
def source (s : Segment) (j : Nat) : Nat :=
  s.lsb + (j - s.mask.shift)

/-- No bit of a word belongs to both. -/
def Apart (s t : Segment) : Prop :=
  s.word = t.word → s.mask &&& t.mask = 0

instance (s t : Segment) : Decidable (s.Apart t) :=
  inferInstanceAs (Decidable (_ → _))

/-- No bit of the value belongs to both. -/
def Distinct (s t : Segment) : Prop :=
  s.lsb + s.width ≤ t.lsb ∨ t.lsb + t.width ≤ s.lsb

instance (s t : Segment) : Decidable (s.Distinct t) :=
  inferInstanceAs (Decidable (_ ∨ _))

variable {s t : Segment}

theorem carries_iff {b : Nat} : s.carries b = true ↔ s.lsb ≤ b ∧ b < s.lsb + s.width := by
  unfold carries
  exact decide_eq_true_iff

theorem Apart.symm (h : s.Apart t) : t.Apart s := by
  intro hw
  rw [UInt32.and_comm]
  exact h hw.symm

theorem Apart.not_occupies (h : s.Apart t) {i j : Nat} (hs : s.occupies i j = true) :
    t.occupies i j = false := by
  simp only [occupies, Bool.and_eq_true, beq_iff_eq] at hs
  obtain ⟨rfl, hs⟩ := hs
  by_cases hw : t.word = s.word
  · have hand := congrArg (fun v : UInt32 => v.toNat.testBit j) (h hw.symm)
    simp only [UInt32.toNat_and, Nat.testBit_and, hs, Bool.true_and] at hand
    simp [occupies, hand]
  · simp [occupies, hw]

namespace Fits

theorem occupies_iff (h : s.Fits) {i j : Nat} :
    s.occupies i j = true ↔ s.word = i ∧ s.mask.shift ≤ j ∧ j < s.mask.shift + s.width := by
  simp only [occupies, h.1.testBit, width, Bool.and_eq_true, beq_iff_eq, decide_eq_true_eq]

theorem carries_source (h : s.Fits) {i j : Nat} (ho : s.occupies i j = true) :
    s.carries (s.source j) = true ∧ s.target (s.source j) = j := by
  obtain ⟨-, hlo, hhi⟩ := h.occupies_iff.1 ho
  rw [carries_iff]
  unfold source target
  omega

theorem occupies_target (h : s.Fits) {b : Nat} (hc : s.carries b = true) :
    s.occupies s.word (s.target b) = true ∧ s.source (s.target b) = b := by
  rw [carries_iff] at hc
  rw [h.occupies_iff]
  unfold source target
  omega

theorem lsb_lt (h : s.Fits) : s.lsb < 64 := by
  have hpos : 0 < s.width := h.1.width_pos
  have hle := h.2
  omega

theorem width_le (h : s.Fits) : s.width ≤ 32 := by
  have hbound := h.1.bound
  unfold width
  omega

theorem testBit_extract (h : s.Fits) (value : UInt64) (k : Nat) :
    (s.extract value).toNat.testBit k =
      (decide (k < s.width) && value.toNat.testBit (s.lsb + k)) := by
  have hw := h.width_le
  have hlsb := h.lsb_lt
  unfold extract
  rw [if_neg (by omega), UInt64.toNat_toUInt32, Nat.testBit_mod_two_pow, UInt64.toNat_and,
    Nat.testBit_and, testBit_shiftRight64 _ hlsb, testBit_widthMax (by omega)]
  by_cases hk : k < s.width
  · simp [hk, show k < 32 by omega]
  · simp [hk]

/-- A bit that the segment stores in its word. -/
theorem testBit_place (h : s.Fits) (value : UInt64) (j : Nat) :
    (s.mask.place (s.extract value)).toNat.testBit j =
      (s.mask.toNat.testBit j && value.toNat.testBit (s.source j)) := by
  rw [h.1.testBit_place, h.testBit_extract]
  cases hm : s.mask.toNat.testBit j with
  | false => rfl
  | true =>
    rw [h.1.testBit] at hm
    simp only [decide_eq_true_eq] at hm
    have hlt : j - s.mask.shift < s.width := by
      unfold width
      omega
    simp [hlt, source]

theorem testBit_coverage (h : s.Fits) (b : Nat) :
    s.coverage.toNat.testBit b = s.carries b := by
  have hw := h.width_le
  have hlsb := h.lsb_lt
  have hle := h.2
  unfold coverage carries
  rw [if_neg (by omega), testBit_shiftLeft64 _ hlsb, testBit_widthMax (by omega)]
  by_cases hb : s.lsb ≤ b ∧ b < s.lsb + s.width
  · simp [hb, show b < 64 by omega, show b - s.lsb < s.width by omega]
  · rw [decide_eq_false hb]
    by_cases hlo : s.lsb ≤ b
    · simp [show ¬ b - s.lsb < s.width by omega]
    · simp [hlo]

theorem testBit_restore (h : s.Fits) (value : UInt64) (raw : UInt32) (b : Nat) :
    (s.restore value raw).toNat.testBit b =
      (value.toNat.testBit b ||
        (decide (b < 64) && (decide (s.lsb ≤ b) && raw.toNat.testBit (b - s.lsb)))) := by
  have hlsb := h.lsb_lt
  unfold restore
  rw [if_neg (by omega), UInt64.toNat_or, Nat.testBit_or, testBit_shiftLeft64 _ hlsb,
    UInt32.toNat_toUInt64]

end Fits

end Segment

/-- Bit `j` of word `i`; missing words are zero. -/
def wordBit (words : List UInt32) (i j : Nat) : Bool :=
  (words.getD i 0).toNat.testBit j

theorem Segment.Fits.testBit_read {s : Segment} (h : s.Fits) (words : List UInt32) (k : Nat) :
    (s.read words).toNat.testBit k =
      (decide (k < s.width) && wordBit words s.word (s.mask.shift + k)) := by
  unfold read wordBit
  rw [List.getD_eq_getElem?_getD]
  cases words[s.word]? with
  | none => simp
  | some w => exact h.1.testBit_get w k

/-! ## Values in several segments -/

namespace Segments

variable {segs : Segments} {words : List UInt32} {value : UInt64}

theorem testBit_coverage (h : ∀ s ∈ segs, s.Fits) (b : Nat) :
    (coverage segs).toNat.testBit b = segs.any fun s => s.carries b := by
  have hfold : ∀ acc : UInt64,
      (segs.foldl (fun acc s => acc ||| s.coverage) acc).toNat.testBit b =
        (acc.toNat.testBit b || segs.any fun s => s.carries b) := by
    induction segs with
    | nil => simp
    | cons s rest ih =>
      intro acc
      rw [List.foldl_cons, ih (fun t ht => h t (List.mem_cons_of_mem _ ht)), UInt64.toNat_or,
        Nat.testBit_or, (h s List.mem_cons_self).testBit_coverage, List.any_cons, Bool.or_assoc]
  unfold coverage
  rw [hfold, UInt64.toNat_zero, Nat.zero_testBit, Bool.false_or]

theorem testBit_storeAt (h : ∀ s ∈ segs, s.Fits) (value : UInt64) (i : Nat) (word : UInt32)
    (j : Nat) :
    (storeAt segs value i word).toNat.testBit j =
      (word.toNat.testBit j ||
        segs.any fun s => s.occupies i j && value.toNat.testBit (s.source j)) := by
  unfold storeAt
  induction segs generalizing word with
  | nil => simp
  | cons s rest ih =>
    rw [List.foldl_cons, ih (fun t ht => h t (List.mem_cons_of_mem _ ht)), List.any_cons,
      ← Bool.or_assoc]
    congr 1
    by_cases hw : s.word = i
    · rw [if_pos hw, UInt32.toNat_or, Nat.testBit_or,
        (h s List.mem_cons_self).testBit_place]
      simp [Segment.occupies, hw]
    · rw [if_neg hw]
      simp [Segment.occupies, hw]

theorem testBit_collect (h : ∀ s ∈ segs, s.Fits) (words : List UInt32) (b : Nat) :
    (collect words segs).toNat.testBit b =
      segs.any fun s => s.carries b && wordBit words s.word (s.target b) := by
  have hfold : ∀ acc : UInt64,
      (segs.foldl (fun acc s => s.restore acc (s.read words)) acc).toNat.testBit b =
        (acc.toNat.testBit b ||
          segs.any fun s => s.carries b && wordBit words s.word (s.target b)) := by
    induction segs with
    | nil => simp
    | cons s rest ih =>
      intro acc
      have hs := h s List.mem_cons_self
      have hle := hs.2
      rw [List.foldl_cons, ih (fun t ht => h t (List.mem_cons_of_mem _ ht)),
        hs.testBit_restore, hs.testBit_read, List.any_cons, Bool.or_assoc]
      congr 2
      cases hc : s.carries b with
      | true =>
        have hb := Segment.carries_iff.1 hc
        simp [hb.1, show b < 64 by omega, show b - s.lsb < s.width by omega, Segment.target]
      | false =>
        have hb : ¬ (s.lsb ≤ b ∧ b < s.lsb + s.width) := fun hb => by
          rw [Segment.carries_iff.2 hb] at hc
          cases hc
        by_cases hlo : s.lsb ≤ b
        · simp [show ¬ b - s.lsb < s.width by omega]
        · simp [hlo]
  unfold collect
  rw [hfold, UInt64.toNat_zero, Nat.zero_testBit, Bool.false_or]

theorem gather_eq (h : ∀ s ∈ segs, s.Fits) (words : List UInt32) :
    gather words segs = .ok (collect words segs) := by
  have hfold : ∀ acc : UInt64,
      segs.foldlM (fun acc s => s.inject acc (s.read words)) acc =
        (.ok (segs.foldl (fun acc s => s.restore acc (s.read words)) acc) : Checked UInt64) := by
    induction segs with
    | nil => exact fun _ => rfl
    | cons s rest ih =>
      intro acc
      have hlsb := (h s List.mem_cons_self).lsb_lt
      have hinject : s.inject acc (s.read words) = .ok (s.restore acc (s.read words)) :=
        if_neg (by omega)
      rw [List.foldlM_cons, hinject, List.foldl_cons]
      exact ih (fun t ht => h t (List.mem_cons_of_mem _ ht)) _
  exact hfold 0

/-- What is collected lies inside the coverage. -/
theorem collect_covered (h : ∀ s ∈ segs, s.Fits) (words : List UInt32) :
    collect words segs &&& ~~~coverage segs = 0 := by
  refine and_not_eq_zero.2 fun b hb => ?_
  rw [testBit_collect h, List.any_eq_true] at hb
  obtain ⟨s, hs, hc⟩ := hb
  rw [testBit_coverage h, List.any_eq_true]
  exact ⟨s, hs, (Bool.and_eq_true_iff.1 hc).1⟩

/-- A covered value is collected from words that hold its bits in every segment. -/
theorem collect_eq (h : ∀ s ∈ segs, s.Fits) (hv : value &&& ~~~coverage segs = 0)
    (hbits : ∀ s ∈ segs, ∀ j, s.occupies s.word j = true →
      wordBit words s.word j = value.toNat.testBit (s.source j)) :
    collect words segs = value := by
  refine eq_of_testBit64 fun b => ?_
  rw [testBit_collect h]
  have hbit : ∀ s ∈ segs, (s.carries b && wordBit words s.word (s.target b)) =
      (s.carries b && value.toNat.testBit b) := by
    intro s hs
    cases hc : s.carries b with
    | false => rfl
    | true =>
      obtain ⟨ho, hsrc⟩ := (h s hs).occupies_target hc
      rw [hbits s hs _ ho, hsrc]
  cases hvb : value.toNat.testBit b with
  | true =>
    have hcov := and_not_eq_zero.1 hv b hvb
    rw [testBit_coverage h, List.any_eq_true] at hcov
    obtain ⟨s, hs, hc⟩ := hcov
    rw [List.any_eq_true]
    exact ⟨s, hs, by rw [hbit s hs, hc, hvb]; rfl⟩
  | false =>
    rw [List.any_eq_false]
    intro s hs
    rw [hbit s hs, hvb, Bool.and_false]
    exact Bool.false_ne_true

/-- A covered value is stored word by word. -/
theorem scatter_eq (h : ∀ s ∈ segs, s.Fits) (hv : value &&& ~~~coverage segs = 0) :
    scatter words segs value = .ok (words.mapIdx (storeAt segs value)) := by
  have hmasks : ¬ (segs.any fun s => decide (s.word < words.length) && s.mask == 0) = true := by
    intro hany
    obtain ⟨s, hs, hempty⟩ := List.any_eq_true.1 hany
    exact (h s hs).1.1 (beq_iff_eq.1 (Bool.and_eq_true_iff.1 hempty).2)
  unfold scatter
  rw [if_neg (not_not_intro hv), if_neg hmasks]

theorem scatter_error (hv : value &&& ~~~coverage segs ≠ 0) :
    scatter words segs value = .error (.coverageOverflow value (coverage segs)) :=
  if_pos hv

end Segments

end DmaQueues
