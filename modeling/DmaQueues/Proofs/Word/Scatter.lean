import DmaQueues.Proofs.Checked
import DmaQueues.Proofs.Word.Segment
import Mathlib.Data.List.Pairwise

/-!
# Storing a value in place

`Segments.storeEach` puts the slices of a value into words one after the other, and a fault leaves
behind what was stored before it. It does what `scatter` does to the words as a whole
(`scatter_eq_inPlace`). So a value that is not covered is refused before a word changes, and a
covered one is gathered again from words that were clear under the masks, as long as no bit of a
word belongs to two segments (`stored_value_is_gathered`).
-/

namespace DmaQueues

/-! ## One slice -/

/-- A slice is no wider than the mask it is put under. -/
theorem Segment.put_extract {s : Segment} (h : s.mask ≠ 0) (value : UInt64) :
    s.mask.put (s.extract value) = .ok (s.mask.place (s.extract value)) := by
  have hwidth : s.width ≤ 32 := by
    have hle := List.countP_le_length (p := fun i => s.mask.toNat.testBit i) (l := List.range 32)
    rwa [List.length_range] at hle
  have hfits : Mask.fits s.mask (s.extract value).toUInt64 = true := by
    unfold Mask.fits
    rw [decide_eq_true_iff, UInt64.le_iff_toNat_le, UInt32.toNat_toUInt64]
    unfold extract
    split
    · exact Nat.zero_le _
    · rw [UInt64.toNat_toUInt32, UInt64.toNat_and]
      exact (Nat.mod_le _ _).trans Nat.and_le_right
  unfold Mask.put
  rw [if_neg h, if_pos hfits]

namespace Segments

/-! ## The slices in turn -/

/-- Puts the slices of `value` into the words in turn. A segment of a word that is not there is
skipped. -/
def storeEach (value : UInt64) : Segments → List UInt32 → Checked Unit × List UInt32
  | [], words => (.ok (), words)
  | s :: rest, words =>
    match words[s.word]? with
    | none => storeEach value rest words
    | some word =>
      match s.mask.put (s.extract value) with
      | .ok slice => storeEach value rest (words.set s.word (word ||| slice))
      | .error fault => (.error fault, words)

/-- Stores `value` in place, and the words afterwards, also after a fault. -/
def scatterInPlace (words : List UInt32) (segs : Segments) (value : UInt64) :
    Checked Unit × List UInt32 :=
  if value &&& ~~~segs.coverage ≠ 0 then
    (.error (.coverageOverflow value segs.coverage), words)
  else
    segs.storeEach value words

variable {segs : Segments} {words : List UInt32} {value : UInt64}

theorem storeAt_cons (s : Segment) (rest : Segments) (value : UInt64) (i : Nat) (word : UInt32) :
    storeAt (s :: rest) value i word =
      storeAt rest value i (if s.word = i then word ||| s.mask.place (s.extract value) else word) :=
  rfl

/-- Storing the first slice and then the others word by word stores all of them. -/
theorem mapIdx_storeAt_cons {s : Segment} {word : UInt32} (hw : words[s.word]? = some word)
    (rest : Segments) (value : UInt64) :
    (words.set s.word (word ||| s.mask.place (s.extract value))).mapIdx (storeAt rest value) =
      words.mapIdx (storeAt (s :: rest) value) := by
  refine List.ext_getElem? fun i => ?_
  rw [List.getElem?_mapIdx, List.getElem?_mapIdx, List.getElem?_set]
  by_cases hi : s.word = i
  · subst hi
    obtain ⟨hlt, -⟩ := List.getElem?_eq_some_iff.1 hw
    rw [if_pos rfl, if_pos hlt, hw, Option.map_some, Option.map_some, storeAt_cons, if_pos rfl]
  · rw [if_neg hi]
    cases words[i]? with
    | none => rfl
    | some other => rw [Option.map_some, Option.map_some, storeAt_cons, if_neg hi]

theorem mapIdx_storeAt_missing {s : Segment} (hw : words[s.word]? = none) (rest : Segments)
    (value : UInt64) :
    words.mapIdx (storeAt rest value) = words.mapIdx (storeAt (s :: rest) value) := by
  refine List.ext_getElem? fun i => ?_
  rw [List.getElem?_mapIdx, List.getElem?_mapIdx]
  cases hword : words[i]? with
  | none => rfl
  | some other =>
    have hi : s.word ≠ i := fun hi => by
      rw [hi, hword] at hw
      cases hw
    rw [Option.map_some, Option.map_some, storeAt_cons, if_neg hi]

/-- The slices in turn are the slices word by word, unless one of them has a word and no mask. -/
theorem storeEach_eq (segs : Segments) (value : UInt64) (words : List UInt32) :
    if segs.any fun s => decide (s.word < words.length) && s.mask == 0 then
      (segs.storeEach value words).1 = .error .emptyMask
    else segs.storeEach value words = (.ok (), words.mapIdx (storeAt segs value)) := by
  induction segs generalizing words with
  | nil =>
    have hid : words.mapIdx (storeAt [] value) = words := by
      simp [storeAt, List.mapIdx_eq_zipIdx_map]
    simp [storeEach, hid]
  | cons s rest ih =>
    unfold storeEach
    cases hw : words[s.word]? with
    | none =>
      have hmissing : ¬ s.word < words.length := by
        rw [List.getElem?_eq_none_iff] at hw
        omega
      simp only [List.any_cons, hmissing, decide_false, Bool.false_and, Bool.false_or]
      rw [← mapIdx_storeAt_missing hw]
      exact ih words
    | some word =>
      have hlt : s.word < words.length := (List.getElem?_eq_some_iff.1 hw).1
      simp only [List.any_cons, hlt, decide_true, Bool.true_and]
      by_cases hmask : s.mask = 0
      · simp [hmask, Mask.put]
      · have hrest := ih (words.set s.word (word ||| s.mask.place (s.extract value)))
        rw [List.length_set, mapIdx_storeAt_cons hw] at hrest
        simp only [Segment.put_extract hmask, beq_eq_false_iff_ne.2 hmask, Bool.false_or]
        exact hrest

/-- Storing in place is `scatter`. -/
theorem scatter_eq_inPlace (words : List UInt32) (segs : Segments) (value : UInt64) :
    scatter words segs value =
      (fun _ => (scatterInPlace words segs value).2) <$> (scatterInPlace words segs value).1 := by
  unfold scatter scatterInPlace
  by_cases hv : value &&& ~~~segs.coverage ≠ 0
  · rw [if_pos hv, if_pos hv]
    rfl
  · rw [if_neg hv, if_neg hv]
    have hstore := storeEach_eq segs value words
    split
    next hmask =>
      rw [if_pos hmask] at hstore
      rw [hstore]
      rfl
    next hmask =>
      rw [if_neg hmask] at hstore
      rw [hstore]
      rfl

/-! ## Values that are stored and gathered -/

/-- A bit after storing is the bit before, or a bit of the value if a segment occupies it. -/
theorem wordBit_stored (h : ∀ s ∈ segs, s.Fits) (value : UInt64) {i : Nat} (hi : i < words.length)
    (j : Nat) :
    wordBit (words.mapIdx (storeAt segs value)) i j =
      (wordBit words i j ||
        segs.any fun s => s.occupies i j && value.toNat.testBit (s.source j)) := by
  unfold wordBit
  rw [List.getD_eq_getElem?_getD, List.getD_eq_getElem?_getD, List.getElem?_mapIdx,
    List.getElem?_eq_getElem hi]
  exact testBit_storeAt h value i _ j

/-- Only bits under the masks are stored to. -/
theorem wordBit_stored_other (h : ∀ s ∈ segs, s.Fits) (value : UInt64) {i j : Nat}
    (hother : ∀ s ∈ segs, s.occupies i j = false) :
    wordBit (words.mapIdx (storeAt segs value)) i j = wordBit words i j := by
  by_cases hi : i < words.length
  · have hnone : (segs.any fun s => s.occupies i j && value.toNat.testBit (s.source j)) = false :=
      List.any_eq_false.2 fun s hs => by simp [hother s hs]
    rw [wordBit_stored h value hi, hnone, Bool.or_false]
  · have hmissing : words[i]? = none := List.getElem?_eq_none (by omega)
    unfold wordBit
    rw [List.getD_eq_getElem?_getD, List.getD_eq_getElem?_getD, List.getElem?_mapIdx, hmissing]
    rfl

/-- A bit that one segment alone occupies holds the bit of the value that belongs there. -/
theorem wordBit_stored_own (h : ∀ s ∈ segs, s.Fits) (hapart : segs.Pairwise Segment.Apart)
    (value : UInt64) {s : Segment} (hs : s ∈ segs) (hin : s.word < words.length)
    (hclear : words.getD s.word 0 &&& s.mask = 0) {j : Nat} (hj : s.occupies s.word j = true) :
    wordBit (words.mapIdx (storeAt segs value)) s.word j = value.toNat.testBit (s.source j) := by
  have hbit : wordBit words s.word j = false := by
    have hand := congrArg (fun w : UInt32 => w.toNat.testBit j) hclear
    have hmask : s.mask.toNat.testBit j = true := (Bool.and_eq_true_iff.1 hj).2
    simp only [UInt32.toNat_and, Nat.testBit_and, hmask, Bool.and_true] at hand
    exact hand.trans (Nat.zero_testBit j)
  rw [wordBit_stored h value hin, hbit, Bool.false_or]
  cases hv : value.toNat.testBit (s.source j) with
  | true => exact List.any_eq_true.2 ⟨s, hs, by rw [hj, hv]; rfl⟩
  | false =>
    refine List.any_eq_false.2 fun t ht => ?_
    -- the same segment has the same bit of the value there, another one does not reach it
    by_cases hts : t = s
    · rw [hts, hv, Bool.and_false]
      exact Bool.false_ne_true
    · have hst : s.Apart t := by
        have hsymm : Std.Symm Segment.Apart := ⟨fun _ _ => Segment.Apart.symm⟩
        exact hapart.forall hs ht (Ne.symm hts)
      rw [hst.not_occupies hj, Bool.false_and]
      exact Bool.false_ne_true

/-- What is gathered from any words is covered. A value that is not covered is refused with the
words as they are. A covered value is stored to words that are clear under the masks without a
change outside of the masks, and is gathered again. Segments may carry one bit of the value twice,
but no two may share a bit of a word. -/
theorem stored_value_is_gathered (hfit : ∀ s ∈ segs, s.Fits)
    (hin : ∀ s ∈ segs, s.word < words.length) (hapart : segs.Pairwise Segment.Apart) :
    (∀ any, ∃ v, gather any segs = .ok v ∧ v &&& ~~~coverage segs = 0) ∧
    (value &&& ~~~coverage segs ≠ 0 →
      scatterInPlace words segs value = (.error (.coverageOverflow value (coverage segs)), words) ∧
      scatter words segs value = .error (.coverageOverflow value (coverage segs))) ∧
    (value &&& ~~~coverage segs = 0 → (∀ s ∈ segs, words.getD s.word 0 &&& s.mask = 0) →
      ∃ out, scatterInPlace words segs value = (.ok (), out) ∧
        scatter words segs value = .ok out ∧ out.length = words.length ∧
        (∀ i j, (∀ s ∈ segs, s.occupies i j = false) → wordBit out i j = wordBit words i j) ∧
        gather out segs = .ok value) := by
  refine ⟨fun any => ⟨collect any segs, gather_eq hfit any, collect_covered hfit any⟩,
    fun hv => ⟨if_pos hv, scatter_error hv⟩, fun hv hclear => ?_⟩
  have hscatter : scatter words segs value = .ok (words.mapIdx (storeAt segs value)) :=
    scatter_eq hfit hv
  have hinPlace :
      scatterInPlace words segs value = (.ok (), words.mapIdx (storeAt segs value)) := by
    obtain ⟨_, hdone, hout⟩ :=
      Checked.map_eq_ok ((scatter_eq_inPlace words segs value).symm.trans hscatter)
    exact Prod.ext hdone hout
  have hgather : collect (words.mapIdx (storeAt segs value)) segs = value :=
    collect_eq hfit hv fun s hs j hj =>
      wordBit_stored_own hfit hapart value hs (hin s hs) (hclear s hs) hj
  refine ⟨words.mapIdx (storeAt segs value), hinPlace, hscatter, List.length_mapIdx,
    fun i j hother => wordBit_stored_other hfit value hother, ?_⟩
  rw [gather_eq hfit, hgather]

/-- Sixteen bits in two words, around what stands there. -/
theorem split_value_is_gathered :
    ∃ out, scatterInPlace [7, 7, 0x0FFFFFFF, 0xFFFFF000]
        [⟨2, 0xF0000000, 0⟩, ⟨3, 0xFFF, 4⟩] 0xBEEF = (.ok (), out) ∧
      gather out [⟨2, 0xF0000000, 0⟩, ⟨3, 0xFFF, 4⟩] = .ok 0xBEEF ∧
      out = [7, 7, 0xFFFFFFFF, 0xFFFFFBEE] := by
  have hfit : ∀ s ∈ ([⟨2, 0xF0000000, 0⟩, ⟨3, 0xFFF, 4⟩] : Segments), s.Fits := by decide
  have hin : ∀ s ∈ ([⟨2, 0xF0000000, 0⟩, ⟨3, 0xFFF, 4⟩] : Segments),
      s.word < ([7, 7, 0x0FFFFFFF, 0xFFFFF000] : List UInt32).length := by decide
  have hcovered : (0xBEEF : UInt64) &&& ~~~coverage [⟨2, 0xF0000000, 0⟩, ⟨3, 0xFFF, 4⟩] = 0 := by
    decide
  obtain ⟨out, hout, hscatter, -, -, hgather⟩ :=
    (stored_value_is_gathered hfit hin (by decide)).2.2 hcovered (by decide)
  refine ⟨out, hout, hgather, ?_⟩
  have hwords : scatter [7, 7, 0x0FFFFFFF, 0xFFFFF000] [⟨2, 0xF0000000, 0⟩, ⟨3, 0xFFF, 4⟩] 0xBEEF =
      .ok [7, 7, 0xFFFFFFFF, 0xFFFFFBEE] := by decide
  exact Except.ok.inj (hscatter.symm.trans hwords)

end Segments

end DmaQueues
