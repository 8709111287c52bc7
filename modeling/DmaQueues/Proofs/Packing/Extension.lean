import DmaQueues.Proofs.Packing.Tables

/-!
# Layouts that extend others

A later family may carry fields that an earlier one has not, give a field more bits, or cut it
into other segments. As long as every bit of a value that the earlier layout carries stays at
its place (`Extends`), a record that the earlier layout can carry in full is packed into the
same words, and zero words after them. The layouts of the EQDMA family extend those of the
soft family in this way.
-/

namespace DmaQueues

namespace Segment

/-- `s` is a slice of `t`: its bits are among those of `t`, in the word and in the value alike,
and both move them by the same distance. -/
structure Within (s t : Segment) : Prop where
  word : s.word = t.word
  low : t.lsb ≤ s.lsb
  high : s.lsb + s.width ≤ t.lsb + t.width
  place : s.mask.shift = t.mask.shift + (s.lsb - t.lsb)

instance (s t : Segment) : Decidable (s.Within t) :=
  decidable_of_iff
    (s.word = t.word ∧ t.lsb ≤ s.lsb ∧ s.lsb + s.width ≤ t.lsb + t.width ∧
      s.mask.shift = t.mask.shift + (s.lsb - t.lsb))
    ⟨fun ⟨hw, hl, hh, hp⟩ => ⟨hw, hl, hh, hp⟩, fun ⟨hw, hl, hh, hp⟩ => ⟨hw, hl, hh, hp⟩⟩

namespace Within

variable {s t : Segment}

theorem carries (h : s.Within t) {b : Nat} (hc : s.carries b = true) : t.carries b = true := by
  rw [carries_iff] at hc ⊢
  have hlow := h.low
  have hhigh := h.high
  omega

theorem target_eq (h : s.Within t) {b : Nat} (hc : s.carries b = true) :
    s.target b = t.target b := by
  rw [carries_iff] at hc
  have hlow := h.low
  have hplace := h.place
  unfold target
  omega

/-- A bit of the word that is in the slice. -/
theorem occupies (h : s.Within t) (hs : s.Fits) (ht : t.Fits) {i j : Nat}
    (ho : s.occupies i j = true) : t.occupies i j = true ∧ t.source j = s.source j := by
  obtain ⟨hw, hlo, hhi⟩ := hs.occupies_iff.1 ho
  have hword := h.word
  have hlow := h.low
  have hhigh := h.high
  have hplace := h.place
  rw [ht.occupies_iff]
  unfold source
  omega

end Within

/-- Where a bit of the value goes, it comes from. -/
theorem Fits.occupies_of_carries {s : Segment} (h : s.Fits) {b i j : Nat}
    (hc : s.carries b = true) (hw : s.word = i) (hj : s.target b = j) :
    s.occupies i j = true ∧ s.source j = b := by
  subst hw hj
  exact h.occupies_target hc

end Segment

namespace Layout

variable {R F : Type} {l l' : Layout F}

/-- All that `l` carries, `l'` carries at the same place. -/
structure Extends (l' l : Layout F) : Prop where
  words : l.words ≤ l'.words
  fields : ∀ e ∈ l.fields, ∃ e' ∈ l'.fields, e'.1 = e.1 ∧ ∀ s ∈ e.2, ∃ t ∈ e'.2, s.Within t

instance [DecidableEq F] (l' l : Layout F) : Decidable (l'.Extends l) :=
  decidable_of_iff
    (l.words ≤ l'.words ∧
      ∀ e ∈ l.fields, ∃ e' ∈ l'.fields, e'.1 = e.1 ∧ ∀ s ∈ e.2, ∃ t ∈ e'.2, s.Within t)
    ⟨fun ⟨hw, hf⟩ => ⟨hw, hf⟩, fun ⟨hw, hf⟩ => ⟨hw, hf⟩⟩

instance [Fields R F] (l : Layout F) (r : R) : Decidable (l.Holds r) :=
  inferInstanceAs (Decidable (∀ e ∈ l.fields, _ = (0 : UInt64)))

variable [DecidableEq F] [Fields R F]

/-- A set bit of a packed record is a bit of a value, at the place of a segment. -/
theorem Valid.wordBit_pack_iff (hl : l.Valid) (r : R) {i j : Nat} :
    wordBit (l.pack r) i j = true ↔ ∃ e ∈ l.fields, ∃ s ∈ e.2,
      s.occupies i j = true ∧ (Fields.get r e.1).toNat.testBit (s.source j) = true := by
  constructor
  · intro hbit
    by_cases hi : i < min l.words Image.maxWords
    · rw [wordBit_pack hl.segment_fits r hi, List.any_eq_true] at hbit
      obtain ⟨e, he, hany⟩ := hbit
      obtain ⟨s, hs, hsj⟩ := List.any_eq_true.1 hany
      exact ⟨e, he, s, hs, Bool.and_eq_true_iff.1 hsj⟩
    · have hnone : (l.pack r)[i]? = none := by
        rw [List.getElem?_eq_none_iff, length_pack]
        omega
      simp [wordBit, List.getD_eq_getElem?_getD, hnone] at hbit
  · rintro ⟨e, he, s, hs, ho, hbit⟩
    obtain rfl : s.word = i := ((hl.fits e he s hs).1.occupies_iff.1 ho).1
    rw [hl.wordBit_field r he hs ho, hbit]

namespace Extends

/-- A field of the smaller layout in the larger one. -/
theorem field (h : l'.Extends l) (hl' : l'.Valid) {e e' : F × Segments} (he : e ∈ l.fields)
    (he' : e' ∈ l'.fields) (hkey : e'.1 = e.1) : ∀ s ∈ e.2, ∃ t ∈ e'.2, s.Within t := by
  obtain ⟨e'', he'', hkey'', hslices⟩ := h.fields e he
  obtain rfl : e'' = e' := List.inj_on_of_nodup_map hl'.keys he'' he' (hkey''.trans hkey.symm)
  exact hslices

variable {r : R}

/-- A bit of a value that the larger layout carries is one that the smaller carries, at the same
place, if the smaller layout carries all of the record. -/
theorem segment_of_bit (h : l'.Extends l) (hl : l.Valid) (hl' : l'.Valid) (hr : l.Holds r)
    (hzero : ∀ f, l.carries f = false → Fields.get r f = 0) {e' : F × Segments}
    (he' : e' ∈ l'.fields) {b : Nat} (hb : (Fields.get r e'.1).toNat.testBit b = true) :
    ∃ e ∈ l.fields, e'.1 = e.1 ∧ ∃ s ∈ e.2, s.carries b = true ∧ ∃ t ∈ e'.2, s.Within t := by
  cases hc : l.carries e'.1 with
  | false =>
    rw [hzero _ hc, UInt64.toNat_zero, Nat.zero_testBit] at hb
    cases hb
  | true =>
    obtain ⟨segs, hsegs⟩ := Option.isSome_iff_exists.1 hc
    have he := hl.segments?_eq_some.1 hsegs
    have hcov := and_not_eq_zero.1 (hr _ he) b hb
    rw [Segments.testBit_coverage (hl.segment_fits _ he), List.any_eq_true] at hcov
    obtain ⟨s, hs, hsb⟩ := hcov
    exact ⟨_, he, rfl, s, hs, hsb, h.field hl' he he' rfl s hs⟩

theorem holds (h : l'.Extends l) (hl : l.Valid) (hl' : l'.Valid) (hr : l.Holds r)
    (hzero : ∀ f, l.carries f = false → Fields.get r f = 0) : l'.Holds r := by
  intro e' he'
  refine and_not_eq_zero.2 fun b hb => ?_
  obtain ⟨e, he, hkey, s, hs, hsb, t, ht, hst⟩ := h.segment_of_bit hl hl' hr hzero he' hb
  rw [Segments.testBit_coverage (hl'.segment_fits e' he'), List.any_eq_true]
  exact ⟨t, ht, hst.carries hsb⟩

theorem wordBit_pack (h : l'.Extends l) (hl : l.Valid) (hl' : l'.Valid) (hr : l.Holds r)
    (hzero : ∀ f, l.carries f = false → Fields.get r f = 0) (i j : Nat) :
    wordBit (l'.pack r) i j = wordBit (l.pack r) i j := by
  rw [Bool.eq_iff_iff, hl'.wordBit_pack_iff, hl.wordBit_pack_iff]
  constructor
  · rintro ⟨e', he', t, ht, hto, hbit⟩
    obtain ⟨htc, htj⟩ := (hl'.fits e' he' t ht).1.carries_source hto
    obtain ⟨e, he, hkey, s, hs, hsb, t', ht', hst⟩ :=
      h.segment_of_bit hl hl' hr hzero he' hbit
    -- no other segment of the field carries this bit of the value
    obtain rfl : t' = t := by
      by_contra hne
      have hsymm : Std.Symm fun s t : Segment => s.Apart t ∧ s.Distinct t :=
        ⟨fun _ _ h => ⟨h.1.symm, h.2.symm⟩⟩
      have hdistinct := ((hl'.inner e' he').forall ht' ht hne).2
      have htc' := hst.carries hsb
      rw [Segment.carries_iff] at htc htc'
      unfold Segment.Distinct at hdistinct
      omega
    have hword := ((hl'.fits e' he' t' ht).1.occupies_iff.1 hto).1
    obtain ⟨hso, hsrc⟩ := (hl.fits e he s hs).1.occupies_of_carries hsb (hst.word.trans hword)
      ((hst.target_eq hsb).trans htj)
    exact ⟨e, he, s, hs, hso, by rw [hsrc, ← hkey, hbit]⟩
  · rintro ⟨e, he, s, hs, hso, hbit⟩
    obtain ⟨e', he', hkey, hslices⟩ := h.fields e he
    obtain ⟨t, ht, hst⟩ := hslices s hs
    obtain ⟨hto, hsrc⟩ := hst.occupies (hl.fits e he s hs).1 (hl'.fits e' he' t ht).1 hso
    exact ⟨e', he', t, ht, hto, by rw [hkey, hsrc, hbit]⟩

theorem pack_eq (h : l'.Extends l) (hl : l.Valid) (hl' : l'.Valid) (hr : l.Holds r)
    (hzero : ∀ f, l.carries f = false → Fields.get r f = 0) :
    l'.pack r = l.pack r ++ List.replicate (l'.words - l.words) 0 := by
  have hwords := h.words
  have hmax := hl.words
  have hmax' := hl'.words
  refine List.ext_getElem ?_ fun i hi hi' => ?_
  · rw [List.length_append, List.length_replicate, length_pack, length_pack]
    omega
  · have hword : (l'.pack r).getD i 0 = (l.pack r).getD i 0 :=
      eq_of_testBit32 (h.wordBit_pack hl hl' hr hzero i)
    rw [← List.getD_eq_getElem _ 0 hi, hword]
    by_cases hin : i < (l.pack r).length
    · rw [List.getElem_append_left hin, List.getD_eq_getElem _ 0 hin]
    · rw [List.getElem_append_right (by omega), List.getElem_replicate,
        List.getD_eq_default _ 0 (by omega)]

end Extends

end Layout

namespace RecordKind

theorem layout_extends (k : RecordKind) : (k.layout .eqdma).Extends (k.layout .soft) := by
  cases k <;> decide +kernel

/-- Whatever soft parts can carry is packed for EQDMA parts into the same words, bit for bit, and
the words that only EQDMA parts have stay zero. -/
theorem encode_eqdma (k : RecordKind) (r : k.Contents) (hr : (k.layout .soft).Holds r)
    (hzero : ∀ field, (k.layout .soft).carries field = false → Fields.get r field = 0) :
    ∃ image : Image, (k.layout .soft).encode r = .ok image ∧
      image.length = (k.layout .soft).words ∧
      (k.layout .soft).words ≤ (k.layout .eqdma).words ∧
      (k.layout .eqdma).encode r = .ok
        (image ++ List.replicate ((k.layout .eqdma).words - (k.layout .soft).words) 0) := by
  have hext := layout_extends k
  have hl := layout_valid .soft k
  have hl' := layout_valid .eqdma k
  have hwords := hl.words
  refine ⟨(k.layout .soft).pack r, Layout.encode_eq hl.segment_fits hr, ?_, hext.words, ?_⟩
  · rw [Layout.length_pack]
    omega
  · rw [Layout.encode_eq hl'.segment_fits (hext.holds hl hl' hr hzero),
      hext.pack_eq hl hl' hr hzero]

/-- The base of a completion ring is in two segments for soft parts, in three for EQDMA parts. -/
theorem encode_eqdma_completion :
    let r : CompletionContext :=
      { statusDescriptor := true, triggerMode := 5, functionId := 0xFF, ringSize := 2,
        ringBase := 0xFEDCBA9876543000, descriptorSize := 1, producerIndex := 0xABCD,
        consumerIndex := 0x1234, valid := true, fullUpdate := true, vector := 0x7FF,
        aggregation := true }
    let image : Image := [0x20001FF5, 0x61D950C0, 0xD7FB72EA, 0x11234ABC, 0xFFF2]
    (completion.layout .soft).encode r = .ok image ∧
      (completion.layout .eqdma).encode r = .ok (image ++ [0]) := by
  intro r image
  have hsoft : (completion.layout .soft).encode r = .ok image := by decide +kernel
  have hr : (CompletionContext.layout .soft).Holds r := by decide +kernel
  obtain ⟨image', henc, -, -, hext⟩ := encode_eqdma completion r hr
    fun field => by cases field <;> decide +kernel
  obtain rfl : image = image' := Except.ok.inj (hsoft.symm.trans henc)
  exact ⟨hsoft, hext⟩

end RecordKind

end DmaQueues
