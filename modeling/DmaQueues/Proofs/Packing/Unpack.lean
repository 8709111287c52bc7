import DmaQueues.Proofs.Packing.Tables
import DmaQueues.Proofs.Record.Capacity

/-!
# Unpacking any words

Hardware may hand back words with bits that no field has. Unpacking ignores them: the record
it gives has a place for all of its values, and packing it again gives the words with only the
bits of the layout kept (`pack_decode`), so a carried bit is neither lost nor made up.
-/

namespace DmaQueues

/-- A bit of the words that a segment occupies is a bit of what is collected. -/
theorem Segments.collect_source {segs : Segments} (h : ∀ s ∈ segs, s.Fits)
    (hd : segs.Pairwise fun s t => s.Apart t ∧ s.Distinct t) (words : List UInt32) {s : Segment}
    (hs : s ∈ segs) {j : Nat} (ho : s.occupies s.word j = true) :
    (collect words segs).toNat.testBit (s.source j) = wordBit words s.word j := by
  obtain ⟨hc, htarget⟩ := (h s hs).carries_source ho
  have hsymm : Std.Symm fun s t : Segment => s.Apart t ∧ s.Distinct t :=
    ⟨fun _ _ h => ⟨h.1.symm, h.2.symm⟩⟩
  -- no other segment carries this bit of the value
  have honly : ∀ t ∈ segs, t.carries (s.source j) = true → t = s := by
    intro t ht htc
    by_contra hne
    have hdis := (hd.forall ht hs hne).2
    rw [Segment.carries_iff] at hc htc
    unfold Segment.Distinct at hdis
    omega
  rw [testBit_collect h]
  cases hb : wordBit words s.word j with
  | true =>
    rw [List.any_eq_true]
    exact ⟨s, hs, by rw [hc, htarget, hb]; rfl⟩
  | false =>
    rw [List.any_eq_false]
    intro t ht hany
    obtain ⟨htc, htb⟩ := Bool.and_eq_true_iff.1 hany
    obtain rfl := honly t ht htc
    rw [htarget, hb] at htb
    cases htb

namespace Layout

variable {R F : Type} {l : Layout F}

/-- Every value that the layout can carry is one that its field holds. -/
def Sized (R : Type) [Fields R F] (l : Layout F) : Prop :=
  ∀ e ∈ l.fields, Segments.coverage e.2 &&& ~~~Fields.capacity R e.1 = 0

instance [Fields R F] (l : Layout F) : Decidable (l.Sized R) :=
  inferInstanceAs (Decidable (∀ e ∈ l.fields, _ = (0 : UInt64)))

/-- The words of the layout with only the bits of its fields kept; missing words are zero. -/
def restrict (l : Layout F) (words : List UInt32) : Image :=
  (List.range l.words).map fun i => words.getD i 0 &&& l.maskAt i

theorem length_restrict (l : Layout F) (words : List UInt32) :
    (l.restrict words).length = l.words := by
  rw [restrict, List.length_map, List.length_range]

theorem getElem?_restrict (l : Layout F) (words : List UInt32) {i : Nat} (hi : i < l.words) :
    (l.restrict words)[i]? = some (words.getD i 0 &&& l.maskAt i) := by
  rw [restrict, List.getElem?_map, List.getElem?_range hi, Option.map_some]

variable [DecidableEq F] [Fields R F]

theorem get_decode_uncarried [LawfulFields R] (words : List UInt32) {f : F}
    (hf : l.carries f = false) : Fields.get (l.decode words : R) f = 0 := by
  have hnone : l.segments? f = none := by
    unfold carries at hf
    rwa [Option.isSome_eq_false_iff, Option.isNone_iff_eq_none] at hf
  refine LawfulFields.get_of_zero ?_
  rw [hnone]

theorem trim_decode [LawfulFields R] (l : Layout F) (words : List UInt32) :
    l.trim (l.decode words : R) = l.decode words := by
  refine LawfulFields.ext fun f => ?_
  rw [get_trim]
  cases hf : l.carries f with
  | true => rw [if_pos rfl]
  | false => rw [if_neg Bool.false_ne_true, get_decode_uncarried words hf]

variable [SizedFields R]

/-- No field is too small for what is collected for it. -/
theorem Valid.get_decode (hl : l.Valid) (hz : l.Sized R) (words : List UInt32)
    {e : F × Segments} (he : e ∈ l.fields) :
    Fields.get (l.decode words : R) e.1 = Segments.collect words e.2 := by
  have hs := hl.segments?_eq_some.2 he
  refine (SizedFields.get_ofValues _ e.1 ?_).trans ?_
  · rw [hs]
    refine and_not_eq_zero.2 fun b hb => ?_
    have hcov := and_not_eq_zero.1 (Segments.collect_covered (hl.segment_fits e he) words) b hb
    exact and_not_eq_zero.1 (hz e he) b hcov
  · rw [hs]

theorem Valid.holds_decode (hl : l.Valid) (hz : l.Sized R) (words : List UInt32) :
    l.Holds (l.decode words : R) := by
  intro e he
  rw [hl.get_decode hz words he]
  exact Segments.collect_covered (hl.segment_fits e he) words

/-- A bit of the packed record is a bit of the words, if a field has it. -/
theorem Valid.wordBit_decode (hl : l.Valid) (hz : l.Sized R) (words : List UInt32) {i : Nat}
    (hi : i < l.words) (j : Nat) :
    wordBit (l.pack (l.decode words : R)) i j =
      (wordBit words i j && (l.maskAt i).toNat.testBit j) := by
  rw [testBit_maskAt]
  cases hany : l.fields.any fun e => e.2.any fun s => s.occupies i j with
  | true =>
    obtain ⟨e, he, hs'⟩ := List.any_eq_true.1 hany
    obtain ⟨s, hs, ho⟩ := List.any_eq_true.1 hs'
    obtain rfl : s.word = i := ((hl.fits e he s hs).1.occupies_iff.1 ho).1
    rw [hl.wordBit_field _ he hs ho, hl.get_decode hz words he,
      Segments.collect_source (hl.segment_fits e he) (hl.inner e he) words hs ho, Bool.and_true]
  | false =>
    have hwords := hl.words
    rw [wordBit_pack hl.segment_fits _ (by omega), Bool.and_false, List.any_eq_false]
    intro e he hs'
    obtain ⟨s, hs, hbit⟩ := List.any_eq_true.1 hs'
    exact List.any_eq_false.1 hany e he
      (List.any_eq_true.2 ⟨s, hs, (Bool.and_eq_true_iff.1 hbit).1⟩)

theorem Valid.pack_decode (hl : l.Valid) (hz : l.Sized R) (words : List UInt32) :
    l.pack (l.decode words : R) = l.restrict words := by
  have hwords := hl.words
  have hlength : (l.pack (l.decode words : R)).length = l.words := by
    rw [length_pack]
    omega
  refine List.ext_getElem (hlength.trans (l.length_restrict words).symm) fun i hi hi' => ?_
  rw [hlength] at hi
  have hget : (l.pack (l.decode words : R)).getD i 0 = words.getD i 0 &&& l.maskAt i := by
    refine eq_of_testBit32 fun j => ?_
    rw [UInt32.toNat_and, Nat.testBit_and]
    exact hl.wordBit_decode hz words hi j
  rw [← List.getD_eq_getElem _ 0, hget]
  exact (List.getElem_eq_iff _).2 (l.getElem?_restrict words hi) |>.symm

/-- The bits of other places do not matter to a record. -/
theorem Valid.decode_restrict [LawfulFields R] (hl : l.Valid) (hz : l.Sized R)
    (words : List UInt32) : (l.decode (l.restrict words) : R) = l.decode words := by
  rw [← hl.pack_decode (R := R) hz words, hl.decode_pack (hl.holds_decode hz words), trim_decode]

end Layout

namespace RecordKind

theorem layout_sized (f : Family) (k : RecordKind) : (k.layout f).Sized k.Contents := by
  cases f <;> cases k <;> decide +kernel

/-- Words of any number and contents are unpacked, and the record can be packed again: each word
of the layout then has the bits that it had, under the masks of the layout, and those make up the
record. A carried field reads the value that its segments hold, any other reads zero. -/
theorem decode_encode (v : Variant) (k : RecordKind) (words : List UInt32) :
    (k.layout v.family).encode ((k.layout v.family).decode words : k.Contents) =
      .ok ((k.layout v.family).restrict words) ∧
    ((k.layout v.family).restrict words).length = (k.layout v.family).words ∧
    (∀ i < (k.layout v.family).words, ((k.layout v.family).restrict words)[i]? =
      some (words.getD i 0 &&& (k.layout v.family).maskAt i)) ∧
    ((k.layout v.family).decode ((k.layout v.family).restrict words) : k.Contents) =
      (k.layout v.family).decode words ∧
    (∀ field segs, (k.layout v.family).segments? field = some segs →
      Segments.gather words segs =
        .ok (Fields.get ((k.layout v.family).decode words : k.Contents) field) ∧
      Fields.get ((k.layout v.family).decode words : k.Contents) field &&&
        ~~~Segments.coverage segs = 0) ∧
    ∀ field, (k.layout v.family).carries field = false →
      Fields.get ((k.layout v.family).decode words : k.Contents) field = 0 := by
  have hl := layout_valid v.family k
  have hz := layout_sized v.family k
  generalize k.layout v.family = l at hl hz
  refine ⟨?_, l.length_restrict words, fun i hi => l.getElem?_restrict words hi,
    hl.decode_restrict hz words, fun field segs hs => ?_,
    fun field => Layout.get_decode_uncarried words⟩
  · rw [Layout.encode_eq hl.segment_fits (hl.holds_decode hz words), hl.pack_decode hz words]
  · have hmem := hl.segments?_eq_some.1 hs
    refine ⟨?_, hl.holds_decode hz words _ hmem⟩
    rw [Segments.gather_eq (hl.segment_fits _ hmem), hl.get_decode hz words hmem]

example : (functionMap.layout .hard).encode
    ((functionMap.layout .hard).decode [0xFFFFFFFF, 7] : FunctionMap) = .ok [0x007FFFFF] := rfl

end RecordKind

end DmaQueues
