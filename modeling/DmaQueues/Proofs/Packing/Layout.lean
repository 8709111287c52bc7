import DmaQueues.Packing.Layout
import DmaQueues.Proofs.Record.Lawful
import DmaQueues.Proofs.Word.Segment
import Mathlib.Data.List.Nodup
import Mathlib.Data.List.Pairwise

/-!
# Packing by a valid layout

In a valid layout no two segments share a bit, so the bits of a packed record are the bits
of its fields, each in one place (`wordBit_pack`), and unpacking gives every carried field
back. `encode_spec` says when packing is possible and what comes of it.
-/

namespace DmaQueues.Layout

variable {R F : Type}

/-- Every field is packed once, into bits of its own. -/
structure Valid [DecidableEq F] (l : Layout F) : Prop where
  keys : (l.fields.map Prod.fst).Nodup
  words : l.words ≤ Image.maxWords
  fits : ∀ e ∈ l.fields, ∀ s ∈ e.2, s.Fits ∧ s.word < l.words
  inner : ∀ e ∈ l.fields, e.2.Pairwise fun s t => s.Apart t ∧ s.Distinct t
  outer : l.fields.Pairwise fun e e' => ∀ s ∈ e.2, ∀ t ∈ e'.2, s.Apart t

instance [DecidableEq F] (l : Layout F) : Decidable l.Valid :=
  decidable_of_iff
    ((l.fields.map Prod.fst).Nodup ∧ l.words ≤ Image.maxWords ∧
      (∀ e ∈ l.fields, ∀ s ∈ e.2, s.Fits ∧ s.word < l.words) ∧
      (∀ e ∈ l.fields, e.2.Pairwise fun s t => s.Apart t ∧ s.Distinct t) ∧
      l.fields.Pairwise fun e e' => ∀ s ∈ e.2, ∀ t ∈ e'.2, s.Apart t)
    ⟨fun ⟨hk, hw, hf, hi, ho⟩ => ⟨hk, hw, hf, hi, ho⟩,
      fun ⟨hk, hw, hf, hi, ho⟩ => ⟨hk, hw, hf, hi, ho⟩⟩

/-- The bits of word `i` that some field is packed into. -/
def maskAt (l : Layout F) (i : Nat) : UInt32 :=
  (l.fields.flatMap Prod.snd).foldl (fun m s => if s.word = i then m ||| s.mask else m) 0

/-- `r` with the fields that are not carried reset. -/
def trim [DecidableEq F] [Fields R F] (l : Layout F) (r : R) : R :=
  Fields.ofValues fun f => if l.carries f then Fields.get r f else 0

/-- A value of `r` that the layout carries has a bit for which there is no place. -/
def Overflows [Fields R F] (r : R) (e : F × Segments) : Prop :=
  Fields.get r e.1 &&& ~~~Segments.coverage e.2 ≠ 0

/-- All carried values of `r` have a place. -/
def Holds [Fields R F] (l : Layout F) (r : R) : Prop :=
  ∀ e ∈ l.fields, Fields.get r e.1 &&& ~~~Segments.coverage e.2 = 0

/-- A word with the carried values of `r`. -/
def packWord [Fields R F] (l : Layout F) (r : R) (i : Nat) (word : UInt32) : UInt32 :=
  l.fields.foldl (fun w e => Segments.storeAt e.2 (Fields.get r e.1) i w) word

def pack [Fields R F] (l : Layout F) (r : R) : Image :=
  (Image.zero l.words).mapIdx (l.packWord r)

variable {l : Layout F}

theorem testBit_maskAt (l : Layout F) (i j : Nat) :
    (l.maskAt i).toNat.testBit j =
      l.fields.any fun e => e.2.any fun s => s.occupies i j := by
  have hfold : ∀ (segs : Segments) (m : UInt32),
      (segs.foldl (fun m s => if s.word = i then m ||| s.mask else m) m).toNat.testBit j =
        (m.toNat.testBit j || segs.any fun s => s.occupies i j) := by
    intro segs
    induction segs with
    | nil => simp
    | cons s rest ih =>
      intro m
      rw [List.foldl_cons, ih, List.any_cons, ← Bool.or_assoc]
      congr 1
      by_cases hw : s.word = i
      · rw [if_pos hw, UInt32.toNat_or, Nat.testBit_or]
        simp [Segment.occupies, hw]
      · rw [if_neg hw]
        simp [Segment.occupies, hw]
  unfold maskAt
  rw [hfold, UInt32.toNat_zero, Nat.zero_testBit, Bool.false_or, List.any_flatMap]

theorem testBit_packWord [Fields R F] (hf : ∀ e ∈ l.fields, ∀ s ∈ e.2, s.Fits) (r : R)
    (i : Nat) (word : UInt32) (j : Nat) :
    (l.packWord r i word).toNat.testBit j =
      (word.toNat.testBit j || l.fields.any fun e => e.2.any fun s =>
        s.occupies i j && (Fields.get r e.1).toNat.testBit (s.source j)) := by
  unfold packWord
  generalize l.fields = fields at hf
  induction fields generalizing word with
  | nil => simp
  | cons e rest ih =>
    rw [List.foldl_cons, ih _ (fun e' he' => hf e' (List.mem_cons_of_mem _ he')),
      Segments.testBit_storeAt (hf e List.mem_cons_self), List.any_cons, Bool.or_assoc]

/-! ## Packing -/

/-- Packing field after field is packing word after word. -/
theorem encode_eq [Fields R F] (hf : ∀ e ∈ l.fields, ∀ s ∈ e.2, s.Fits) {r : R}
    (hr : l.Holds r) : l.encode r = .ok (l.pack r) := by
  have hfold : ∀ (fields : List (F × Segments)) (image : Image),
      (∀ e ∈ fields, ∀ s ∈ e.2, s.Fits) →
      (∀ e ∈ fields, Fields.get r e.1 &&& ~~~Segments.coverage e.2 = 0) →
      fields.foldlM (fun image e => Segments.scatter image e.2 (Fields.get r e.1)) image =
        .ok (image.mapIdx fun i word =>
          fields.foldl (fun w e => Segments.storeAt e.2 (Fields.get r e.1) i w) word) := by
    intro fields
    induction fields with
    | nil => exact fun image _ _ => by simp [pure, Except.pure, List.mapIdx_eq_zipIdx_map]
    | cons e rest ih =>
      intro image hf hr
      rw [List.foldlM_cons, Segments.scatter_eq (hf e List.mem_cons_self) (hr e List.mem_cons_self)]
      have hrest := ih (image.mapIdx (Segments.storeAt e.2 (Fields.get r e.1)))
        (fun e' he' => hf e' (List.mem_cons_of_mem _ he'))
        (fun e' he' => hr e' (List.mem_cons_of_mem _ he'))
      refine hrest.trans ?_
      rw [List.mapIdx_mapIdx]
      rfl
  exact hfold l.fields _ hf hr

theorem encode_error [Fields R F] (hf : ∀ e ∈ l.fields, ∀ s ∈ e.2, s.Fits) {r : R}
    (hr : ¬ l.Holds r) :
    ∃ e ∈ l.fields, Overflows r e ∧
      l.encode r = .error (.coverageOverflow (Fields.get r e.1) (Segments.coverage e.2)) := by
  have hfold : ∀ (fields : List (F × Segments)) (image : Image),
      (∀ e ∈ fields, ∀ s ∈ e.2, s.Fits) →
      (¬ ∀ e ∈ fields, Fields.get r e.1 &&& ~~~Segments.coverage e.2 = 0) →
      ∃ e ∈ fields, Overflows r e ∧
        fields.foldlM (fun image e => Segments.scatter image e.2 (Fields.get r e.1)) image =
          .error (.coverageOverflow (Fields.get r e.1) (Segments.coverage e.2)) := by
    intro fields
    induction fields with
    | nil => exact fun image _ hr => absurd (by simp) hr
    | cons e rest ih =>
      intro image hf hr
      by_cases he : Fields.get r e.1 &&& ~~~Segments.coverage e.2 = 0
      · rw [List.forall_mem_cons] at hr
        obtain ⟨e', he', hover, hrest⟩ :=
          ih (image.mapIdx (Segments.storeAt e.2 (Fields.get r e.1)))
            (fun e' he' => hf e' (List.mem_cons_of_mem _ he')) fun hall => hr ⟨he, hall⟩
        refine ⟨e', List.mem_cons_of_mem _ he', hover, ?_⟩
        rw [List.foldlM_cons, Segments.scatter_eq (hf e List.mem_cons_self) he]
        exact hrest
      · refine ⟨e, List.mem_cons_self, he, ?_⟩
        rw [List.foldlM_cons, Segments.scatter_error he]
        rfl
  exact hfold l.fields _ hf hr

/-! ## What a packed record holds -/

@[simp] theorem length_pack [Fields R F] (l : Layout F) (r : R) :
    (l.pack r).length = min l.words Image.maxWords := by
  simp [pack, Image.zero]

theorem wordBit_pack [Fields R F] (hf : ∀ e ∈ l.fields, ∀ s ∈ e.2, s.Fits) (r : R) {i : Nat}
    (hi : i < min l.words Image.maxWords) (j : Nat) :
    wordBit (l.pack r) i j = l.fields.any fun e => e.2.any fun s =>
      s.occupies i j && (Fields.get r e.1).toNat.testBit (s.source j) := by
  have hword : (l.pack r).getD i 0 = l.packWord r i 0 := by
    simp [pack, Image.zero, List.getD_eq_getElem?_getD, hi]
  unfold wordBit
  rw [hword, testBit_packWord hf, UInt32.toNat_zero, Nat.zero_testBit, Bool.false_or]

namespace Valid

variable [DecidableEq F]

theorem segment_fits (hl : l.Valid) : ∀ e ∈ l.fields, ∀ s ∈ e.2, s.Fits :=
  fun e he s hs => (hl.fits e he s hs).1

theorem segments?_eq_some (hl : l.Valid) {f : F} {segs : Segments} :
    l.segments? f = some segs ↔ (f, segs) ∈ l.fields := by
  unfold segments?
  rw [Option.map_eq_some_iff]
  constructor
  · rintro ⟨e, he, rfl⟩
    have hkey : e.1 = f := by simpa using List.find?_some he
    rw [← hkey]
    exact List.mem_of_find?_eq_some he
  · intro hmem
    have hsome : (l.fields.find? fun e => decide (e.1 = f)).isSome := by
      rw [List.find?_isSome]
      exact ⟨(f, segs), hmem, by simp⟩
    obtain ⟨e, he⟩ := Option.isSome_iff_exists.1 hsome
    have hkey : e.1 = f := by simpa using List.find?_some he
    have hsame : e = (f, segs) :=
      List.inj_on_of_nodup_map hl.keys (List.mem_of_find?_eq_some he) hmem hkey
    exact ⟨e, he, congrArg Prod.snd hsame⟩

/-- Two segments that share a bit are the same segment of the same field. -/
theorem eq_of_occupies (hl : l.Valid) {e e' : F × Segments} (he : e ∈ l.fields)
    (he' : e' ∈ l.fields) {s t : Segment} (hs : s ∈ e.2) (ht : t ∈ e'.2) {i j : Nat}
    (hsj : s.occupies i j = true) (htj : t.occupies i j = true) : e = e' ∧ s = t := by
  have hapart : ¬ s.Apart t := fun ha => by
    rw [ha.not_occupies hsj] at htj
    cases htj
  have houter : Std.Symm fun e e' : F × Segments => ∀ s ∈ e.2, ∀ t ∈ e'.2, s.Apart t :=
    ⟨fun _ _ h s hs t ht => (h t ht s hs).symm⟩
  have hinner : Std.Symm fun s t : Segment => s.Apart t ∧ s.Distinct t :=
    ⟨fun _ _ h => ⟨h.1.symm, h.2.symm⟩⟩
  obtain rfl : e = e' := by
    by_contra hne
    exact hapart (hl.outer.forall he he' hne s hs t ht)
  refine ⟨rfl, ?_⟩
  by_contra hne
  exact hapart ((hl.inner e he).forall hs ht hne).1

/-- The bits of a packed record are those of its fields. -/
theorem wordBit_field [Fields R F] (hl : l.Valid) (r : R) {e : F × Segments} (he : e ∈ l.fields)
    {s : Segment} (hs : s ∈ e.2) {j : Nat} (ho : s.occupies s.word j = true) :
    wordBit (l.pack r) s.word j = (Fields.get r e.1).toNat.testBit (s.source j) := by
  have hlt := (hl.fits e he s hs).2
  have hwords := hl.words
  rw [wordBit_pack hl.segment_fits r (by omega)]
  cases hb : (Fields.get r e.1).toNat.testBit (s.source j) with
  | true =>
    rw [List.any_eq_true]
    exact ⟨e, he, List.any_eq_true.2 ⟨s, hs, by rw [ho, hb]; rfl⟩⟩
  | false =>
    rw [List.any_eq_false]
    intro e' he' hany
    obtain ⟨t, ht, htj⟩ := List.any_eq_true.1 hany
    obtain ⟨hto, htb⟩ := Bool.and_eq_true_iff.1 htj
    obtain ⟨rfl, rfl⟩ := hl.eq_of_occupies he he' hs ht ho hto
    rw [hb] at htb
    cases htb

/-- Only bits under the masks are set. -/
theorem pack_masked [Fields R F] (hl : l.Valid) (r : R) {i : Nat} {word : UInt32}
    (hw : (l.pack r)[i]? = some word) : word &&& ~~~l.maskAt i = 0 := by
  have hi : i < min l.words Image.maxWords := by
    rw [← length_pack l r]
    exact (List.getElem?_eq_some_iff.1 hw).1
  refine and_not_eq_zero32.2 fun j hj => ?_
  have hbit : wordBit (l.pack r) i j = true := by
    unfold wordBit
    rw [List.getD_eq_getElem?_getD, hw]
    exact hj
  rw [wordBit_pack hl.segment_fits r hi] at hbit
  rw [testBit_maskAt, List.any_eq_true]
  obtain ⟨e, he, hany⟩ := List.any_eq_true.1 hbit
  obtain ⟨s, hs, hsj⟩ := List.any_eq_true.1 hany
  exact ⟨e, he, List.any_eq_true.2 ⟨s, hs, (Bool.and_eq_true_iff.1 hsj).1⟩⟩

/-- A field that is carried is collected from the packed record. -/
theorem collect_pack [Fields R F] (hl : l.Valid) {r : R} (hr : l.Holds r) {e : F × Segments}
    (he : e ∈ l.fields) : Segments.collect (l.pack r) e.2 = Fields.get r e.1 :=
  Segments.collect_eq (hl.segment_fits e he) (hr e he) fun _ hs _ ho =>
    hl.wordBit_field r he hs ho

theorem decode_pack [Fields R F] (hl : l.Valid) {r : R} (hr : l.Holds r) :
    l.decode (l.pack r) = l.trim r := by
  unfold decode trim
  refine congrArg Fields.ofValues (funext fun f => ?_)
  unfold carries
  cases hs : l.segments? f with
  | none => rfl
  | some segs => exact hl.collect_pack hr (hl.segments?_eq_some.1 hs)

end Valid

theorem get_trim [DecidableEq F] [Fields R F] [LawfulFields R] (l : Layout F) (r : R) (f : F) :
    Fields.get (l.trim r) f = if l.carries f then Fields.get r f else 0 := by
  unfold trim
  by_cases hf : l.carries f = true
  · rw [if_pos hf]
    exact LawfulFields.get_of_eq (if_pos hf)
  · rw [if_neg hf]
    exact LawfulFields.get_of_zero (if_neg hf)

/-! ## Trimmed records -/

section Lawful

variable [Fields R F] [LawfulFields R]

theorem pack_zero (hf : ∀ e ∈ l.fields, ∀ s ∈ e.2, s.Fits) :
    l.pack (Fields.zero : R) = Image.zero l.words := by
  refine List.ext_getElem (by simp [pack]) fun i hi hi' => ?_
  have hword : l.packWord (Fields.zero : R) i 0 = 0 := by
    refine eq_of_testBit32 fun j => ?_
    rw [testBit_packWord hf]
    simp [LawfulFields.get_zero]
  have hzero : (Image.zero l.words)[i] = 0 := List.getElem_replicate _
  simp only [pack, List.getElem_mapIdx, hzero, hword]

theorem holds_zero (l : Layout F) : l.Holds (Fields.zero : R) := by
  intro e _
  rw [LawfulFields.get_zero]
  exact UInt64.zero_and

variable [DecidableEq F]

/-- Only the carried fields are packed. -/
theorem Valid.pack_trim (hl : l.Valid) (r : R) : l.pack (l.trim r) = l.pack r := by
  have hword : l.packWord (l.trim r) = l.packWord r := by
    funext i word
    refine List.foldl_ext _ _ word fun w e he => ?_
    have hcarried : l.carries e.1 = true := by
      rw [carries, hl.segments?_eq_some.2 he]
      rfl
    rw [get_trim, if_pos hcarried]
  rw [pack, pack, hword]

theorem trim_trim (l : Layout F) (r : R) : l.trim (l.trim r) = l.trim r := by
  refine LawfulFields.ext fun f => ?_
  rw [get_trim, get_trim]
  split <;> rfl

theorem trim_zero (l : Layout F) : l.trim (Fields.zero : R) = Fields.zero := by
  refine LawfulFields.ext fun f => ?_
  rw [get_trim, LawfulFields.get_zero]
  split <;> rfl

theorem holds_trim {r : R} (hr : l.Holds r) : l.Holds (l.trim r) := by
  intro e he
  rw [get_trim]
  split
  · exact hr e he
  · exact UInt64.zero_and

end Lawful

end DmaQueues.Layout
