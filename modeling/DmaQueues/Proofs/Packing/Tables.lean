import DmaQueues.Packing.Descriptor
import DmaQueues.Packing.Function
import DmaQueues.Packing.Stream
import DmaQueues.Proofs.Packing.Layout
import DmaQueues.Variant

/-!
# The layouts of the hardware

All layouts are valid, so records of every kind survive packing on every variant.
-/

namespace DmaQueues.RecordKind

/-- The packing of a kind of record in a family. -/
def layout (f : Family) : (k : RecordKind) → Layout k.Field
  | software => SoftwareContext.layout f
  | hardware => HardwareContext.layout f
  | credit => CreditContext.layout f
  | prefetch => PrefetchContext.layout f
  | completion => CompletionContext.layout f
  | interrupt => InterruptContext.layout f
  | functionMap => FunctionMap.layout f

theorem layout_valid (f : Family) (k : RecordKind) : (k.layout f).Valid := by
  cases f <;> cases k <;> decide +kernel

/-- Packing ends in a fault exactly if a carried value has a bit without a place. Else the image
has the words of the layout, only bits under its masks are set, and unpacking gives back the record
with the fields reset that the hardware does not carry. -/
theorem encode_decode (v : Variant) (k : RecordKind) (r : k.Contents) :
    match (k.layout v.family).encode r with
    | .error fault => ∃ field segs, (k.layout v.family).segments? field = some segs ∧
        Fields.get r field &&& ~~~Segments.coverage segs ≠ 0 ∧
        fault = .coverageOverflow (Fields.get r field) (Segments.coverage segs)
    | .ok image =>
      (∀ field segs, (k.layout v.family).segments? field = some segs →
        Fields.get r field &&& ~~~Segments.coverage segs = 0) ∧
      image.length = (k.layout v.family).words ∧
      (∀ i word, image[i]? = some word → word &&& ~~~(k.layout v.family).maskAt i = 0) ∧
      (∀ field segs, (k.layout v.family).segments? field = some segs →
        Segments.gather image segs = .ok (Fields.get r field)) ∧
      (k.layout v.family).decode image = (k.layout v.family).trim r ∧
      ∀ field, Fields.get ((k.layout v.family).decode image : k.Contents) field =
        if (k.layout v.family).carries field then Fields.get r field else 0 := by
  have hl := layout_valid v.family k
  generalize k.layout v.family = l at hl
  by_cases hr : l.Holds r
  · rw [Layout.encode_eq hl.segment_fits hr]
    refine ⟨fun field segs hs => hr _ (hl.segments?_eq_some.1 hs), ?_,
      fun i word hw => hl.pack_masked r hw, fun field segs hs => ?_, hl.decode_pack hr,
      fun field => ?_⟩
    · have hwords := hl.words
      rw [Layout.length_pack]
      omega
    · have hmem := hl.segments?_eq_some.1 hs
      rw [Segments.gather_eq (hl.segment_fits _ hmem)]
      exact congrArg Except.ok (hl.collect_pack hr hmem)
    · rw [hl.decode_pack hr]
      exact Layout.get_trim l r field
  · obtain ⟨⟨field, segs⟩, hmem, hover, he⟩ := Layout.encode_error hl.segment_fits hr
    rw [he]
    exact ⟨field, segs, hl.segments?_eq_some.2 hmem, hover, rfl⟩

example : (functionMap.layout .hard).encode (⟨0x7FF, 0x800⟩ : FunctionMap) = .ok [0x4007FF] := rfl

example : (functionMap.layout .hard).encode (⟨0x800, 1⟩ : FunctionMap) =
    .error (.coverageOverflow 0x800 0x7FF) := rfl

end DmaQueues.RecordKind
