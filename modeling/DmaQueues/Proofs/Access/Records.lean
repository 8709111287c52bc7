import DmaQueues.Proofs.Access.Memory

/-!
# A device as a map of records

Through `program` a device is a map from contexts to records. `Records.call` says what a
call answers and how it changes the map, and `program_refines` that a device behaves as the
map does over any calls, and holds the records of the map, packed, after them.
-/

namespace DmaQueues

/-- The kind of record in a context. Address space tables and timers have none. -/
def Selector.kind? : Selector → Option RecordKind
  | softwareC2h | softwareH2c => some .software
  | hardwareC2h | hardwareH2c => some .hardware
  | creditC2h | creditH2c => some .credit
  | prefetch => some .prefetch
  | completion => some .completion
  | interruptAggregation => some .interrupt
  | functionMap => some .functionMap
  | pasidRamLow | pasidRamHigh | timer => none

/-- Hardware and credit contexts are written by the hardware alone. -/
def RecordKind.writable : RecordKind → Bool
  | hardware | credit => false
  | _ => true

/-- A record of a kind. -/
def RecordKind.record : (k : RecordKind) → k.Contents → Record
  | software => Record.software
  | hardware => Record.hardware
  | credit => Record.credit
  | prefetch => Record.prefetch
  | completion => Record.completion
  | interrupt => Record.interrupt
  | functionMap => Record.functionMap

/-- The record of a kind whose fields are all zero. -/
def RecordKind.zero (k : RecordKind) : Record :=
  k.record Fields.zero

namespace Record

def contents : (r : Record) → r.kind.Contents
  | software r => r
  | hardware r => r
  | credit r => r
  | prefetch r => r
  | completion r => r
  | interrupt r => r
  | functionMap r => r

/-- The values that a family carries have their places. -/
def Fits (f : Family) (r : Record) : Prop :=
  (r.kind.layout f).Holds r.contents

instance (f : Family) (r : Record) : Decidable (r.Fits f) :=
  inferInstanceAs (Decidable (∀ e ∈ (r.kind.layout f).fields, _ = (0 : UInt64)))

/-- `r` with the fields reset that a family does not carry. -/
def trim (f : Family) (r : Record) : Record :=
  r.kind.record ((r.kind.layout f).trim r.contents)

/-- The hardware has the trigger mode of a completion record. -/
def triggerValid : Record → Bool
  | completion r => decide (r.triggerMode.toNat ≤ TriggerMode.maxCode)
  | _ => true

theorem kind_record (k : RecordKind) (r : k.Contents) : (k.record r).kind = k := by
  cases k <;> rfl

end Record

/-- An operation on a context. -/
structure Access.Call where
  selector : Selector
  operation : Operation
  qid : UInt16
  record : Option Record := none
  deriving DecidableEq, Repr

namespace Access

/-- The call has what its operation needs: a record of the kind of the context to write, or just a
kind to read. A direct function map has no cached copy to drop. -/
def Call.prepared (a : Access) (c : Call) : Bool :=
  match c.operation with
  | .clear => true
  | .invalidate => !a.isDirect c.selector
  | .write =>
    match c.record with
    | some r => c.selector.kind? == some r.kind && r.kind.writable && r.triggerValid
    | none => false
  | .read => c.selector.kind?.isSome

/-- The calls one after the other, with all their answers. -/
def programAll (a : Access) : List Call → Script (List (Except AccessError (Option Record)))
  | [] => return []
  | c :: rest => do
    let answer ← (a.program c.selector c.operation c.qid c.record).run
    return answer :: (← a.programAll rest)

/-- What a context holds for a record, or for none. -/
def packed (a : Access) (s : Selector) : Option Record → List UInt32
  | none => List.replicate (a.width s) 0
  | some r => a.image (r.kind.layout a.family) s r.contents

/-- The record of a kind in the words of a context. -/
def unpack (a : Access) (k : RecordKind) (words : List UInt32) : Record :=
  k.record ((k.layout a.family).decode (words.take (k.layout a.family).words))

end Access

/-- Records by selector and queue id. -/
abbrev Records := Selector → UInt16 → Option Record

namespace Records

/-- Every record is zero. -/
def blank : Records := fun s _ => s.kind?.map RecordKind.zero

def set (m : Records) (selector : Selector) (qid : UInt16) (record : Option Record) : Records :=
  fun s q => if s = selector ∧ q = qid then record else m s q

/-- What a call answers if it is carried out, and the map after it. -/
def perform (a : Access) (m : Records) (c : Access.Call) : Option Record × Records :=
  match c.operation with
  | .clear => (none, m.set c.selector c.qid (c.selector.kind?.map RecordKind.zero))
  | .invalidate => (none, m)
  | .write => (none, m.set c.selector c.qid (c.record.map (Record.trim a.family)))
  | .read => (m c.selector c.qid, m)

/-- The answer to a call, and the map after it. A call that is refused changes nothing. -/
def call (a : Access) (m : Records) (c : Access.Call) :
    Except AccessError (Option Record) × Records :=
  if a.variant.supports c.selector = false then (.error .unsupportedSelector, m)
  else if c.prepared a ∧ a.Addresses c.selector c.qid then
    ((m.perform a c).1 |> .ok, (m.perform a c).2)
  else (.error .invalidParameter, m)

/-- The answers to calls, and the map after them. -/
def calls (a : Access) (m : Records) :
    List Access.Call → List (Except AccessError (Option Record)) × Records
  | [] => ([], m)
  | c :: rest =>
    match m.call a c with
    | (answer, next) =>
      match next.calls a rest with
      | (answers, last) => (answer :: answers, last)

/-- A record that a context can hold: of its kind, with nothing that is not carried. -/
structure Proper (f : Family) (s : Selector) (record : Option Record) : Prop where
  kind : record.map Record.kind = s.kind?
  fits : ∀ r, record = some r → r.Fits f
  trimmed : ∀ r, record = some r → r.trim f = r

/-- The cells hold the records of the map. -/
structure Shown (a : Access) (m : Records) (cells : Cells) : Prop where
  packed : ∀ s q, cells s q = a.packed s (m s q)
  proper : ∀ s q, Proper a.family s (m s q)

end Records

namespace Access

open Card

variable {a : Access} {s : Selector} {q : UInt16} {card : Card} {k : RecordKind}

/-! ## Packed and unpacked records -/

theorem words_le_width (hk : s.kind? = some k) : (k.layout a.family).words ≤ a.width s := by
  cases hd : a.isDirect s with
  | false =>
    rw [width, hd]
    exact k.layout_words_le a.variant
  | true =>
    obtain rfl := eq_of_isDirect hd
    obtain rfl : RecordKind.functionMap = k := Option.some.inj hk
    have hvariant : a.variant = .versalHard := by
      simpa [isDirect, Variant.directFunctionMap] using hd
    unfold family width isDirect
    rw [hvariant]
    decide

theorem decode_image {R F : Type} [DecidableEq F] [Fields R F] {l : Layout F} (hl : l.Valid)
    (hw : l.words ≤ a.width s) {r : R} (hr : l.Holds r) :
    l.decode ((a.image l s r).take l.words) = l.trim r := by
  have hmax := hl.words
  have hlength : (l.pack r).length = l.words := by
    rw [Layout.length_pack]
    omega
  have htake : (a.image l s r).take l.words = l.pack r := by
    rw [← hlength]
    exact take_resize (by omega)
  rw [htake, hl.decode_pack hr]

theorem unpack_packed {r : Record} (hk : s.kind? = some r.kind) (hr : r.Fits a.family) :
    a.unpack r.kind (a.packed s (some r)) = r.trim a.family :=
  congrArg r.kind.record
    (decode_image (RecordKind.layout_valid a.family r.kind) (words_le_width hk) hr)

/-! ## One access -/

theorem readRecord_effect (hk : s.kind? = some k) (card : Card) (q : UInt16) :
    a.Effect (a.readRecord s q) card s q (a.cells card) (a.unpack k (a.cells card s q)) := by
  have hw : ∀ k : RecordKind, (k.layout a.family).words ≤ a.variant.window.words :=
    fun k => k.layout_words_le a.variant
  cases s <;> cases hk
  · exact (readPacked_effect (hw .software) rfl card q).map _
  · exact (readPacked_effect (hw .software) rfl card q).map _
  · exact (readPacked_effect (hw .hardware) rfl card q).map _
  · exact (readPacked_effect (hw .hardware) rfl card q).map _
  · exact (readPacked_effect (hw .credit) rfl card q).map _
  · exact (readPacked_effect (hw .credit) rfl card q).map _
  · exact (readPacked_effect (hw .completion) rfl card q).map _
  · exact (readPacked_effect (hw .prefetch) rfl card q).map _
  · exact (readPacked_effect (hw .interrupt) rfl card q).map _
  · exact (readFunctionMap_effect card q).map _

theorem readRecord_none (hk : s.kind? = none) (q : UInt16) :
    a.readRecord s q = throw .invalidParameter := by
  cases s <;> first | rfl | cases hk

/-- A record of the wrong kind does not reach the device. -/
theorem writeRecord_refused {record : Record}
    (h : ¬ (s.kind? = some record.kind ∧ record.kind.writable = true)) (q : UInt16) :
    a.writeRecord s q record = (do
      Script.notice (.recordMismatch s)
      throw .invalidParameter) := by
  cases s <;> cases record <;> first | rfl | exact absurd ⟨rfl, rfl⟩ h

theorem writeRecord_effect {record : Record} (hk : s.kind? = some record.kind)
    (hw : record.kind.writable = true) (ht : record.triggerValid = true)
    (hfits : record.Fits a.family) (card : Card) (q : UInt16) :
    a.Effect (a.writeRecord s q record) card s q
      ((a.cells card).store s q (a.packed s (some record))) () := by
  have hl : ∀ k : RecordKind, (k.layout a.family).Valid := fun k => k.layout_valid a.family
  have hwords : ∀ k : RecordKind, (k.layout a.family).words ≤ a.variant.window.words :=
    fun k => k.layout_words_le a.variant
  cases record with
  | software r =>
    cases s <;> cases hk
    · exact writePacked_effect (hl .software) (hwords .software) rfl hfits card q
    · exact writePacked_effect (hl .software) (hwords .software) rfl hfits card q
  | hardware r => cases hw
  | credit r => cases hw
  | prefetch r =>
    cases s <;> cases hk
    exact writePacked_effect (hl .prefetch) (hwords .prefetch) rfl hfits card q
  | completion r =>
    cases s <;> cases hk
    exact writeCompletion_effect hfits (of_decide_eq_true ht) card q
  | interrupt r =>
    cases s <;> cases hk
    exact writePacked_effect (hl .interrupt) (hwords .interrupt) rfl hfits card q
  | functionMap r =>
    cases s <;> cases hk
    exact writeFunctionMap_effect hfits card q

/-- Trigger modes that the hardware lacks do not reach the device. -/
theorem writeRecord_trigger {record : Record} (hk : s.kind? = some record.kind)
    (ht : record.triggerValid = false) (q : UInt16) :
    (a.writeRecord s q record).run.Returns (backend a.variant.window) card fun r card' =>
      r = .error .invalidParameter ∧ card' = card := by
  cases record with
  | completion r =>
    cases s <;> cases hk
    refine ⟨_, card, ?_, rfl, rfl⟩
    show (a.writeCompletion q r).run.run _ card = _
    unfold writeCompletion CompletionContext.encodeValid CompletionContext.validate
    rw [if_pos (by simpa [Record.triggerValid] using ht)]
    rfl
  | _ => cases ht

end Access

/-! ## One call -/

namespace Record

variable {f : Family}

theorem trim_kind (f : Family) (r : Record) : (r.trim f).kind = r.kind := by
  cases r <;> rfl

theorem trim_trim (f : Family) (r : Record) : (r.trim f).trim f = r.trim f := by
  have hkind : ∀ (k : RecordKind) (x : k.Contents),
      k.record ((k.layout f).trim ((k.layout f).trim x)) = k.record ((k.layout f).trim x) :=
    fun k x => congrArg k.record (Layout.trim_trim _ x)
  cases r <;> exact hkind (Record.kind _) _

theorem fits_trim {r : Record} (h : r.Fits f) : (r.trim f).Fits f := by
  have hkind : ∀ (k : RecordKind) (x : k.Contents), (k.layout f).Holds x →
      (k.layout f).Holds ((k.layout f).trim x) := fun k x => Layout.holds_trim
  cases r <;> exact hkind (Record.kind _) _ h

theorem zero_kind (k : RecordKind) : k.zero.kind = k :=
  kind_record k _

theorem fits_zero (f : Family) (k : RecordKind) : k.zero.Fits f := by
  cases k <;> exact Layout.holds_zero _

theorem trim_zero (f : Family) (k : RecordKind) : k.zero.trim f = k.zero := by
  have hkind : ∀ k : RecordKind, k.record ((k.layout f).trim Fields.zero) = k.zero :=
    fun k => congrArg k.record (Layout.trim_zero _)
  cases k <;> exact hkind _

end Record

namespace Access

open Card

variable {a : Access} {m : Records} {s : Selector} {q : UInt16} {card : Card} {cells : Cells}

/-- A zero record is stored as zeros. -/
theorem packed_zero (s : Selector) :
    a.packed s (s.kind?.map RecordKind.zero) = List.replicate (a.width s) 0 := by
  have hkind : ∀ k : RecordKind,
      a.packed s (some k.zero) = resize (a.width s) (Image.zero (k.layout a.family).words) := by
    intro k
    have hzero := Layout.pack_zero (R := k.Contents) (k.layout_valid a.family).segment_fits
    cases k <;> exact congrArg (resize (a.width s)) hzero
  cases hk : s.kind? with
  | none => rfl
  | some k => exact (hkind k).trans (resize_zero _ _)

theorem packed_trim (s : Selector) (r : Record) :
    a.packed s (some (r.trim a.family)) = a.packed s (some r) := by
  have hkind : ∀ (k : RecordKind) (x : k.Contents),
      (k.layout a.family).pack ((k.layout a.family).trim x) = (k.layout a.family).pack x :=
    fun k x => (k.layout_valid a.family).pack_trim x
  cases r <;> exact congrArg (resize (a.width s)) (hkind (Record.kind _) _)

end Access

namespace Records

open Card

variable {a : Access} {m : Records} {s : Selector} {q : UInt16} {card : Card} {cells : Cells}

theorem proper_zero (f : Family) (s : Selector) :
    Proper f s (s.kind?.map RecordKind.zero) where
  kind := by
    cases s.kind? with
    | none => rfl
    | some k => exact congrArg some (Record.zero_kind k)
  fits r hr := by
    obtain ⟨k, -, rfl⟩ := Option.map_eq_some_iff.1 hr
    exact Record.fits_zero f k
  trimmed r hr := by
    obtain ⟨k, -, rfl⟩ := Option.map_eq_some_iff.1 hr
    exact Record.trim_zero f k

theorem proper_trim {f : Family} {r : Record} (hk : s.kind? = some r.kind) (hr : r.Fits f) :
    Proper f s (some (r.trim f)) where
  kind := by
    rw [hk]
    exact congrArg some (Record.trim_kind f r)
  fits r' h := by
    cases h
    exact Record.fits_trim hr
  trimmed r' h := by
    cases h
    exact Record.trim_trim f r

theorem Shown.blank (h : ∀ s q, cells s q = List.replicate (a.width s) 0) :
    Records.blank.Shown a cells where
  packed s q := (h s q).trans (Access.packed_zero s).symm
  proper s _ := proper_zero a.family s

/-- A record is replaced on both sides. -/
theorem Shown.set (hm : m.Shown a cells) {record : Option Record}
    (hr : Proper a.family s record) (q : UInt16) :
    (m.set s q record).Shown a (cells.store s q (a.packed s record)) := by
  refine ⟨fun s' q' => ?_, fun s' q' => ?_⟩
  all_goals unfold Records.set
  all_goals by_cases hkey : s' = s ∧ q' = q
  · obtain ⟨rfl, rfl⟩ := hkey
    rw [Cells.store_self, if_pos ⟨rfl, rfl⟩]
  · rw [Cells.store_other hkey, if_neg hkey, hm.packed]
  · rw [if_pos hkey, hkey.1]
    exact hr
  · rw [if_neg hkey]
    exact hm.proper s' q'

/-- What is read is the record of the map. -/
theorem Shown.unpack (hm : m.Shown a cells) {k : RecordKind} (hk : s.kind? = some k)
    (q : UInt16) : some (a.unpack k (cells s q)) = m s q := by
  have hproper := hm.proper s q
  have hkind := hproper.kind
  rw [hk] at hkind
  obtain ⟨r, hr, rfl⟩ := Option.map_eq_some_iff.1 hkind
  rw [hm.packed, hr, Access.unpack_packed hk (hproper.fits r hr), hproper.trimmed r hr]

/-- A call that is prepared has the effect that the map says. -/
theorem perform_effect (hm : m.Shown a (a.cells card)) {c : Access.Call}
    (hs : a.variant.supports c.selector = true) (hc : c.prepared a = true)
    (hfits : ∀ r ∈ c.record, r.Fits a.family) :
    ∃ stored, a.Effect (a.program c.selector c.operation c.qid c.record) card c.selector c.qid
      stored (m.perform a c).1 ∧ (m.perform a c).2.Shown a stored := by
  obtain ⟨s, operation, q, record⟩ := c
  unfold Access.program
  rw [Access.checkSelector_eq hs]
  cases operation with
  | clear =>
    refine ⟨_, (Access.clear_effect hs card q).map fun _ => none, ?_⟩
    rw [← Access.packed_zero s]
    exact hm.set (proper_zero a.family s) q
  | invalidate =>
    have hd : a.isDirect s = false := by simpa [Access.Call.prepared] using hc
    exact ⟨_, (Access.invalidate_effect hs hd card q).map fun _ => none, hm⟩
  | write =>
    cases record with
    | none => cases hc
    | some r =>
      simp only [Access.Call.prepared, Bool.and_eq_true, beq_iff_eq] at hc
      obtain ⟨⟨hk, hw⟩, ht⟩ := hc
      have hr := hfits r rfl
      refine ⟨_, (Access.writeRecord_effect hk hw ht hr card q).map fun _ => none, ?_⟩
      rw [← Access.packed_trim s r]
      exact hm.set (proper_trim hk hr) q
  | read =>
    obtain ⟨k, hk⟩ := Option.isSome_iff_exists.1 hc
    refine ⟨_, ?_, hm⟩
    show a.Effect _ _ _ _ _ (m s q)
    rw [← hm.unpack hk q]
    exact (Access.readRecord_effect hk card q).map some

/-- A call without what it needs is refused by the host. -/
theorem program_unprepared {c : Access.Call} (hs : a.variant.supports c.selector = true)
    (hc : c.prepared a = false) (card : Card) :
    (a.program c.selector c.operation c.qid c.record).run.Returns (backend a.variant.window) card
      fun r card' => r = .error .invalidParameter ∧ card' = card := by
  obtain ⟨s, operation, q, record⟩ := c
  unfold Access.program
  rw [Access.checkSelector_eq hs]
  cases operation with
  | clear => cases hc
  | invalidate =>
    have hd : a.isDirect s = true := by simpa [Access.Call.prepared] using hc
    refine ⟨_, card, ?_, rfl, rfl⟩
    show (a.invalidate s q >>= fun _ => pure none).run.run _ card = _
    unfold Access.invalidate
    rw [Access.checkSelector_eq hs, hd]
    rfl
  | write =>
    cases record with
    | none => exact ⟨_, card, rfl, rfl, rfl⟩
    | some r =>
      show (a.writeRecord s q r >>= fun _ => pure none).run.Returns _ card _
      by_cases hkind : s.kind? = some r.kind ∧ r.kind.writable = true
      · have ht : r.triggerValid = false := by
          simpa [Access.Call.prepared, hkind.1, hkind.2] using hc
        refine (Access.writeRecord_trigger hkind.1 ht q).action ?_ ?_
        · rintro _ card' ⟨hok, -⟩
          cases hok
        · rintro error card' ⟨herror, hcard⟩
          cases herror
          exact ⟨rfl, hcard⟩
      · rw [Access.writeRecord_refused hkind]
        exact ⟨_, card, rfl, rfl, rfl⟩
  | read =>
    have hk : s.kind? = none := by simpa [Access.Call.prepared] using hc
    refine ⟨_, card, ?_, rfl, rfl⟩
    show (some <$> a.readRecord s q).run.run _ card = _
    rw [Access.readRecord_none hk]
    rfl

/-- One call on a device that answers promptly. -/
theorem call_returns (hp : card.Prompt a.poll.attempts) (hm : m.Shown a (a.cells card))
    {c : Access.Call} (hfits : ∀ r ∈ c.record, r.Fits a.family) :
    (a.program c.selector c.operation c.qid c.record).run.Returns (backend a.variant.window) card
      fun r card' => r = (m.call a c).1 ∧ (m.call a c).2.Shown a (a.cells card') := by
  unfold call
  cases hs : a.variant.supports c.selector with
  | false =>
    rw [if_pos rfl]
    refine ⟨_, card, ?_, rfl, hm⟩
    unfold Access.program Access.checkSelector
    rw [hs]
    rfl
  | true =>
    rw [if_neg (by simp)]
    cases hc : c.prepared a with
    | false =>
      rw [if_neg (by simp)]
      refine (program_unprepared hs hc card).mono ?_
      rintro r card' ⟨rfl, rfl⟩
      exact ⟨rfl, hm⟩
    | true =>
      obtain ⟨stored, heffect, hstored⟩ := perform_effect hm hs hc hfits
      refine heffect.mono fun r card' ho => ?_
      rcases ho.of_prompt hp with ⟨haddressed, hr, hcells⟩ | ⟨hrefused, hr, hcells⟩
      · rw [if_pos ⟨rfl, haddressed⟩, hr, hcells]
        exact ⟨rfl, hstored⟩
      · rw [if_neg fun h => hrefused h.2, hr, hcells]
        exact ⟨rfl, hm⟩

theorem calls_returns (hp : card.Prompt a.poll.attempts) (hm : m.Shown a (a.cells card))
    {cs : List Access.Call} (hfits : ∀ c ∈ cs, ∀ r ∈ c.record, r.Fits a.family) :
    (a.programAll cs).Returns (backend a.variant.window) card fun answers card' =>
      answers = (m.calls a cs).1 ∧ (m.calls a cs).2.Shown a (a.cells card') := by
  induction cs generalizing m card with
  | nil => exact Script.returns_pure.2 ⟨rfl, hm⟩
  | cons c rest ih =>
    obtain ⟨answer, card', hrun, rfl, hm'⟩ := call_returns hp hm (hfits c List.mem_cons_self)
    refine .step hrun ?_
    obtain ⟨answers, card'', hrest, rfl, hm''⟩ :=
      ih (hp.run hrun) hm' fun c' hc' => hfits c' (List.mem_cons_of_mem _ hc')
    exact .step hrest (Script.returns_pure.2 ⟨rfl, hm''⟩)

end Records

namespace Access

/-- Over any calls with records that fit, a prompt device whose contexts are zero answers as the map
of records does that is zero at first, and its contexts are the packed records of that map. So a
call changes no context but its own, and none if it fails. -/
theorem behaves_as_records (a : Access) {card : Card} (hp : card.Prompt a.poll.attempts)
    (hzero : ∀ s q, a.cells card s q = List.replicate (a.width s) 0) (cs : List Call)
    (hfits : ∀ c ∈ cs, ∀ r ∈ c.record, r.Fits a.family) :
    ∃ card', (a.programAll cs).run (Card.backend a.variant.window) card =
        (.ok (Records.blank.calls a cs).1, card') ∧
      ∀ s q, a.cells card' s q = a.packed s ((Records.blank.calls a cs).2 s q) := by
  obtain ⟨answers, card', hrun, rfl, hshown⟩ :=
    Records.calls_returns hp (Records.Shown.blank hzero) hfits
  exact ⟨card', hrun, hshown.packed⟩

/-- A part whose function map is direct. -/
def sampleAccess : Access := ⟨.versalHard, ⟨1, 1⟩, none⟩

/-- The part has no timers, and its prefetch contexts do not carry the virtio flag. -/
def sampleCalls : List Call :=
  [⟨.functionMap, .write, 3, some (.functionMap ⟨5, 8⟩)⟩, ⟨.functionMap, .read, 3, none⟩,
    ⟨.functionMap, .read, 4, none⟩, ⟨.functionMap, .invalidate, 3, none⟩,
    ⟨.functionMap, .read, 256, none⟩, ⟨.timer, .clear, 0, none⟩,
    ⟨.prefetch, .write, 7, some (.prefetch { bufferSize := 3, virtio := true, valid := true })⟩,
    ⟨.completion, .write, 7, some (.prefetch {})⟩, ⟨.prefetch, .read, 7, none⟩,
    ⟨.prefetch, .clear, 7, none⟩, ⟨.prefetch, .read, 7, none⟩]

theorem cells_blank (a : Access) (s : Selector) (q : UInt16) :
    a.cells {} s q = List.replicate (a.width s) 0 := by
  unfold cells width
  cases hd : a.isDirect s with
  | false =>
    rw [cellsOf_indirect hd]
    show Card.resize _ [] = _
    exact Card.resize_zero _ 0
  | true =>
    rw [cellsOf_direct hd]
    have hmap : (({} : Card).memory a.variant.window).registers (Register.functionMap q) = 0 := by
      exact ite_self _
    rw [hmap]
    split <;> rfl

theorem sample_behaves_as_records :
    ∃ card', (sampleAccess.programAll sampleCalls).run (Card.backend .hard) {} =
        (.ok [.ok none, .ok (some (.functionMap ⟨5, 8⟩)), .ok (some (.functionMap ⟨0, 0⟩)),
          .error .invalidParameter, .error .invalidParameter, .error .unsupportedSelector,
          .ok none, .error .invalidParameter,
          .ok (some (.prefetch { bufferSize := 3, valid := true })), .ok none,
          .ok (some (.prefetch {}))], card') := by
  have hprompt : ({} : Card).Prompt sampleAccess.poll.attempts :=
    fun _ _ => ⟨0, Nat.zero_le _, rfl⟩
  obtain ⟨card', hrun, -⟩ := behaves_as_records sampleAccess hprompt (cells_blank sampleAccess)
    sampleCalls (by decide +kernel)
  exact ⟨card', hrun⟩

end Access

end DmaQueues
