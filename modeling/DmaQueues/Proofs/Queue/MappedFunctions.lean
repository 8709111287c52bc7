import DmaQueues.Proofs.Queue.Attach

/-!
# Function maps after attaching

The attributes count the physical functions with a BAR mapping, whichever they are. Attaching takes
the number for a bound: it zeroes the function maps below it. So where functions without a mapping
stand before others that have one, the maps of the last keep what they held
(`attach_clears_first_maps`).
-/

namespace DmaQueues

/-- Ones that all have indices below `n` are no more than `n`. -/
theorem count_le_of_lt {l : List Bool} {n : Nat} (h : ∀ i, l[i]? = some true → i < n) :
    l.count true ≤ n := by
  induction l generalizing n with
  | nil => exact Nat.zero_le n
  | cons b l ih =>
    have hrest : l.count true ≤ n - 1 := ih fun i hi => by
      have hlt := h (i + 1) hi
      omega
    cases b with
    | false =>
      rw [List.count_cons_of_ne (by decide)]
      omega
    | true =>
      have hfirst := h 0 rfl
      rw [List.count_cons_self]
      omega

/-- The ones of a list have indices below their number exactly if they stand first. -/
theorem lt_count_iff {l : List Bool} : (∀ i : Nat, l[i]? = some true → i < l.count true) ↔
    ∀ i : Nat, l[i]? = some true → ∀ j < i, l[j]? = some true := by
  induction l with
  | nil => simp
  | cons b l ih =>
    cases b with
    | true =>
      rw [List.count_cons_self]
      constructor
      · intro h i hi j hj
        obtain ⟨i, rfl⟩ := Nat.exists_eq_succ_of_ne_zero (by omega : i ≠ 0)
        cases j with
        | zero => rfl
        | succ j =>
          refine ih.1 (fun k hk => ?_) i hi j (by omega)
          have hlt := h (k + 1) hk
          omega
      · intro h i hi
        cases i with
        | zero => omega
        | succ i =>
          have hlt := ih.2 (fun k hk j hj => h (k + 1) hk (j + 1) (by omega)) i hi
          omega
    | false =>
      -- The ones stand from index one on, so they cannot all be below their number: there are none.
      rw [List.count_cons_of_ne (by decide)]
      constructor
      · intro h i hi
        have hcount : l.count true ≤ l.count true - 1 := count_le_of_lt fun k hk => by
          have hlt := h (k + 1) hk
          omega
        have hlt := h i hi
        omega
      · intro h i hi
        cases i with
        | zero => cases hi
        | succ i => cases h (i + 1) hi 0 (by omega)

namespace Identification

/-- Which physical functions have a BAR mapping. -/
def mappings (barMap : UInt32) : List Bool :=
  Register.barMapMasks.map fun mask => Mask.get mask barMap != 0

/-- The physical function has a BAR mapping. -/
def Mapped (barMap : UInt32) (p : Nat) : Prop :=
  (mappings barMap)[p]? = some true

instance (barMap : UInt32) (p : Nat) : Decidable (Mapped barMap p) :=
  inferInstanceAs (Decidable (_ = _))

theorem count_mappings (barMap : UInt32) : (mappings barMap).count true = countFunctions barMap := by
  unfold mappings countFunctions
  rw [List.count_eq_countP, List.countP_map]
  congr 1
  funext mask
  exact beq_true _

theorem Mapped.lt {barMap : UInt32} {p : Nat} (h : Mapped barMap p) : p < 4 := by
  obtain ⟨hlt, -⟩ := List.getElem?_eq_some_iff.1 h
  exact hlt

end Identification

/-- A map that was zeroed reads zero. -/
theorem Access.maps_of_cleared {a : Access} {card : Card} {functionId : UInt16}
    (h : a.Cleared card .functionMap functionId) : a.maps card functionId = ⟨0, 0⟩ := by
  have hl : (FunctionMap.layout a.family).Valid := RecordKind.layout_valid a.family .functionMap
  have hw : (FunctionMap.layout a.family).words ≤ a.width .functionMap :=
    words_le_width (k := .functionMap) rfl
  have hcell : a.cells card .functionMap functionId =
      a.image (FunctionMap.layout a.family) .functionMap (Fields.zero : FunctionMap) :=
    h.trans (packed_zero .functionMap).symm
  unfold maps
  rw [hcell, decode_image hl hw (Layout.holds_zero _), FunctionMap.trim_eq]
  rfl

namespace Device

open Identification

variable {d : Device} {card card' : Card} {v : Variant} {poll : Poll}

/-- Attaching zeroes the first maps and leaves the others. -/
theorem attach_maps (h : Physical card.registers v) (hp : card.Prompt poll.attempts)
    (hr : (attach { poll, clearOnAttach := true }).run.run (Card.backend v.window) card =
      (.ok (.ok d), card')) :
    d.access.variant = v ∧ d.access.poll = poll ∧ ∀ id, d.access.maps card' id =
      if id.toNat < countFunctions (card.registers Register.barMap) then ⟨0, 0⟩
      else d.access.maps card id := by
  obtain ⟨r, card'', hr', hattach⟩ := attach_cells h hp
  cases hr.symm.trans hr'
  split at hattach
  next =>
    obtain ⟨_, hd, hvariant, hpoll, hcells⟩ := hattach
    cases hd
    refine ⟨hvariant, hpoll, fun id => ?_⟩
    have hcell := hcells .functionMap id
    have hqueue : ¬ OfQueue card.registers .functionMap id := fun hof => nomatch hof.2.1
    have hfunction : OfFunction card.registers .functionMap id ↔
        id.toNat < countFunctions (card.registers Register.barMap) := and_iff_right rfl
    simp only [hqueue, false_or, hfunction] at hcell
    by_cases hbelow : id.toNat < countFunctions (card.registers Register.barMap)
    · rw [if_pos hbelow] at hcell ⊢
      exact Access.maps_of_cleared hcell
    · rw [if_neg hbelow] at hcell ⊢
      unfold Access.maps
      rw [hcell]
  next => cases hattach

/-- A physical function that is attached has cleared the maps of as many functions as are mapped,
from the first on. A mapped function reads zero if it is one of these, and its map as it was if it
is not. All mapped functions are among them exactly if they stand first. -/
theorem attach_clears_first_maps (h : Physical card.registers v) (hp : card.Prompt poll.attempts)
    (hr : (attach { poll, clearOnAttach := true }).run.run (Card.backend v.window) card =
      (.ok (.ok d), card')) :
    (∀ p, Mapped (card.registers Register.barMap) p →
      ((d.functionMap (UInt16.ofNat p)).run.run (Card.backend v.window) card').1 =
        if p < countFunctions (card.registers Register.barMap) then .ok (.ok ⟨0, 0⟩)
        else ((d.functionMap (UInt16.ofNat p)).run.run (Card.backend v.window) card).1) ∧
    ((∀ p, Mapped (card.registers Register.barMap) p →
        p < countFunctions (card.registers Register.barMap)) ↔
      ∀ p, Mapped (card.registers Register.barMap) p →
        ∀ p' < p, Mapped (card.registers Register.barMap) p') := by
  obtain ⟨rfl, rfl, hmaps⟩ := attach_maps h hp hr
  refine ⟨fun p hmapped => ?_, ?_⟩
  · have hlt := hmapped.lt
    have hid : (UInt16.ofNat p).toNat = p := UInt16.toNat_ofNat_of_lt' (show p < 65536 by omega)
    have hlimit : (UInt16.ofNat p).toNat < d.variant.functionLimit := by
      rw [hid]
      exact hlt.trans_le d.variant.four_le_functionLimit
    have hbefore := functionMap_run hp (UInt16.ofNat p)
    have hafter := functionMap_run (hp.run hr) (UInt16.ofNat p)
    rw [if_pos hlimit] at hbefore hafter
    rw [hmaps, hid] at hafter
    refine hafter.trans ?_
    split
    next => rfl
    next => exact hbefore.symm
  · rw [← count_mappings]
    exact lt_count_iff

theorem mapped_functions_are_cleared :
    ∃ d card', (attach { poll := ⟨1, 1⟩, clearOnAttach := true }).run.run (Card.backend .soft)
        twoQueueCard = (.ok (.ok d), card') ∧
      ((d.functionMap 1).run.run (Card.backend .soft) twoQueueCard).1 = .ok (.ok ⟨7, 0⟩) ∧
      ((d.functionMap 1).run.run (Card.backend .soft) card').1 = .ok (.ok ⟨0, 0⟩) := by
  have hid : Physical twoQueueCard.registers .legacySoft := ⟨by decide, rfl⟩
  have hp : twoQueueCard.Prompt (Poll.attempts ⟨1, 1⟩) := fun _ _ => ⟨0, Nat.zero_le _, rfl⟩
  obtain ⟨d, card', hr, hbefore⟩ : ∃ d card',
      (attach { poll := ⟨1, 1⟩, clearOnAttach := true }).run.run (Card.backend .soft)
        twoQueueCard = (.ok (.ok d), card') ∧
      ((d.functionMap 1).run.run (Card.backend .soft) twoQueueCard).1 = .ok (.ok ⟨7, 0⟩) :=
    ⟨_, _, rfl, rfl⟩
  have hafter := (attach_clears_first_maps hid hp hr).1 1 (by decide)
  rw [if_pos (by decide)] at hafter
  exact ⟨d, card', hr, hbefore, hafter⟩

/-- A soft part with one queue whose first and third functions are mapped, and a map of the
third. -/
def gapCard : Card where
  registers o :=
    if o = Register.identifier then 0x1fd30000 else if o = Register.barMap then 0x4001
    else if o = Register.capacity then 1 else 0
  contexts s q := if s = .functionMap ∧ q = 2 then some [5, 3] else none

/-- Two functions are mapped, so two maps are zeroed, and the map of the third function is none of
them. -/
theorem gap_leaves_map :
    Physical gapCard.registers .legacySoft ∧ gapCard.Prompt (Poll.attempts ⟨1, 1⟩) ∧
      Mapped (gapCard.registers Register.barMap) 2 ∧
      ∃ d card', (attach { poll := ⟨1, 1⟩, clearOnAttach := true }).run.run (Card.backend .soft)
          gapCard = (.ok (.ok d), card') ∧
        ((d.functionMap 2).run.run (Card.backend .soft) card').1 = .ok (.ok ⟨5, 3⟩) :=
  ⟨⟨by decide, rfl⟩, fun _ _ => ⟨0, Nat.zero_le _, rfl⟩, by decide, _, _, rfl, rfl⟩

end Device

end DmaQueues
