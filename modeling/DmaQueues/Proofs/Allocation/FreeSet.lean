import DmaQueues.Allocation.Group
import DmaQueues.Proofs.Allocation.FreeList
import Mathlib.Data.Set.Lattice
import Mathlib.Order.CompletePartialOrder

/-!
# Free lists as sets

`l.Lists ids` reads a list as the set of its ids: it is well formed, each of its ranges ends with a
word, and its ids are `ids`. Such a list is the only one of its set, so returning and taking ranges
obey the laws of union and difference, element by element (`behaves_as_set`): one undoes the other,
and the order in which ranges are returned does not matter.
-/

namespace DmaQueues

def QueueRange.ids (r : QueueRange) : Set Nat :=
  {q | r.Holds q}

namespace FreeList

open QueueRange

/-! ## Calls -/

/-- A call that changes a list. -/
inductive Call where
  | insert (range : QueueRange)
  | take (want : QueueRange)
  deriving DecidableEq, Repr

/-- What a call does to its list, which stays as it is if the range cannot be taken. -/
def apply (l : FreeList) : Call → Checked (Reply FreeList ResourceError Unit)
  | .insert range => do return ⟨← l.insert range, .ok (), []⟩
  | .take want => do
    match ← l.take want with
    | .ok rest => return ⟨rest, .ok (), []⟩
    | .error error => return ⟨l, .error error, []⟩

/-- The list with some ranges returned, one after the other. -/
def insertAll (l : FreeList) (ranges : List QueueRange) : Checked FreeList :=
  ranges.foldlM insert l

/-! ## The set of a list -/

/-- The well-formed list of a set of ids. -/
structure Lists (l : FreeList) (ids : Set Nat) : Prop where
  wellFormed : l.WellFormed
  /-- A range with an end that is no word can be compared with no other. -/
  bounded : ∀ r ∈ l.ranges, r.Bounded
  mem : ∀ q, l.Mem q ↔ q ∈ ids

variable {l l' : FreeList} {ids : Set Nat} {r : QueueRange}

theorem Lists.unique (h : l.Lists ids) (h' : l'.Lists ids) : l = l' :=
  h.wellFormed.ext h'.wellFormed fun q => (h.mem q).trans (h'.mem q).symm

/-- The ids of a well-formed list are those of a set, each below the last word. -/
theorem Lists.of_mem (hl : l.WellFormed) (hb : ∀ q, l.Mem q → q + 1 < wordLimit)
    (hm : ∀ q, l.Mem q ↔ q ∈ ids) : l.Lists ids :=
  ⟨hl, fun r hr => Below.bounded hb hr (hl.1 r hr), hm⟩

theorem Lists.insert (h : l.Lists ids) (hr : r.Bounded) (hd : Disjoint ids r.ids) :
    ∃ l', l.insert r = .ok l' ∧ l'.Lists (ids ∪ r.ids) := by
  by_cases hempty : r.count = 0
  · have hnone : r.ids = ∅ := Set.eq_empty_of_forall_notMem fun q hq => by
      have hq' : r.Holds q := hq
      unfold Holds at hq'
      omega
    rw [hnone, Set.union_empty]
    exact ⟨l, if_pos hempty, h⟩
  · have hbelow : ∀ q, l.Mem q ∨ r.Holds q → q + 1 < wordLimit := fun q hq =>
      hq.elim (below_of_bounded h.bounded q) hr.lt
    obtain ⟨l', ho, hl', hm⟩ := insert_spec h.wellFormed (by omega)
      (fun q hq hfree => Set.disjoint_left.1 hd ((h.mem q).1 hfree) hq) hbelow
    exact ⟨l', ho, .of_mem hl' (fun q hq => hbelow q ((hm q).1 hq))
      fun q => (hm q).trans (or_congr (h.mem q) Iff.rfl)⟩

theorem Lists.take (h : l.Lists ids) (hr : 0 < r.count) (hsub : r.ids ⊆ ids) :
    ∃ l', l.take r = .ok (.ok l') ∧ l'.Lists (ids \ r.ids) := by
  have hcovers : ∃ s ∈ l.ranges, s.Covers r :=
    exists_covers h.wellFormed hr fun q hq => (h.mem q).2 (hsub hq)
  have hbelow : Below l.ranges := below_of_bounded h.bounded
  obtain ⟨l', ho, hl', hm⟩ := take_spec h.wellFormed hbelow hr hcovers
  exact ⟨l', ho, .of_mem hl' (fun q hq => hbelow q ((hm q).1 hq).1)
    fun q => (hm q).trans (and_congr (h.mem q) Iff.rfl)⟩

/-- A range of which an id is missing cannot be taken. -/
theorem Lists.take_refused (h : l.Lists ids) (hsub : ¬ r.ids ⊆ ids) :
    l.take r = .ok (.error .noQueuesLeft) := by
  rcases take_cases h.bounded r with ⟨-, ho⟩ | ⟨before, node, after, hsplit, hc, -⟩
  · exact ho
  · have hnode : node ∈ l.ranges := hsplit ▸ List.mem_append_right _ List.mem_cons_self
    exact absurd (fun q hq => (h.mem q).1 ⟨node, hnode, hc.holds hq⟩) hsub

/-- Ranges that are apart can be returned one after the other. -/
theorem Lists.insertAll {ranges : List QueueRange} (h : l.Lists ids)
    (hr : ∀ r ∈ ranges, r.Bounded) (hd : ∀ r ∈ ranges, Disjoint ids r.ids)
    (hpair : ranges.Pairwise fun a b => Disjoint a.ids b.ids) :
    ∃ l', l.insertAll ranges = .ok l' ∧ l'.Lists (ids ∪ {q | AnyHolds ranges q}) := by
  induction ranges generalizing l ids with
  | nil =>
    have hnone : {q | AnyHolds [] q} = (∅ : Set Nat) :=
      Set.eq_empty_of_forall_notMem fun q hq => anyHolds_nil q hq
    rw [hnone, Set.union_empty]
    exact ⟨l, rfl, h⟩
  | cons a rest ih =>
    obtain ⟨hra, hrest⟩ := List.forall_mem_cons.1 hr
    obtain ⟨hda, hdrest⟩ := List.forall_mem_cons.1 hd
    obtain ⟨hfirst, hlater⟩ := List.pairwise_cons.1 hpair
    obtain ⟨l₁, ho, h₁⟩ := h.insert hra hda
    obtain ⟨l', hall, hl'⟩ := ih h₁ hrest
      (fun r hr => Set.disjoint_union_left.2 ⟨hdrest r hr, hfirst r hr⟩) hlater
    refine ⟨l', ?_, ?_⟩
    · unfold FreeList.insertAll at hall ⊢
      rw [List.foldlM_cons, ho]
      exact hall
    · have hunion : ids ∪ {q | AnyHolds (a :: rest) q} =
          ids ∪ a.ids ∪ {q | AnyHolds rest q} := by
        rw [Set.union_assoc]
        exact congrArg (ids ∪ ·) (Set.ext fun q => anyHolds_cons a rest q)
      rwa [hunion]

/-- Ranges that are apart can be returned in any order. -/
theorem Lists.insertAll_perm {ranges ranges' : List QueueRange} (h : l.Lists ids)
    (hr : ∀ r ∈ ranges, r.Bounded) (hd : ∀ r ∈ ranges, Disjoint ids r.ids)
    (hpair : ranges.Pairwise fun a b => Disjoint a.ids b.ids) (hperm : ranges.Perm ranges') :
    ∃ l', l.insertAll ranges = .ok l' ∧ l.insertAll ranges' = .ok l' ∧
      l'.Lists (ids ∪ {q | AnyHolds ranges q}) := by
  obtain ⟨l₁, ho, h₁⟩ := h.insertAll hr hd hpair
  obtain ⟨l₂, ho', h₂⟩ := h.insertAll (fun r hr' => hr r (hperm.mem_iff.2 hr'))
    (fun r hr' => hd r (hperm.mem_iff.2 hr')) (hpair.perm hperm fun hab => hab.symm)
  have hsame : {q | AnyHolds ranges q} = {q | AnyHolds ranges' q} :=
    Set.ext fun q => exists_congr fun r => and_congr_left fun _ => hperm.mem_iff
  rw [hsame] at h₁
  rw [h₁.unique h₂] at ho
  exact ⟨l₂, ho, ho', hsame ▸ h₂⟩

/-! ## Union and difference -/

theorem apply_insert (ho : l.insert r = .ok l') : l.apply (.insert r) = .ok ⟨l', .ok (), []⟩ := by
  rw [apply, ho]
  rfl

theorem apply_take (ho : l.take r = .ok (.ok l')) : l.apply (.take r) = .ok ⟨l', .ok (), []⟩ := by
  rw [apply, ho]
  rfl

theorem apply_refused {error : ResourceError} (ho : l.take r = .ok (.error error)) :
    l.apply (.take r) = .ok ⟨l, .error error, []⟩ := by
  rw [apply, ho]
  rfl

/-- A range with no free id is added, and taking it leads back to the same list. A range of free
ids is taken away, and returning it leads back to the same list. Any other range is refused with
the list as it was. Ranges that are apart from the list and from each other make one list, in
whatever order they are returned. -/
theorem behaves_as_set (h : l.Lists ids) (hpos : 0 < r.count) (hr : r.Bounded) :
    (Disjoint ids r.ids →
      ∃ l', l.apply (.insert r) = .ok ⟨l', .ok (), []⟩ ∧ l'.Lists (ids ∪ r.ids) ∧
        l'.apply (.take r) = .ok ⟨l, .ok (), []⟩) ∧
    (r.ids ⊆ ids →
      ∃ l', l.apply (.take r) = .ok ⟨l', .ok (), []⟩ ∧ l'.Lists (ids \ r.ids) ∧
        l'.apply (.insert r) = .ok ⟨l, .ok (), []⟩) ∧
    (¬ r.ids ⊆ ids → l.apply (.take r) = .ok ⟨l, .error .noQueuesLeft, []⟩) ∧
    ∀ ranges ranges' : List QueueRange, (∀ s ∈ ranges, s.Bounded) →
      (∀ s ∈ ranges, Disjoint ids s.ids) → ranges.Pairwise (fun a b => Disjoint a.ids b.ids) →
      ranges.Perm ranges' →
      ∃ l', l.insertAll ranges = .ok l' ∧ l.insertAll ranges' = .ok l' ∧
        l'.Lists (ids ∪ {q | AnyHolds ranges q}) := by
  refine ⟨fun hd => ?_, fun hsub => ?_, fun hsub => apply_refused (h.take_refused hsub),
    fun _ _ hends hapart hpair hperm => h.insertAll_perm hends hapart hpair hperm⟩
  · obtain ⟨l', ho, h'⟩ := h.insert hr hd
    obtain ⟨back, hback, hb⟩ := h'.take hpos Set.subset_union_right
    rw [Set.union_sdiff_cancel_right (Set.disjoint_iff.1 hd)] at hb
    rw [hb.unique h] at hback
    exact ⟨l', apply_insert ho, h', apply_take hback⟩
  · obtain ⟨l', ho, h'⟩ := h.take hpos hsub
    obtain ⟨back, hback, hb⟩ := h'.insert hr disjoint_sdiff_self_left
    rw [Set.sdiff_union_of_subset hsub] at hb
    rw [hb.unique h] at hback
    exact ⟨l', apply_take ho, h', apply_insert hback⟩

/-- A range between two others joins them, here up to the last word, and is cut out again. -/
theorem joined_neighbours_are_parted :
    ∃ l', apply ⟨[⟨0, 4⟩, ⟨8, 4294967287⟩]⟩ (.insert ⟨4, 4⟩) = .ok ⟨l', .ok (), []⟩ ∧
      l'.ranges = [⟨0, 4294967295⟩] ∧
      l'.apply (.take ⟨4, 4⟩) = .ok ⟨⟨[⟨0, 4⟩, ⟨8, 4294967287⟩]⟩, .ok (), []⟩ := by
  have hlists : Lists ⟨[⟨0, 4⟩, ⟨8, 4294967287⟩]⟩ {q | Mem q ⟨[⟨0, 4⟩, ⟨8, 4294967287⟩]⟩} :=
    ⟨by decide, by decide, fun _ => Iff.rfl⟩
  have hapart : Disjoint {q | Mem q ⟨[⟨0, 4⟩, ⟨8, 4294967287⟩]⟩} (QueueRange.ids ⟨4, 4⟩) :=
    Set.disjoint_left.2 fun q hq hin => by
      have hfree : Mem q ⟨[⟨0, 4⟩, ⟨8, 4294967287⟩]⟩ := hq
      have hheld : (⟨4, 4⟩ : QueueRange).Holds q := hin
      simp only [Mem, List.mem_cons, List.not_mem_nil, or_false, exists_eq_or_imp,
        exists_eq_left] at hfree
      simp only [Holds] at hheld
      omega
  obtain ⟨l', ho, -, hback⟩ :=
    (behaves_as_set hlists (r := ⟨4, 4⟩) (by decide) (by decide)).1 hapart
  have hrun : apply ⟨[⟨0, 4⟩, ⟨8, 4294967287⟩]⟩ (.insert ⟨4, 4⟩) =
      .ok ⟨⟨[⟨0, 4294967295⟩]⟩, .ok (), []⟩ := rfl
  refine ⟨l', ho, ?_, hback⟩
  cases ho.symm.trans hrun
  rfl

/-- A range that ends after the last id makes a well-formed list, but its end is no word. A part of
it whose end is a word cannot be taken. -/
theorem endless_range_is_not_taken :
    ∃ l, ofRange ⟨4294967292, 4⟩ = .ok l ∧ l.WellFormed ∧ l.isWellFormed = .ok true ∧
      Bounded ⟨4294967292, 2⟩ ∧ (∀ q, Holds ⟨4294967292, 2⟩ q → l.Mem q) ∧
      l.take ⟨4294967292, 2⟩ = .error .addOverflow := by
  have hpart : Covers ⟨4294967292, 4⟩ ⟨4294967292, 2⟩ := by decide
  refine ⟨⟨[⟨4294967292, 4⟩]⟩, rfl, by decide, rfl, by decide, fun q hq => ?_, rfl⟩
  exact ⟨_, List.mem_cons_self, hpart.holds hq⟩

end FreeList

end DmaQueues
