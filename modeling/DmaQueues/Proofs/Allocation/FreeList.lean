import DmaQueues.Allocation.FreeList
import DmaQueues.Proofs.Allocation.Range
import Mathlib.Data.List.Pairwise

/-!
# The free list as a set of ids

A well-formed free list is determined by the ids it holds (`WellFormed.ext`), so its
operations are specified on sets: `insert_spec` adds the ids of a range and `take_spec`
removes them. Neither faults as long as all ids stay below the last word.
-/

namespace DmaQueues.FreeList

open QueueRange

/-- `a` ends before `b` begins. -/
def Apart (a b : QueueRange) : Prop :=
  a.base + a.count < b.base

/-- The ranges of a well-formed list. -/
def Spread (rs : List QueueRange) : Prop :=
  (∀ r ∈ rs, 0 < r.count) ∧ rs.Pairwise Apart

/-- All ids lie below the last word, so that no range ends beyond it. -/
def Below (rs : List QueueRange) : Prop :=
  ∀ q, AnyHolds rs q → q + 1 < wordLimit

theorem mem_iff (l : FreeList) (q : Nat) : l.Mem q ↔ AnyHolds l.ranges q := Iff.rfl

theorem spread_nil : Spread [] := ⟨by simp, .nil⟩

theorem spread_cons {a : QueueRange} {rs : List QueueRange} :
    Spread (a :: rs) ↔ 0 < a.count ∧ (∀ r ∈ rs, Apart a r) ∧ Spread rs := by
  simp only [Spread, List.forall_mem_cons, List.pairwise_cons]
  exact ⟨fun ⟨⟨h1, h2⟩, h3, h4⟩ => ⟨h1, h3, h2, h4⟩, fun ⟨h1, h3, h2, h4⟩ => ⟨⟨h1, h2⟩, h3, h4⟩⟩

theorem Spread.sublist {rs ss : List QueueRange} (h : Spread ss) (hsub : rs.Sublist ss) :
    Spread rs :=
  ⟨fun r hr => h.1 r (hsub.subset hr), h.2.sublist hsub⟩

theorem Below.bounded {rs : List QueueRange} (hb : Below rs) {r : QueueRange} (hr : r ∈ rs)
    (h : 0 < r.count) : r.Bounded :=
  .of_holds h fun q hq => hb q (anyHolds_of_mem hr hq)

theorem below_of_bounded {rs : List QueueRange} (h : ∀ r ∈ rs, r.Bounded) : Below rs :=
  fun _ ⟨r, hr, hq⟩ => (h r hr).lt hq

instance : Std.Symm fun a b => Apart a b ∨ Apart b a where
  symm _ _ := Or.symm

theorem Spread.eq_or_apart {rs : List QueueRange} (h : Spread rs) {a b : QueueRange}
    (ha : a ∈ rs) (hb : b ∈ rs) : a = b ∨ Apart a b ∨ Apart b a := by
  by_cases hab : a = b
  · exact .inl hab
  · have hsym : rs.Pairwise fun x y => Apart x y ∨ Apart y x := h.2.imp .inl
    exact .inr (hsym.forall ha hb hab)

/-! ## Uniqueness -/

theorem Spread.base_le {a b : QueueRange} {rs ss : List QueueRange} (hb : Spread (b :: ss))
    (ha : 0 < a.count) (h : ∀ q, AnyHolds (a :: rs) q → AnyHolds (b :: ss) q) :
    b.base ≤ a.base := by
  obtain ⟨r, hr, hq⟩ := h a.base (anyHolds_of_mem List.mem_cons_self (holds_base ha))
  rcases List.mem_cons.mp hr with rfl | hr
  · exact hq.1
  · have hapart := (spread_cons.1 hb).2.1 r hr
    simp only [Apart, Holds] at hapart hq
    omega

/-- The first range of a list is at most as long as that of a list with all its ids. -/
theorem Spread.count_le {a b : QueueRange} {rs ss : List QueueRange} (hb : Spread (b :: ss))
    (hbase : a.base = b.base) (h : ∀ q, AnyHolds (a :: rs) q → AnyHolds (b :: ss) q) :
    a.count ≤ b.count := by
  by_contra hlt
  obtain ⟨r, hr, hq⟩ := h (b.base + b.count)
    (anyHolds_of_mem List.mem_cons_self ⟨by omega, by omega⟩)
  rcases List.mem_cons.mp hr with rfl | hr
  · exact Nat.lt_irrefl _ hq.2
  · have hapart := (spread_cons.1 hb).2.1 r hr
    simp only [Apart, Holds] at hapart hq
    omega

theorem Spread.tail_holds {a : QueueRange} {rs : List QueueRange} (ha : Spread (a :: rs))
    {q : Nat} (h : AnyHolds rs q) : ¬ a.Holds q := by
  obtain ⟨r, hr, hq⟩ := h
  have hapart := (spread_cons.1 ha).2.1 r hr
  simp only [Apart, Holds] at hapart hq ⊢
  omega

theorem Spread.ext {rs ss : List QueueRange} (hr : Spread rs) (hs : Spread ss)
    (h : ∀ q, AnyHolds rs q ↔ AnyHolds ss q) : rs = ss := by
  induction rs generalizing ss with
  | nil =>
    cases ss with
    | nil => rfl
    | cons b ss =>
      have := (h b.base).2 (anyHolds_of_mem List.mem_cons_self (holds_base (hs.1 b (by simp))))
      exact absurd this (anyHolds_nil _)
  | cons a rs ih =>
    cases ss with
    | nil =>
      have := (h a.base).1 (anyHolds_of_mem List.mem_cons_self (holds_base (hr.1 a (by simp))))
      exact absurd this (anyHolds_nil _)
    | cons b ss =>
      have hbase : a.base = b.base :=
        Nat.le_antisymm (hr.base_le (hs.1 b (by simp)) fun q => (h q).2)
          (hs.base_le (hr.1 a (by simp)) fun q => (h q).1)
      have hcount : a.count = b.count :=
        Nat.le_antisymm (hs.count_le hbase fun q => (h q).1)
          (hr.count_le hbase.symm fun q => (h q).2)
      obtain rfl : a = b := by
        cases a; cases b; simp_all
      have htail : ∀ q, AnyHolds rs q ↔ AnyHolds ss q := by
        intro q
        have hq := h q
        simp only [anyHolds_cons] at hq
        exact ⟨fun hx => (hq.1 (.inr hx)).resolve_left (hr.tail_holds hx),
          fun hx => (hq.2 (.inr hx)).resolve_left (hs.tail_holds hx)⟩
      rw [ih (spread_cons.1 hr).2.2 (spread_cons.1 hs).2.2 htail]

/-- A well-formed list is determined by its ids. -/
theorem WellFormed.ext {l l' : FreeList} (h : l.WellFormed) (h' : l'.WellFormed)
    (hm : ∀ q, l.Mem q ↔ l'.Mem q) : l = l' := by
  cases l; cases l'
  exact congrArg FreeList.mk (Spread.ext h h' hm)

/-! ## Returning a range -/

/-- Sorted ranges that do not overlap; they may touch. -/
def Ordered (rs : List QueueRange) : Prop :=
  (∀ r ∈ rs, 0 < r.count) ∧ rs.Pairwise fun a b => a.base + a.count ≤ b.base

theorem ordered_cons {a : QueueRange} {rs : List QueueRange} :
    Ordered (a :: rs) ↔ 0 < a.count ∧ (∀ r ∈ rs, a.base + a.count ≤ r.base) ∧ Ordered rs := by
  simp only [Ordered, List.forall_mem_cons, List.pairwise_cons]
  exact ⟨fun ⟨⟨h1, h2⟩, h3, h4⟩ => ⟨h1, h3, h2, h4⟩, fun ⟨h1, h3, h2, h4⟩ => ⟨⟨h1, h2⟩, h3, h4⟩⟩

theorem Spread.ordered {rs : List QueueRange} (h : Spread rs) : Ordered rs :=
  ⟨h.1, h.2.imp fun hab => Nat.le_of_lt hab⟩

theorem mem_place {range x : QueueRange} {rs : List QueueRange} :
    x ∈ place range rs ↔ x = range ∨ x ∈ rs := by
  induction rs with
  | nil => simp [place]
  | cons r rest ih =>
    simp only [place]
    split
    · simp
    · simp only [List.mem_cons, ih, or_left_comm]

theorem anyHolds_place (range : QueueRange) (rs : List QueueRange) (q : Nat) :
    AnyHolds (place range rs) q ↔ AnyHolds rs q ∨ range.Holds q := by
  simp only [AnyHolds, mem_place]
  constructor
  · rintro ⟨r, rfl | hr, hq⟩
    · exact .inr hq
    · exact .inl ⟨r, hr, hq⟩
  · rintro (⟨r, hr, hq⟩ | hq)
    · exact ⟨r, .inr hr, hq⟩
    · exact ⟨range, .inl rfl, hq⟩

theorem Ordered.place {range : QueueRange} {rs : List QueueRange} (h : Ordered rs)
    (hr : 0 < range.count) (hd : ∀ q, range.Holds q → ¬ AnyHolds rs q) :
    Ordered (place range rs) := by
  induction rs with
  | nil => exact ordered_cons.2 ⟨hr, by simp, h⟩
  | cons r rest ih =>
    obtain ⟨hpos, hle, hrest⟩ := ordered_cons.1 h
    simp only [FreeList.place]
    split
    · next hlt =>
      have hstop : range.base + range.count ≤ r.base := by
        by_contra hgt
        exact hd r.base ⟨by omega, by omega⟩ (by simp [holds_base hpos])
      refine ordered_cons.2 ⟨hr, fun x hx => ?_, h⟩
      rcases List.mem_cons.mp hx with rfl | hx
      · exact hstop
      · have := hle x hx; omega
    · next hge =>
      have hstop : r.base + r.count ≤ range.base := by
        by_contra hgt
        exact hd range.base (holds_base hr) (by simp [Holds]; omega)
      refine ordered_cons.2 ⟨hpos, fun x hx => ?_, ih hrest fun q hq hx => hd q hq (by simp [hx])⟩
      rcases mem_place.1 hx with rfl | hx
      · exact hstop
      · exact hle x hx

/-- Joining leaves the ids as they are, begins no earlier, and separates what does not touch. -/
theorem mergeFrom_spec {last : QueueRange} {rs : List QueueRange} (h : Ordered (last :: rs))
    (hb : Below (last :: rs)) :
    ∃ out, mergeFrom last rs = .ok out ∧ Spread out ∧ (∀ x ∈ out, last.base ≤ x.base) ∧
      ∀ q, AnyHolds out q ↔ AnyHolds (last :: rs) q := by
  induction rs generalizing last with
  | nil =>
    exact ⟨[last], rfl, spread_cons.2 ⟨h.1 last (by simp), by simp, spread_nil⟩, by simp,
      fun _ => Iff.rfl⟩
  | cons r rest ih =>
    obtain ⟨hpos, hle, hrest⟩ := ordered_cons.1 h
    obtain ⟨hrpos, hrle, hrest'⟩ := ordered_cons.1 hrest
    have hrb : r.Bounded := hb.bounded (by simp) hrpos
    unfold mergeFrom
    rw [stop_eq (hb.bounded List.mem_cons_self hpos), Checked.ok_bind]
    by_cases htouch : last.base + last.count = r.base
    · have hsum : last.count + r.count < wordLimit := by unfold Bounded at hrb; omega
      have hjoin : ∀ q, AnyHolds (⟨last.base, last.count + r.count⟩ :: rest) q ↔
          AnyHolds (last :: r :: rest) q := by
        intro q
        have : (⟨last.base, last.count + r.count⟩ : QueueRange).Holds q ↔
            last.Holds q ∨ r.Holds q := by
          simp only [Holds]; omega
        simp only [anyHolds_cons, this, or_assoc]
      have hord : Ordered (⟨last.base, last.count + r.count⟩ :: rest) := by
        refine ordered_cons.2 ⟨by simp only; omega, fun x hx => ?_, hrest'⟩
        have := hrle x hx
        simp only; omega
      obtain ⟨out, ho, hs, hbase, hm⟩ := ih hord fun q hq => hb q ((hjoin q).1 hq)
      rw [if_pos htouch, Checked.add_eq hsum, Checked.ok_bind]
      exact ⟨out, ho, hs, hbase, fun q => (hm q).trans (hjoin q)⟩
    · obtain ⟨out, ho, hs, hbase, hm⟩ :=
        ih hrest fun q hq => hb q ((anyHolds_cons ..).2 (.inr hq))
      have hlt : last.base + last.count < r.base := by
        have := hle r List.mem_cons_self
        omega
      rw [if_neg htouch, ho]
      refine ⟨last :: out, rfl, spread_cons.2 ⟨hpos, fun x hx => ?_, hs⟩, fun x hx => ?_,
        fun q => ?_⟩
      · have := hbase x hx
        unfold Apart; omega
      · rcases List.mem_cons.mp hx with rfl | hx
        · exact Nat.le_refl _
        · have := hbase x hx; omega
      · rw [anyHolds_cons, anyHolds_cons, hm q]

theorem merge_spec {rs : List QueueRange} (h : Ordered rs) (hb : Below rs) :
    ∃ out, merge rs = .ok out ∧ Spread out ∧ ∀ q, AnyHolds out q ↔ AnyHolds rs q := by
  cases rs with
  | nil => exact ⟨[], rfl, spread_nil, fun _ => Iff.rfl⟩
  | cons r rest =>
    obtain ⟨out, ho, hs, -, hm⟩ := mergeFrom_spec h hb
    exact ⟨out, ho, hs, hm⟩

/-- Returning a range that is not free to a sorted list adds its ids and leaves no two ranges that
touch. -/
theorem insert_ordered {l : FreeList} {range : QueueRange} (hl : Ordered l.ranges)
    (hr : 0 < range.count) (hd : ∀ q, range.Holds q → ¬ l.Mem q)
    (hb : ∀ q, l.Mem q ∨ range.Holds q → q + 1 < wordLimit) :
    ∃ l', l.insert range = .ok l' ∧ l'.WellFormed ∧
      ∀ q, l'.Mem q ↔ l.Mem q ∨ range.Holds q := by
  have hplace : Ordered (place range l.ranges) := Ordered.place hl hr hd
  obtain ⟨out, ho, hs, hm⟩ := merge_spec hplace fun q hq => hb q ((anyHolds_place ..).1 hq)
  refine ⟨⟨out⟩, ?_, hs, fun q => (hm q).trans (anyHolds_place ..)⟩
  unfold insert
  rw [if_neg (by omega), ho]
  rfl

/-- Returning a range that is not free adds its ids and nothing else. -/
theorem insert_spec {l : FreeList} {range : QueueRange} (hl : l.WellFormed)
    (hr : 0 < range.count) (hd : ∀ q, range.Holds q → ¬ l.Mem q)
    (hb : ∀ q, l.Mem q ∨ range.Holds q → q + 1 < wordLimit) :
    ∃ l', l.insert range = .ok l' ∧ l'.WellFormed ∧
      ∀ q, l'.Mem q ↔ l.Mem q ∨ range.Holds q :=
  insert_ordered (Spread.ordered hl) hr hd hb

/-! ## Taking a range -/

/-- The parts of `node` before and after `want`, without empty ones. -/
def leftover (node want : QueueRange) : List QueueRange :=
  [⟨node.base, want.base - node.base⟩,
    ⟨want.base + want.count, node.base + node.count - (want.base + want.count)⟩].filter
      fun r => r.count != 0

theorem remainders_eq {node want : QueueRange} (hn : node.Bounded) (hc : node.Covers want) :
    remainders node want = .ok (leftover node want) := by
  unfold remainders
  rw [stop_eq hn, stop_eq (hn.mono hc), Checked.sub_eq hc.1]
  simp only [Checked.ok_bind]
  rw [Checked.sub_eq hc.2]
  rfl

theorem covers_of_mem_leftover {node want x : QueueRange} (hc : node.Covers want)
    (hx : x ∈ leftover node want) : node.Covers x := by
  have := (List.mem_filter.1 hx).1
  simp only [List.mem_cons, List.not_mem_nil, or_false] at this
  simp only [Covers] at hc ⊢
  rcases this with rfl | rfl <;> simp only <;> omega

theorem anyHolds_leftover {node want : QueueRange} (hc : node.Covers want) (q : Nat) :
    AnyHolds (leftover node want) q ↔ node.Holds q ∧ ¬ want.Holds q := by
  simp only [AnyHolds, leftover, List.mem_filter, List.mem_cons, List.not_mem_nil, or_false,
    bne_iff_ne]
  simp only [Covers] at hc
  constructor
  · rintro ⟨r, ⟨rfl | rfl, -⟩, hq⟩ <;> simp only [Holds] at hq ⊢ <;> omega
  · rintro ⟨hq, hnot⟩
    simp only [Holds] at hq hnot
    by_cases hbefore : q < want.base
    · exact ⟨_, ⟨.inl rfl, by simp only; omega⟩, hq.1, by simp only; omega⟩
    · exact ⟨_, ⟨.inr rfl, by simp only; omega⟩, by simp only; omega, by simp only; omega⟩

theorem leftover_pos {node want r : QueueRange} (hr : r ∈ leftover node want) : 0 < r.count := by
  have := (List.mem_filter.1 hr).2
  simp only [bne_iff_ne] at this
  omega

theorem leftover_ordered {node want : QueueRange} (hc : node.Covers want) :
    Ordered (leftover node want) := by
  refine ⟨fun r hr => leftover_pos hr, List.Pairwise.filter _ (List.pairwise_pair.2 ?_)⟩
  have := hc.1
  simp only
  omega

theorem leftover_spread {node want : QueueRange} (hc : node.Covers want) (hw : 0 < want.count) :
    Spread (leftover node want) := by
  refine ⟨fun r hr => leftover_pos hr, List.Pairwise.filter _ (List.pairwise_pair.2 ?_)⟩
  have := hc.1
  simp only [Apart]
  omega

/-- Ranges in the place of one that covers them stand to the others as it did. -/
theorem pairwise_replace {R : QueueRange → QueueRange → Prop}
    (hR : ∀ a b a' b', R a b → a.Covers a' → b.Covers b' → R a' b')
    {before parts after : List QueueRange} {node : QueueRange}
    (h : (before ++ node :: after).Pairwise R) (hparts : parts.Pairwise R)
    (hin : ∀ x ∈ parts, node.Covers x) : (before ++ parts ++ after).Pairwise R := by
  have hself : ∀ r : QueueRange, r.Covers r := fun r => ⟨Nat.le_refl _, Nat.le_refl _⟩
  obtain ⟨hbefore, hrest, hacross⟩ := List.pairwise_append.1 h
  obtain ⟨hnode, hafter⟩ := List.pairwise_cons.1 hrest
  rw [List.append_assoc]
  refine List.pairwise_append.2 ⟨hbefore, List.pairwise_append.2 ⟨hparts, hafter, ?_⟩, ?_⟩
  · exact fun x hx y hy => hR node y x y (hnode y hy) (hin x hx) (hself y)
  · intro x hx y hy
    rcases List.mem_append.1 hy with hy | hy
    · exact hR x node x y (hacross x hx node List.mem_cons_self) (hself x) (hin y hy)
    · exact hacross x hx y (List.mem_cons_of_mem _ hy)

variable {before after : List QueueRange} {node want : QueueRange}

/-- A cut leaves the list sorted and takes away the ids of what is cut out. -/
theorem Ordered.cut (h : Ordered (before ++ node :: after)) (hc : node.Covers want) :
    Ordered (before ++ leftover node want ++ after) ∧
      ∀ q, AnyHolds (before ++ leftover node want ++ after) q ↔
        AnyHolds (before ++ node :: after) q ∧ ¬ want.Holds q := by
  obtain ⟨hpos, hord⟩ := h
  refine ⟨⟨fun r hr => ?_, pairwise_replace (fun a b a' b' hab ha hb => ?_) hord
    (leftover_ordered hc).2 fun x hx => covers_of_mem_leftover hc hx⟩, fun q => ?_⟩
  · simp only [List.mem_append] at hr
    rcases hr with (hr | hr) | hr
    · exact hpos r (List.mem_append_left _ hr)
    · exact leftover_pos hr
    · exact hpos r (List.mem_append_right _ (List.mem_cons_of_mem _ hr))
  · have := ha.2
    have := hb.1
    omega
  · obtain ⟨-, hrest, hacross⟩ := List.pairwise_append.1 hord
    have hbefore : AnyHolds before q → ¬ want.Holds q := by
      rintro ⟨r, hr, hq⟩ hwant
      have hle := hacross r hr node List.mem_cons_self
      have hin := hc.holds hwant
      simp only [Holds] at hq hin
      omega
    have hafter : AnyHolds after q → ¬ want.Holds q := by
      rintro ⟨r, hr, hq⟩ hwant
      have hle := (List.pairwise_cons.1 hrest).1 r hr
      have hin := hc.holds hwant
      simp only [Holds] at hq hin
      omega
    rw [anyHolds_append, anyHolds_append, anyHolds_append, anyHolds_cons, anyHolds_leftover hc]
    by_cases hq : want.Holds q <;> simp_all [or_assoc]

theorem Spread.cut (h : Spread (before ++ node :: after)) (hc : node.Covers want)
    (hleft : Spread (leftover node want)) : Spread (before ++ leftover node want ++ after) := by
  refine ⟨(h.ordered.cut hc).1.1, pairwise_replace (fun a b a' b' hab ha hb => ?_) h.2 hleft.2
    fun x hx => covers_of_mem_leftover hc hx⟩
  have := ha.2
  have := hb.1
  simp only [Apart] at hab ⊢
  omega

/-- The first range that covers `want` is cut, and there is nothing to take if none does. -/
theorem takeFrom_cases {rs : List QueueRange} (hb : ∀ r ∈ rs, r.Bounded) (hw : want.Bounded) :
    ((∀ r ∈ rs, ¬ r.Covers want) ∧ takeFrom want rs = .ok none) ∨
    ∃ before node after, rs = before ++ node :: after ∧ node.Covers want ∧
      takeFrom want rs = .ok (some (before ++ leftover node want ++ after)) := by
  induction rs with
  | nil => exact .inl ⟨by simp, rfl⟩
  | cons a rs ih =>
    have hab : a.Bounded := hb a List.mem_cons_self
    unfold takeFrom
    rw [covers_eq hab hw, Checked.ok_bind]
    by_cases hc : a.Covers want
    · rw [if_pos (decide_eq_true hc), remainders_eq hab hc]
      exact .inr ⟨[], a, rs, rfl, hc, rfl⟩
    · rw [if_neg (by simpa using hc)]
      rcases ih fun r hr => hb r (List.mem_cons_of_mem _ hr) with
        ⟨hnone, ho⟩ | ⟨before, node, after, rfl, hcovers, ho⟩
      · rw [ho]
        exact .inl ⟨List.forall_mem_cons.2 ⟨hc, hnone⟩, rfl⟩
      · rw [ho]
        exact .inr ⟨a :: before, node, after, rfl, hcovers, rfl⟩

/-- Any range is refused if no free range covers it, and cut out of the first that does. -/
theorem take_cases {l : FreeList} (hb : ∀ r ∈ l.ranges, r.Bounded) (want : QueueRange) :
    ((∀ r ∈ l.ranges, ¬ r.Covers want) ∧ l.take want = .ok (.error .noQueuesLeft)) ∨
    ∃ before node after, l.ranges = before ++ node :: after ∧ node.Covers want ∧
      l.take want = .ok (.ok ⟨before ++ leftover node want ++ after⟩) := by
  unfold take
  by_cases hw : want.base + want.count < wordLimit
  · rw [if_pos hw]
    rcases takeFrom_cases hb hw with ⟨hnone, ho⟩ | ⟨before, node, after, hsplit, hc, ho⟩
    · rw [ho]
      exact .inl ⟨hnone, rfl⟩
    · rw [ho]
      exact .inr ⟨before, node, after, hsplit, hc, rfl⟩
  · rw [if_neg hw]
    exact .inl ⟨fun r hr hc => hw ((hb r hr).mono hc), rfl⟩

/-- Taking a range that one of the free ranges covers removes its ids and nothing else. -/
theorem take_spec {l : FreeList} {want : QueueRange} (hl : l.WellFormed)
    (hb : ∀ q, l.Mem q → q + 1 < wordLimit) (hw : 0 < want.count)
    (hex : ∃ r ∈ l.ranges, r.Covers want) :
    ∃ l', l.take want = .ok (.ok l') ∧ l'.WellFormed ∧
      ∀ q, l'.Mem q ↔ l.Mem q ∧ ¬ want.Holds q := by
  have hbounded : ∀ r ∈ l.ranges, r.Bounded := fun r hr => Below.bounded hb hr (hl.1 r hr)
  rcases take_cases hbounded want with ⟨hnone, -⟩ | ⟨before, node, after, hsplit, hc, ho⟩
  · obtain ⟨r, hr, hc⟩ := hex
    exact absurd hc (hnone r hr)
  · have hs : Spread (before ++ node :: after) := hsplit ▸ hl
    refine ⟨_, ho, hs.cut hc (leftover_spread hc hw), fun q => ?_⟩
    rw [mem_iff, mem_iff, hsplit]
    exact (hs.ordered.cut hc).2 q

/-- Free ids that follow each other lie in one free range. -/
theorem exists_covers {l : FreeList} {want : QueueRange} (hl : l.WellFormed)
    (hw : 0 < want.count) (hsub : ∀ q, want.Holds q → l.Mem q) :
    ∃ r ∈ l.ranges, r.Covers want := by
  obtain ⟨r, hr, hq⟩ := hsub want.base (holds_base hw)
  refine ⟨r, hr, hq.1, ?_⟩
  by_contra hgt
  -- the id right after `r` is wanted and free, but no other range touches `r`
  obtain ⟨r', hr', hq'⟩ := hsub (r.base + r.count) ⟨by have := hq.2; omega, by omega⟩
  rcases Spread.eq_or_apart hl hr hr' with rfl | h | h
  · exact Nat.lt_irrefl _ hq'.2
  · have := hq'.1; unfold Apart at h; omega
  · have := hq'.2; unfold Apart at h; omega

/-! ## The test of the invariant -/

instance (a b : QueueRange) : Decidable (Apart a b) :=
  inferInstanceAs (Decidable (_ < _))

instance (l : FreeList) : Decidable l.WellFormed :=
  inferInstanceAs (Decidable (_ ∧ _))

theorem apart_eq {rs : List QueueRange} (hb : ∀ r ∈ rs, r.Bounded) :
    apart rs = .ok (decide (rs.Pairwise Apart)) := by
  induction rs with
  | nil => rfl
  | cons a rest ih =>
    cases rest with
    | nil => rfl
    | cons b rest =>
      rw [apart, stop_eq (hb a List.mem_cons_self), Checked.ok_bind]
      split
      next hlt =>
        rw [ih fun r hr => hb r (List.mem_cons_of_mem _ hr)]
        -- what is apart from `b` is apart from `a`, which ends before `b` begins
        have hfirst : (b :: rest).Pairwise Apart → ∀ r ∈ b :: rest, Apart a r := by
          intro hp r hr
          rcases List.mem_cons.1 hr with rfl | hr
          · exact hlt
          · have := (List.pairwise_cons.1 hp).1 r hr
            unfold Apart at this ⊢
            omega
        refine congrArg _ (decide_eq_decide.2 ⟨fun hp => ?_, fun hp => ?_⟩)
        · exact List.pairwise_cons.2 ⟨hfirst hp, hp⟩
        · exact (List.pairwise_cons.1 hp).2
      next hge =>
        refine congrArg _ (decide_eq_false fun hp => hge ?_).symm
        exact (List.pairwise_cons.1 hp).1 b List.mem_cons_self

/-- The test tells a well-formed list from any other whose ranges end with words. -/
theorem isWellFormed_eq_decide {l : FreeList} (hb : ∀ r ∈ l.ranges, r.Bounded) :
    l.isWellFormed = .ok (decide l.WellFormed) := by
  unfold isWellFormed
  split
  next hpos =>
    have hpos' : ∀ r ∈ l.ranges, 0 < r.count := by simpa using hpos
    rw [apart_eq hb]
    exact congrArg _ (decide_eq_decide.2 ⟨fun hp => ⟨hpos', hp⟩, And.right⟩)
  next hempty =>
    refine congrArg _ (decide_eq_false fun hl => hempty ?_).symm
    simpa using hl.1

theorem isWellFormed_eq {l : FreeList} (hl : l.WellFormed)
    (hb : ∀ q, l.Mem q → q + 1 < wordLimit) : l.isWellFormed = .ok true := by
  rw [isWellFormed_eq_decide fun r hr => Below.bounded hb hr (hl.1 r hr), decide_eq_true hl]

end DmaQueues.FreeList
