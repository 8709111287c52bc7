import DmaQueues.Proofs.Allocation.Group
import Mathlib.Algebra.Order.BigOperators.Group.List
import Mathlib.Algebra.Order.Group.Nat
import Mathlib.Order.Interval.Finset.Nat

/-!
# Valid groups

In a valid group every queue id of the space is free or held by one function, a function
has at most as many active queues as its range has ids, and the counters agree. Each of
the changes keeps this under the condition that the operations check.

`Valid.checkInvariants` says that the test made after every change succeeds.
-/

namespace DmaQueues.Group

open QueueRange

structure Valid (g : Group) : Prop where
  /-- The last id of the space is not the last word. -/
  limit : g.whole.Bounded
  free : g.free.WellFormed
  ids : (g.functions.map FunctionEntry.id).Nodup
  nonempty : ∀ f ∈ g.functions, ∀ r, f.range = some r → 0 < r.count
  cover : ∀ q, g.whole.Holds q ↔ g.free.Mem q ∨ ∃ f ∈ g.functions, f.Holds q
  apart : ∀ f ∈ g.functions, ∀ q, f.Holds q → ¬ g.free.Mem q
  alone : ∀ f ∈ g.functions, ∀ e ∈ g.functions, ∀ q, f.Holds q → e.Holds q → f = e
  /-- Only queues of the range are active. -/
  gate : ∀ f ∈ g.functions, f.active.sum ≤ f.size
  counted : g.active = (g.functions.map fun f => f.active.sum).sum

/-- The ids of a function go back to the free list, and those of `range` are taken from it. -/
structure Swap (g : Group) (e : FunctionEntry) (free : FreeList) (range : Option QueueRange) :
    Prop where
  wellFormed : free.WellFormed
  pos : ∀ r, range = some r → 0 < r.count
  sub : ∀ r q, range = some r → r.Holds q → g.free.Mem q ∨ e.Holds q
  mem : ∀ q, free.Mem q ↔ (g.free.Mem q ∨ e.Holds q) ∧ ¬ ∃ r, range = some r ∧ r.Holds q

theorem Swap.mem_none {g : Group} {e : FunctionEntry} {free : FreeList} (h : g.Swap e free none)
    {q : Nat} : free.Mem q ↔ g.free.Mem q ∨ e.Holds q := by
  simpa using h.mem q

namespace Valid

variable {g : Group} {id : UInt16} {e : FunctionEntry}

theorem eq_of_id (h : g.Valid) {f : FunctionEntry} (hf : f ∈ g.functions)
    (he : g.find? id = some e) (hid : f.id = id) : f = e := by
  obtain ⟨hmem, rfl⟩ := find?_eq_some he
  exact List.inj_on_of_nodup_map h.ids hf hmem hid

theorem free_lt (h : g.Valid) {q : Nat} (hq : g.free.Mem q) : q + 1 < wordLimit :=
  h.limit.lt ((h.cover q).2 (.inl hq))

theorem held_lt (h : g.Valid) {f : FunctionEntry} (hf : f ∈ g.functions) {q : Nat}
    (hq : f.Holds q) : q + 1 < wordLimit :=
  h.limit.lt ((h.cover q).2 (.inr ⟨f, hf, hq⟩))

theorem range_covered (h : g.Valid) {f : FunctionEntry} (hf : f ∈ g.functions) {r : QueueRange}
    (hr : f.range = some r) : g.whole.Covers r :=
  covers_of_holds (h.nonempty f hf r hr) fun q hq => (h.cover q).2 (.inr ⟨f, hf, r, hr, hq⟩)

theorem size_lt (h : g.Valid) {f : FunctionEntry} (hf : f ∈ g.functions) :
    f.size < wordLimit := by
  unfold FunctionEntry.size
  split
  · next r hr =>
    have hb := h.limit.mono (h.range_covered hf hr)
    unfold Bounded at hb
    omega
  · decide

theorem total_eq (h : g.Valid) {f : FunctionEntry} (hf : f ∈ g.functions) :
    f.active.total = .ok f.active.sum :=
  ActiveCounts.total_eq (Nat.lt_of_le_of_lt (h.gate f hf) (h.size_lt hf))

/-! ## A new group -/

theorem create_eq {key : GroupKey} {index base total : Nat} (hpos : 0 < total)
    (hlim : base + total < wordLimit) :
    create key index base total =
      .ok (.ok { key, index, whole := ⟨base, total⟩, free := ⟨[⟨base, total⟩]⟩ }) := by
  unfold create
  rw [if_neg (by omega)]
  simp [FreeList.ofRange, FreeList.insert, FreeList.place, FreeList.merge, FreeList.mergeFrom,
    Nat.ne_of_gt hpos]

theorem fresh {key : GroupKey} {index : Nat} {whole : QueueRange} (hpos : 0 < whole.count)
    (hlim : whole.Bounded) : Valid { key, index, whole, free := ⟨[whole]⟩ } where
  limit := hlim
  free := ⟨by simpa using hpos, List.pairwise_singleton ..⟩
  ids := .nil
  nonempty := by simp
  cover q := by simp [FreeList.mem_iff]
  apart := by simp
  alone := by simp
  gate := by simp
  counted := rfl

/-! ## Changes of the functions -/

theorem attach (h : g.Valid) (hnew : g.find? id = none) : (g.attach id).Valid where
  limit := h.limit
  free := h.free
  ids := by
    have hid := find?_eq_none hnew
    simp only [Group.attach, List.map_append, List.map_cons, List.map_nil]
    refine List.nodup_append.2 ⟨h.ids, List.nodup_singleton _, fun a ha b hb => ?_⟩
    obtain ⟨f, hf, rfl⟩ := List.mem_map.1 ha
    rw [List.mem_singleton.1 hb]
    exact hid f hf
  nonempty f hf r hr := by
    rcases mem_attach.1 hf with hf | rfl
    · exact h.nonempty f hf r hr
    · cases hr
  cover q := by
    refine (h.cover q).trans (or_congr_right ?_)
    constructor
    · rintro ⟨f, hf, hq⟩
      exact ⟨f, mem_attach.2 (.inl hf), hq⟩
    · rintro ⟨f, hf, hq⟩
      rcases mem_attach.1 hf with hf | rfl
      · exact ⟨f, hf, hq⟩
      · obtain ⟨r, hr, -⟩ := hq; cases hr
  apart f hf q hq := by
    rcases mem_attach.1 hf with hf | rfl
    · exact h.apart f hf q hq
    · obtain ⟨r, hr, -⟩ := hq; cases hr
  alone f hf f' hf' q hq hq' := by
    rcases mem_attach.1 hf with hf | rfl
    · rcases mem_attach.1 hf' with hf' | rfl
      · exact h.alone f hf f' hf' q hq hq'
      · obtain ⟨r, hr, -⟩ := hq'; cases hr
    · obtain ⟨r, hr, -⟩ := hq; cases hr
  gate f hf := by
    rcases mem_attach.1 hf with hf | rfl
    · exact h.gate f hf
    · exact Nat.le_refl 0
  counted := by
    simp only [Group.attach, List.map_append, List.sum_append, h.counted]
    rfl

theorem sum_filter_idle {fs : List FunctionEntry}
    (h : ∀ f ∈ fs, f.id = id → f.active.sum = 0) :
    ((fs.filter fun f => f.id != id).map fun f => f.active.sum).sum =
      (fs.map fun f => f.active.sum).sum := by
  induction fs with
  | nil => rfl
  | cons f fs ih =>
    have hrest := ih fun x hx => h x (List.mem_cons_of_mem _ hx)
    by_cases hid : f.id = id
    · simp [hid, hrest, h f List.mem_cons_self hid]
    · simp [hid, hrest]

/-- The ids of a function without active queues are added to the free ones. -/
theorem detach (h : g.Valid) (he : g.find? id = some e) (hidle : e.active.sum = 0)
    {free : FreeList} (hs : g.Swap e free none) : (g.detach id free).Valid where
  limit := h.limit
  free := hs.wellFormed
  ids := h.ids.sublist (List.filter_sublist.map _)
  nonempty f hf := h.nonempty f (mem_detach.1 hf).1
  cover q := by
    obtain ⟨hmeme, hid⟩ := find?_eq_some he
    refine (h.cover q).trans ⟨?_, ?_⟩
    · rintro (hq | ⟨f, hf, hq⟩)
      · exact .inl (hs.mem_none.2 (.inl hq))
      · by_cases hfid : f.id = id
        · rw [h.eq_of_id hf he hfid] at hq
          exact .inl (hs.mem_none.2 (.inr hq))
        · exact .inr ⟨f, mem_detach.2 ⟨hf, hfid⟩, hq⟩
    · rintro (hq | ⟨f, hf, hq⟩)
      · rcases hs.mem_none.1 hq with hq | hq
        · exact .inl hq
        · exact .inr ⟨e, hmeme, hq⟩
      · exact .inr ⟨f, (mem_detach.1 hf).1, hq⟩
  apart f hf q hq hfq := by
    obtain ⟨hf, hfid⟩ := mem_detach.1 hf
    obtain ⟨hmeme, hid⟩ := find?_eq_some he
    rcases hs.mem_none.1 hfq with hfq | hfq
    · exact h.apart f hf q hq hfq
    · exact hfid ((h.alone f hf e hmeme q hq hfq) ▸ hid)
  alone f hf f' hf' := h.alone f (mem_detach.1 hf).1 f' (mem_detach.1 hf').1
  gate f hf := h.gate f (mem_detach.1 hf).1
  counted := by
    refine h.counted.trans (sum_filter_idle fun f hf hid => ?_).symm
    rw [h.eq_of_id hf he hid, hidle]

/-! ## Another range -/

/-- A function without active queues may swap its ids for others that are free by then. -/
theorem assign (h : g.Valid) (he : g.find? id = some e) (hidle : e.active.sum = 0)
    {free : FreeList} {range : Option QueueRange} (hs : g.Swap e free range) :
    (g.assign id free range).Valid where
  limit := h.limit
  free := hs.wellFormed
  ids := by
    have := map_id_modify { g with free } (f := fun e => { e with range }) (fun _ => rfl) id
    exact this ▸ h.ids
  nonempty f hf r hr := by
    rcases mem_assign.1 hf with ⟨f, -, -, rfl⟩ | ⟨hf, -⟩
    · exact hs.pos r hr
    · exact h.nonempty f hf r hr
  cover q := by
    obtain ⟨hmeme, hid⟩ := find?_eq_some he
    have hself : { e with range } ∈ (g.assign id free range).functions :=
      mem_assign.2 (.inl ⟨e, hmeme, hid, rfl⟩)
    refine (h.cover q).trans ⟨?_, ?_⟩
    · intro hq
      by_cases hnew : ∃ r, range = some r ∧ r.Holds q
      · exact .inr ⟨_, hself, hnew⟩
      · rcases hq with hq | ⟨f, hf, hq⟩
        · exact .inl ((hs.mem q).2 ⟨.inl hq, hnew⟩)
        · by_cases hfid : f.id = id
          · rw [h.eq_of_id hf he hfid] at hq
            exact .inl ((hs.mem q).2 ⟨.inr hq, hnew⟩)
          · exact .inr ⟨f, mem_assign.2 (.inr ⟨hf, hfid⟩), hq⟩
    · have hold : g.free.Mem q ∨ e.Holds q → g.free.Mem q ∨ ∃ f ∈ g.functions, f.Holds q :=
        Or.imp_right fun hq => ⟨e, hmeme, hq⟩
      rintro (hq | ⟨f, hf, hq⟩)
      · exact hold ((hs.mem q).1 hq).1
      · rcases mem_assign.1 hf with ⟨f, -, -, rfl⟩ | ⟨hf, -⟩
        · obtain ⟨r, hr, hq⟩ := hq
          exact hold (hs.sub r q hr hq)
        · exact .inr ⟨f, hf, hq⟩
  apart f hf q hq hfq := by
    obtain ⟨hmeme, hid⟩ := find?_eq_some he
    obtain ⟨hold, hnew⟩ := (hs.mem q).1 hfq
    rcases mem_assign.1 hf with ⟨f, -, -, rfl⟩ | ⟨hf, hfid⟩
    · exact hnew hq
    · rcases hold with hold | hold
      · exact h.apart f hf q hq hold
      · exact hfid ((h.alone f hf e hmeme q hq hold) ▸ hid)
  alone f hf f' hf' q hq hq' := by
    obtain ⟨hmeme, hid⟩ := find?_eq_some he
    -- an id that the function takes over was free or its own, so nobody else holds it
    have hnobody : ∀ r, range = some r → r.Holds q → ∀ x ∈ g.functions, x.id ≠ id → ¬ x.Holds q := by
      intro r hr hrq x hx hxid hxq
      rcases hs.sub r q hr hrq with hold | hold
      · exact h.apart x hx q hxq hold
      · exact hxid ((h.alone x hx e hmeme q hxq hold) ▸ hid)
    rcases mem_assign.1 hf with ⟨f, hfm, hfid, rfl⟩ | ⟨hf, hfid⟩
    · rcases mem_assign.1 hf' with ⟨f', hfm', hfid', rfl⟩ | ⟨hf', hfid'⟩
      · rw [h.eq_of_id hfm he hfid, h.eq_of_id hfm' he hfid']
      · obtain ⟨r, hr, hrq⟩ := hq
        exact absurd hq' (hnobody r hr hrq f' hf' hfid')
    · rcases mem_assign.1 hf' with ⟨f', -, -, rfl⟩ | ⟨hf', -⟩
      · obtain ⟨r, hr, hrq⟩ := hq'
        exact absurd hq (hnobody r hr hrq f hf hfid)
      · exact h.alone f hf f' hf' q hq hq'
  gate f hf := by
    rcases mem_assign.1 hf with ⟨f, hfm, hfid, rfl⟩ | ⟨hf, -⟩
    · simp only [h.eq_of_id hfm he hfid, hidle]
      exact Nat.zero_le _
    · exact h.gate f hf
  counted := by
    refine h.counted.trans (congrArg List.sum ?_)
    simp only [Group.assign, setRange, modify, List.map_map]
    refine List.map_congr_left fun f _ => ?_
    simp only [Function.comp_apply]
    split <;> rfl

/-! ## Other counts -/

/-- One entry's share of a sum over entries with distinct ids is replaced. -/
theorem sum_replace {fs : List FunctionEntry} (hn : (fs.map FunctionEntry.id).Nodup)
    {e : FunctionEntry} (he : e ∈ fs) (w : FunctionEntry → Nat) (k : Nat) :
    (fs.map fun f => if f.id = e.id then k else w f).sum + w e = (fs.map w).sum + k := by
  induction fs with
  | nil => cases he
  | cons f fs ih =>
    obtain ⟨hnot, hn⟩ := List.nodup_cons.1 hn
    simp only [List.map_cons, List.sum_cons]
    rcases List.mem_cons.1 he with rfl | he
    · have hrest : (fs.map fun f => if f.id = e.id then k else w f) = fs.map w :=
        List.map_congr_left fun x hx => if_neg fun hid => hnot (List.mem_map.2 ⟨x, hx, hid⟩)
      rw [if_pos rfl, hrest]
      omega
    · have hid : f.id ≠ e.id := fun hid => hnot (List.mem_map.2 ⟨e, he, hid.symm⟩)
      have := ih hn he
      rw [if_neg hid]
      omega

/-- A count may change within the range of the function, and the sum with it. -/
theorem recount (h : g.Valid) (he : g.find? id = some e) {type : QueueType} {n active : Nat}
    (hgate : (e.active.set type n).sum ≤ e.size)
    (hactive : active + e.active.get type = g.active + n) :
    (g.recount id type n active).Valid where
  limit := h.limit
  free := h.free
  ids := by
    have := map_id_modify g (f := fun e => { e with active := e.active.set type n })
      (fun _ => rfl) id
    exact this ▸ h.ids
  nonempty f hf r hr := by
    rcases mem_recount.1 hf with ⟨f, hfm, -, rfl⟩ | ⟨hfm, -⟩ <;> exact h.nonempty f hfm r hr
  cover q := by
    refine (h.cover q).trans (or_congr_right ?_)
    constructor
    · rintro ⟨f, hf, hq⟩
      by_cases hid : f.id = id
      · exact ⟨_, mem_recount.2 (.inl ⟨f, hf, hid, rfl⟩), hq⟩
      · exact ⟨f, mem_recount.2 (.inr ⟨hf, hid⟩), hq⟩
    · rintro ⟨f, hf, hq⟩
      rcases mem_recount.1 hf with ⟨f, hfm, -, rfl⟩ | ⟨hfm, -⟩ <;> exact ⟨f, hfm, hq⟩
  apart f hf q hq := by
    rcases mem_recount.1 hf with ⟨f, hfm, -, rfl⟩ | ⟨hfm, -⟩ <;> exact h.apart f hfm q hq
  alone f hf f' hf' q hq hq' := by
    rcases mem_recount.1 hf with ⟨f, hfm, hid, rfl⟩ | ⟨hf, hid⟩
    · rcases mem_recount.1 hf' with ⟨f', hfm', hid', rfl⟩ | ⟨hf', hid'⟩
      · rw [h.alone f hfm f' hfm' q hq hq']
      · exact absurd (h.alone f hfm f' hf' q hq hq' ▸ hid) hid'
    · rcases mem_recount.1 hf' with ⟨f', hfm', hid', rfl⟩ | ⟨hf', -⟩
      · exact absurd (h.alone f hf f' hfm' q hq hq' ▸ hid') hid
      · exact h.alone f hf f' hf' q hq hq'
  gate f hf := by
    rcases mem_recount.1 hf with ⟨f, hfm, hid, rfl⟩ | ⟨hf, -⟩
    · rw [h.eq_of_id hfm he hid]
      exact hgate
    · exact h.gate f hf
  counted := by
    obtain ⟨hmem, rfl⟩ := find?_eq_some he
    have hsum := sum_replace h.ids hmem (fun f => f.active.sum) (e.active.set type n).sum
    have hset := e.active.sum_set type n
    have hmap : ((g.recount e.id type n active).functions.map fun f => f.active.sum) =
        g.functions.map fun f => if f.id = e.id then (e.active.set type n).sum else f.active.sum := by
      simp only [Group.recount, modify, List.map_map]
      refine List.map_congr_left fun f hf => ?_
      simp only [Function.comp_apply]
      split
      · next hid => rw [h.eq_of_id hf he hid]
      · rfl
    rw [hmap]
    simp only [Group.recount]
    have := h.counted
    omega

/-! ## The test of the invariant -/

theorem mem_pieces {r : QueueRange} :
    r ∈ g.pieces ↔ r ∈ g.free.ranges ∨ ∃ f ∈ g.functions, f.range = some r := by
  simp [pieces]

theorem anyHolds_pieces (q : Nat) :
    AnyHolds g.pieces q ↔ g.free.Mem q ∨ ∃ f ∈ g.functions, f.Holds q := by
  constructor
  · rintro ⟨r, hr, hq⟩
    rcases mem_pieces.1 hr with hr | ⟨f, hf, hr⟩
    · exact .inl ⟨r, hr, hq⟩
    · exact .inr ⟨f, hf, r, hr, hq⟩
  · rintro (⟨r, hr, hq⟩ | ⟨f, hf, r, hr, hq⟩)
    · exact ⟨r, mem_pieces.2 (.inl hr), hq⟩
    · exact ⟨r, mem_pieces.2 (.inr ⟨f, hf, hr⟩), hq⟩

theorem pieces_nonempty (h : g.Valid) {r : QueueRange} (hr : r ∈ g.pieces) : 0 < r.count := by
  rcases mem_pieces.1 hr with hr | ⟨f, hf, hr⟩
  · exact h.free.1 r hr
  · exact h.nonempty f hf r hr

theorem pieces_covered (h : g.Valid) {r : QueueRange} (hr : r ∈ g.pieces) : g.whole.Covers r :=
  covers_of_holds (h.pieces_nonempty hr) fun q hq =>
    (h.cover q).2 ((anyHolds_pieces q).1 ⟨r, hr, hq⟩)

/-- No id lies in two places of the list of pieces. -/
theorem pieces_disjoint (h : g.Valid) :
    g.pieces.Pairwise fun a b => ∀ q, ¬ (a.Holds q ∧ b.Holds q) := by
  refine List.pairwise_append.2 ⟨h.free.2.imp ?_, ?_, ?_⟩
  · intro a b hab q hq
    have := hq.1.2
    have := hq.2.1
    omega
  · have hn : g.functions.Pairwise fun f e => f ≠ e := h.ids.of_map _
    refine List.pairwise_filterMap.2 (hn.imp_of_mem ?_)
    intro f e hf he hne a ha b hb q hq
    exact hne (h.alone f hf e he q ⟨a, ha, hq.1⟩ ⟨b, hb, hq.2⟩)
  · intro a ha b hb q hq
    obtain ⟨f, hf, hr⟩ := List.mem_filterMap.1 hb
    exact h.apart f hf q ⟨b, hr, hq.2⟩ ⟨a, ha, hq.1⟩

/-- Ranges that do not overlap have as many ids as their counts say. -/
theorem exists_ids {rs : List QueueRange}
    (h : rs.Pairwise fun a b => ∀ q, ¬ (a.Holds q ∧ b.Holds q)) :
    ∃ ids : Finset Nat, ids.card = (rs.map QueueRange.count).sum ∧
      ∀ q, q ∈ ids ↔ AnyHolds rs q := by
  induction rs with
  | nil => exact ⟨∅, rfl, by simp⟩
  | cons r rs ih =>
    obtain ⟨hr, hrest⟩ := List.pairwise_cons.1 h
    obtain ⟨ids, hcard, hmem⟩ := ih hrest
    have hdisj : Disjoint (Finset.Ico r.base (r.base + r.count)) ids := by
      refine Finset.disjoint_left.2 fun q hq hq' => ?_
      obtain ⟨s, hs, hsq⟩ := (hmem q).1 hq'
      exact hr s hs q ⟨Finset.mem_Ico.1 hq, hsq⟩
    refine ⟨Finset.Ico r.base (r.base + r.count) ∪ ids, ?_, fun q => ?_⟩
    · rw [Finset.card_union_of_disjoint hdisj, Nat.card_Ico, hcard]
      simp
    · rw [Finset.mem_union, Finset.mem_Ico, hmem, anyHolds_cons]
      rfl

theorem sum_pieces (h : g.Valid) : (g.pieces.map QueueRange.count).sum = g.whole.count := by
  obtain ⟨ids, hcard, hmem⟩ := exists_ids h.pieces_disjoint
  have hids : ids = Finset.Ico g.whole.base (g.whole.base + g.whole.count) := by
    ext q
    rw [hmem, anyHolds_pieces, ← h.cover, Finset.mem_Ico]
    rfl
  rw [← hcard, hids, Nat.card_Ico]
  omega

theorem sum_size (fs : List FunctionEntry) :
    (fs.map FunctionEntry.size).sum = ((fs.filterMap FunctionEntry.range).map QueueRange.count).sum := by
  induction fs with
  | nil => rfl
  | cons f fs ih =>
    cases hr : f.range with
    | none => simp [FunctionEntry.size, hr, ih]
    | some r => simp [FunctionEntry.size, hr, ih]

theorem sum_size_le (h : g.Valid) :
    (g.functions.map FunctionEntry.size).sum ≤ g.whole.count := by
  have hpieces := h.sum_pieces
  rw [pieces, List.map_append, List.sum_append, ← sum_size] at hpieces
  omega

theorem freeCount_eq (h : g.Valid) :
    g.free.freeCount = .ok (g.free.ranges.map QueueRange.count).sum := by
  have hpieces := h.sum_pieces
  have hlim := h.limit
  rw [pieces, List.map_append, List.sum_append] at hpieces
  unfold Bounded at hlim
  exact Checked.sum_eq (by omega)

theorem whole_lt (h : g.Valid) : g.whole.count < wordLimit := by
  have hlim := h.limit
  unfold Bounded at hlim
  omega

theorem active_lt (h : g.Valid) : g.active < wordLimit := by
  have hgate : (g.functions.map fun f => f.active.sum).sum ≤
      (g.functions.map FunctionEntry.size).sum := List.sum_le_sum h.gate
  have hsize := h.sum_size_le
  have hwhole := h.whole_lt
  have hcounted := h.counted
  omega

/-- While a function has room for another active queue, so has the group. -/
theorem active_lt_whole (h : g.Valid) {f : FunctionEntry} (hf : f ∈ g.functions)
    (hroom : f.active.sum < f.size) : g.active < g.whole.count := by
  have hgate : (g.functions.map fun f => f.active.sum).sum <
      (g.functions.map FunctionEntry.size).sum := List.sum_lt_sum _ _ h.gate ⟨f, hf, hroom⟩
  have hsize := h.sum_size_le
  have hcounted := h.counted
  omega

theorem le_active (h : g.Valid) {f : FunctionEntry} (hf : f ∈ g.functions) :
    f.active.sum ≤ g.active :=
  h.counted ▸ List.le_sum_of_mem (List.mem_map_of_mem hf)

theorem allChecked_eq {α : Type} {test : α → Checked Bool} {as : List α}
    (h : ∀ a ∈ as, test a = .ok true) : allChecked test as = .ok true := by
  induction as with
  | nil => rfl
  | cons a as ih =>
    unfold allChecked
    rw [h a List.mem_cons_self]
    exact ih fun b hb => h b (List.mem_cons_of_mem _ hb)

theorem disjoint_eq {rs : List QueueRange} (hb : ∀ r ∈ rs, r.Bounded)
    (hpos : ∀ r ∈ rs, 0 < r.count)
    (h : rs.Pairwise fun a b => ∀ q, ¬ (a.Holds q ∧ b.Holds q)) : disjoint rs = .ok true := by
  induction rs with
  | nil => rfl
  | cons a rs ih =>
    obtain ⟨ha, hrest⟩ := List.pairwise_cons.1 h
    have hall : allChecked (fun b => return !(← a.overlaps b)) rs = .ok true := by
      refine allChecked_eq fun b hbm => ?_
      have hno : ¬ (a.base < b.base + b.count ∧ b.base < a.base + a.count) := by
        intro hov
        have hpa := hpos a List.mem_cons_self
        have hpb := hpos b (List.mem_cons_of_mem _ hbm)
        exact ha b hbm (max a.base b.base) ⟨⟨by omega, by omega⟩, ⟨by omega, by omega⟩⟩
      rw [overlaps_eq (hb a List.mem_cons_self) (hb b (List.mem_cons_of_mem _ hbm)),
        decide_eq_false hno]
      rfl
    unfold disjoint
    rw [hall]
    exact ih (fun r hr => hb r (List.mem_cons_of_mem _ hr))
      (fun r hr => hpos r (List.mem_cons_of_mem _ hr)) hrest

/-- The test made after every change of a group succeeds on a valid one. -/
theorem checkInvariants (h : g.Valid) : g.checkInvariants = .ok true := by
  have hbounded : ∀ r ∈ g.pieces, r.Bounded := fun r hr => h.limit.mono (h.pieces_covered hr)
  have hinside : allChecked (fun r => if 0 < r.count then g.whole.covers r else return false)
      g.pieces = .ok true := by
    refine allChecked_eq fun r hr => ?_
    rw [if_pos (h.pieces_nonempty hr), covers_eq h.limit (hbounded r hr),
      decide_eq_true (h.pieces_covered hr)]
  have hdisj : disjoint g.pieces = .ok true :=
    disjoint_eq hbounded (fun r hr => h.pieces_nonempty hr) h.pieces_disjoint
  have htotals : (g.functions.mapM fun f => f.active.total) =
      .ok (g.functions.map fun f => f.active.sum) := Checked.mapM_eq fun f hf => h.total_eq hf
  have hsum : Checked.sum (g.functions.map fun f => f.active.sum) = .ok g.active := by
    rw [Checked.sum_eq (h.counted ▸ h.active_lt), h.counted]
  have hcovered : g.pieces.foldl (fun n r => n + r.count) 0 = g.whole.count := by
    rw [← h.sum_pieces, List.sum_eq_foldl, List.foldl_map]
  unfold Group.checkInvariants
  rw [FreeList.isWellFormed_eq h.free fun q hq => h.free_lt hq, hinside, hdisj, htotals]
  simp only [Checked.ok_bind, hsum, hcovered, Checked.pure_eq]
  simp

end Valid

end DmaQueues.Group
