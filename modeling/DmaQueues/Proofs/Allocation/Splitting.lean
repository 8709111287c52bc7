import DmaQueues.Proofs.Allocation.FreeSet

/-!
# Free lists under any calls

A list is returned ranges that are not free, and asked for any ranges whatever. It stays `Tidy`:
sorted, without empty ranges and without overlaps, and no call ends in a fault. One kind of call
alone makes two ranges touch: the request for an empty range strictly inside a free one, which is
cut in two there (`Call.Splits`). So the list is well formed after every call exactly if no call is
of this kind (`well_formed_unless_split`).
-/

namespace DmaQueues.FreeList

open QueueRange

/-- What every call keeps. Ranges may touch. -/
structure Tidy (l : FreeList) : Prop where
  ordered : Ordered l.ranges
  bounded : ∀ r ∈ l.ranges, r.Bounded

namespace Call

/-- A range that is returned ends with a word, and none of its ids is free. Any range may be asked
for. -/
def Allowed (l : FreeList) : Call → Prop
  | insert range => range.Bounded ∧ ∀ q, range.Holds q → ¬ l.Mem q
  | take _ => True

/-- An empty range is asked for, strictly inside a free one. -/
def Splits (l : FreeList) : Call → Prop
  | insert _ => False
  | take want => want.count = 0 ∧ ∃ r ∈ l.ranges, r.base < want.base ∧ want.base < r.base + r.count

instance (l : FreeList) : (c : Call) → Decidable (c.Splits l)
  | insert _ => inferInstanceAs (Decidable False)
  | take _ => inferInstanceAs (Decidable (_ ∧ _))

end Call

/-- A call with the lists before and after it. -/
structure Made where
  before : FreeList
  call : Call
  after : FreeList

/-- The calls of a run, one after the other. -/
def record (l : FreeList) : List Call → Checked (List Made)
  | [] => return []
  | c :: cs => do
    let reply ← l.apply c
    return ⟨l, c, reply.state⟩ :: (← record reply.state cs)

/-- Each call is allowed when it is made. -/
def Legal (l : FreeList) : List Call → Prop
  | [] => True
  | c :: cs => c.Allowed l ∧ ∀ reply, l.apply c = .ok reply → Legal reply.state cs

theorem Legal.cons {l : FreeList} {c : Call} {cs : List Call}
    {reply : Reply FreeList ResourceError Unit} (hc : c.Allowed l) (ho : l.apply c = .ok reply)
    (h : Legal reply.state cs) : Legal l (c :: cs) :=
  ⟨hc, fun reply' ho' => by cases ho.symm.trans ho'; exact h⟩

/-! ## What a cut leaves -/

section

variable {node want : QueueRange}

/-- An empty range at an edge of `node` leaves it whole. -/
theorem leftover_edge (hpos : 0 < node.count) (hempty : want.count = 0)
    (hedge : want.base = node.base ∨ want.base = node.base + node.count) :
    leftover node want = [node] := by
  have hne : node.count ≠ 0 := by omega
  obtain ⟨base, count⟩ := node
  obtain ⟨wantBase, wantCount⟩ := want
  simp only at hempty hedge hne
  subst hempty
  rcases hedge with rfl | rfl <;> simp [leftover, hne]

/-- An empty range strictly inside of `node` leaves two ranges that touch. -/
theorem leftover_inside (hempty : want.count = 0) (hlo : node.base < want.base)
    (hhi : want.base < node.base + node.count) :
    leftover node want = [⟨node.base, want.base - node.base⟩,
      ⟨want.base, node.base + node.count - want.base⟩] := by
  have hhead : want.base - node.base ≠ 0 := by omega
  have htail : node.base + node.count - want.base ≠ 0 := by omega
  simp [leftover, hempty, hhead, htail]

/-- What is left does not touch, unless an empty range was taken from strictly inside. -/
theorem leftover_spread_iff (hpos : 0 < node.count) (hc : node.Covers want) :
    Spread (leftover node want) ↔
      ¬ (want.count = 0 ∧ node.base < want.base ∧ want.base < node.base + node.count) := by
  by_cases hempty : want.count = 0
  · by_cases hin : node.base < want.base ∧ want.base < node.base + node.count
    · refine iff_of_false (fun hs => ?_) (not_not_intro ⟨hempty, hin⟩)
      rw [leftover_inside hempty hin.1 hin.2] at hs
      have hapart := (List.pairwise_cons.1 hs.2).1 _ List.mem_cons_self
      simp only [Apart] at hapart
      omega
    · have hedge : want.base = node.base ∨ want.base = node.base + node.count := by
        have hfirst := hc.1
        have hlast := hc.2
        omega
      rw [leftover_edge hpos hempty hedge]
      exact iff_of_true (spread_cons.2 ⟨hpos, by simp, spread_nil⟩) fun h => hin h.2
  · exact iff_of_true (leftover_spread hc (by omega)) fun h => hempty h.1

end

/-! ## One call -/

variable {l : FreeList}

/-- A range that is not free can be returned. Where no two ranges touch, none do afterwards. -/
theorem Tidy.insert {range : QueueRange} (h : l.Tidy) (hr : range.Bounded)
    (hd : ∀ q, range.Holds q → ¬ l.Mem q) :
    ∃ l', l.insert range = .ok l' ∧ l'.Tidy ∧ (l.WellFormed → l'.WellFormed) := by
  by_cases hempty : range.count = 0
  · exact ⟨l, if_pos hempty, h, id⟩
  · have hbelow : ∀ q, l.Mem q ∨ range.Holds q → q + 1 < wordLimit := fun q hq =>
      hq.elim (below_of_bounded h.bounded q) hr.lt
    obtain ⟨l', ho, hl', hm⟩ := insert_ordered h.ordered (by omega) hd hbelow
    have hbounded : ∀ r ∈ l'.ranges, r.Bounded := fun r hr' =>
      Below.bounded (fun q hq => hbelow q ((hm q).1 hq)) hr' (hl'.1 r hr')
    exact ⟨l', ho, ⟨Spread.ordered hl', hbounded⟩, fun _ => hl'⟩

/-- The range that is cut is the only one that the call can split. -/
theorem splits_iff {node want : QueueRange} (h : l.WellFormed) (hnode : node ∈ l.ranges)
    (hc : node.Covers want) :
    (Call.take want).Splits l ↔
      want.count = 0 ∧ node.base < want.base ∧ want.base < node.base + node.count := by
  refine and_congr_right fun hempty => ⟨?_, fun hin => ⟨node, hnode, hin⟩⟩
  rintro ⟨r, hr, hlo, hhi⟩
  have hfirst := hc.1
  have hlast := hc.2
  rcases Spread.eq_or_apart h hr hnode with rfl | hapart | hapart
  · exact ⟨hlo, hhi⟩
  · unfold Apart at hapart
    omega
  · unfold Apart at hapart
    omega

/-- After a cut no two ranges touch, unless the call splits one. -/
theorem cut_wellFormed_iff {before after : List QueueRange} {node want : QueueRange}
    (h : l.WellFormed) (hsplit : l.ranges = before ++ node :: after) (hc : node.Covers want) :
    WellFormed ⟨before ++ leftover node want ++ after⟩ ↔ ¬ (Call.take want).Splits l := by
  have hs : Spread (before ++ node :: after) := hsplit ▸ h
  have hnode : node ∈ l.ranges := hsplit ▸ List.mem_append_right _ List.mem_cons_self
  rw [splits_iff h hnode hc, ← leftover_spread_iff (h.1 node hnode) hc]
  refine ⟨fun hw => Spread.sublist hw ?_, hs.cut hc⟩
  exact (List.sublist_append_right before _).trans (List.sublist_append_left _ after)

/-- Any range can be asked for. -/
theorem Tidy.take (h : l.Tidy) (want : QueueRange) :
    ∃ reply, l.apply (.take want) = .ok reply ∧ reply.state.Tidy ∧
      (l.WellFormed → (reply.state.WellFormed ↔ ¬ (Call.take want).Splits l)) := by
  rcases take_cases h.bounded want with ⟨hnone, ho⟩ | ⟨before, node, after, hsplit, hc, ho⟩
  · refine ⟨_, apply_refused ho, h, fun hl => iff_of_true hl ?_⟩
    rintro ⟨hempty, r, hr, hlo, hhi⟩
    exact hnone r hr ⟨by omega, by omega⟩
  · have hord : Ordered (before ++ node :: after) := hsplit ▸ h.ordered
    have hbounded : ∀ r ∈ before ++ node :: after, r.Bounded := hsplit ▸ h.bounded
    refine ⟨_, apply_take ho, ⟨(hord.cut hc).1, fun r hr => ?_⟩,
      fun hl => cut_wellFormed_iff hl hsplit hc⟩
    simp only [List.mem_append] at hr
    rcases hr with (hr | hr) | hr
    · exact hbounded r (List.mem_append_left _ hr)
    · exact (hbounded node (List.mem_append_right _ List.mem_cons_self)).mono
        (covers_of_mem_leftover hc hr)
    · exact hbounded r (List.mem_append_right _ (List.mem_cons_of_mem _ hr))

theorem Tidy.apply (h : l.Tidy) {c : Call} (hc : c.Allowed l) :
    ∃ reply, l.apply c = .ok reply ∧ reply.state.Tidy ∧
      (l.WellFormed → (reply.state.WellFormed ↔ ¬ c.Splits l)) := by
  cases c with
  | insert range =>
    obtain ⟨l', ho, h', hl'⟩ := h.insert hc.1 hc.2
    exact ⟨_, apply_insert ho, h', fun hl => iff_of_true (hl' hl) id⟩
  | take want => exact h.take want

/-! ## Runs -/

/-- By induction on the calls: the first call that splits a range is the first that leaves the list
not well formed. -/
theorem Tidy.record {calls : List Call} (h : l.Tidy) (hlegal : Legal l calls) :
    ∃ made, l.record calls = .ok made ∧ made.map Made.call = calls ∧
      (∀ m ∈ made, m.after.Tidy) ∧
      (l.WellFormed →
        ((∀ m ∈ made, m.after.WellFormed) ↔ ∀ m ∈ made, ¬ m.call.Splits m.before)) := by
  induction calls generalizing l with
  | nil => exact ⟨[], rfl, rfl, by simp, by simp⟩
  | cons c cs ih =>
    obtain ⟨reply, ho, htidy, hiff⟩ := h.apply hlegal.1
    obtain ⟨made, hmade, hcalls, hall, hrest⟩ := ih htidy (hlegal.2 reply ho)
    refine ⟨⟨l, c, reply.state⟩ :: made, ?_, ?_, ?_, fun hl => ?_⟩
    · rw [FreeList.record, ho, Checked.ok_bind, hmade]
      rfl
    · rw [List.map_cons, hcalls]
    · exact List.forall_mem_cons.2 ⟨htidy, hall⟩
    · rw [List.forall_mem_cons, List.forall_mem_cons]
      constructor
      · exact fun ⟨hfirst, hlater⟩ => ⟨(hiff hl).1 hfirst, (hrest hfirst).1 hlater⟩
      · exact fun ⟨hfirst, hlater⟩ =>
          have hafter := (hiff hl).2 hfirst
          ⟨hafter, (hrest hafter).2 hlater⟩

/-- From the empty list on, no call ends in a fault, and the list stays sorted, without empty ranges
and without overlaps. The test of the invariant holds after every call exactly if no call asks for
an empty range strictly inside a free one. -/
theorem well_formed_unless_split {calls : List Call} (h : Legal {} calls) :
    ∃ made, record {} calls = .ok made ∧ made.map Made.call = calls ∧
      (∀ m ∈ made, m.after.Tidy) ∧
      ((∀ m ∈ made, m.after.isWellFormed = .ok true) ↔
        ∀ m ∈ made, ¬ m.call.Splits m.before) := by
  have hempty : Tidy {} := ⟨⟨by simp, .nil⟩, by simp⟩
  obtain ⟨made, hmade, hcalls, htidy, hiff⟩ := hempty.record h
  refine ⟨made, hmade, hcalls, htidy, Iff.trans ?_ (hiff spread_nil)⟩
  refine forall₂_congr fun m hm => ?_
  rw [isWellFormed_eq_decide (htidy m hm).bounded, Except.ok.injEq, decide_eq_true_iff]

/-- Empty ranges at the edges of a free range and outside of all change nothing. -/
theorem edges_are_not_split :
    Legal {} [.insert ⟨16, 16⟩, .take ⟨16, 0⟩, .take ⟨20, 4⟩, .take ⟨22, 0⟩, .insert ⟨20, 4⟩] ∧
    ∃ made, record {} [.insert ⟨16, 16⟩, .take ⟨16, 0⟩, .take ⟨20, 4⟩, .take ⟨22, 0⟩,
        .insert ⟨20, 4⟩] = .ok made ∧
      ∀ m ∈ made, m.after.isWellFormed = .ok true := by
  have hlegal : Legal {} [.insert ⟨16, 16⟩, .take ⟨16, 0⟩, .take ⟨20, 4⟩, .take ⟨22, 0⟩,
      .insert ⟨20, 4⟩] := by
    refine .cons ⟨by decide, by simp [Mem]⟩ rfl (.cons trivial rfl
      (.cons trivial rfl (.cons trivial rfl (.cons ⟨by decide, ?_⟩ rfl trivial))))
    intro q hq hfree
    have hfree' : AnyHolds [⟨16, 4⟩, ⟨24, 8⟩] q := hfree
    simp only [anyHolds_cons, anyHolds_nil, or_false, Holds] at hfree' hq
    omega
  obtain ⟨made, hmade, -, -, hiff⟩ := well_formed_unless_split hlegal
  refine ⟨hlegal, made, hmade, hiff.2 ?_⟩
  obtain rfl : made = _ := (Except.ok.inj hmade).symm
  decide

/-- An empty range inside of a free one cuts it in two ranges that touch. -/
theorem empty_take_splits :
    Legal {} [.insert ⟨16, 16⟩, .take ⟨20, 0⟩] ∧
    ∃ made, record {} [.insert ⟨16, 16⟩, .take ⟨20, 0⟩] = .ok made ∧
      ∃ m ∈ made, m.after.isWellFormed = .ok false :=
  ⟨.cons ⟨by decide, by simp [Mem]⟩ rfl (.cons trivial rfl trivial), _, rfl, _,
    List.mem_cons_of_mem _ List.mem_cons_self, rfl⟩

end DmaQueues.FreeList
