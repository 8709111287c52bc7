import DmaQueues.Proofs.Allocation.History

/-!
# Soundness of the bookkeeping

`Group.Sound` says in full what the bookkeeping of a group promises: the free ranges and
the ranges of the functions tile the queue space, and the active queues are counted once.
Every group that a registry creates is sound after any calls that change it, so none of
them ever finds its group corrupted.
-/

namespace DmaQueues

namespace Group

/-- The active queues of all functions, summed by function and kind. -/
def activeQueues (g : Group) : Nat :=
  (g.functions.map fun f => (QueueType.all.map f.active.get).sum).sum

structure Sound (g : Group) : Prop where
  free : g.free.WellFormed
  /-- The free ranges and those of the functions have no id in common. -/
  disjoint : g.pieces.Pairwise fun a b => ∀ q, ¬ (a.Holds q ∧ b.Holds q)
  inside : ∀ r ∈ g.pieces, 0 < r.count ∧ g.whole.Covers r
  /-- An id of the space is free, or else one function holds it. -/
  owner : ∀ q, g.whole.Holds q →
    (g.free.Mem q ∧ ∀ f ∈ g.functions, ¬ f.Holds q) ∨
      ¬ g.free.Mem q ∧ ∃! f, f ∈ g.functions ∧ f.Holds q
  ids : (g.functions.map FunctionEntry.id).Nodup
  active : g.active = g.activeQueues

variable {g : Group}

theorem activeQueues_eq (g : Group) :
    g.activeQueues = (g.functions.map fun f => f.active.sum).sum := by
  unfold activeQueues
  congr 1
  refine List.map_congr_left fun f _ => ?_
  simp only [QueueType.all, ActiveCounts.get, ActiveCounts.sum, List.map_cons, List.map_nil,
    List.sum_cons, List.sum_nil]
  omega

theorem Valid.owner (h : g.Valid) {q : Nat} (hq : g.whole.Holds q) :
    (g.free.Mem q ∧ ∀ f ∈ g.functions, ¬ f.Holds q) ∨
      ¬ g.free.Mem q ∧ ∃! f, f ∈ g.functions ∧ f.Holds q := by
  by_cases hfree : g.free.Mem q
  · exact .inl ⟨hfree, fun f hf hold => h.apart f hf q hold hfree⟩
  · obtain ⟨f, hf, hold⟩ := ((h.cover q).1 hq).resolve_left hfree
    refine .inr ⟨hfree, f, ⟨hf, hold⟩, ?_⟩
    rintro e ⟨he, hold'⟩
    exact h.alone e he f hf q hold' hold

theorem Valid.sound (h : g.Valid) : g.Sound where
  free := h.free
  disjoint := h.pieces_disjoint
  inside _ hr := ⟨h.pieces_nonempty hr, h.pieces_covered hr⟩
  owner _ hq := h.owner hq
  ids := h.ids
  active := h.counted.trans g.activeQueues_eq.symm

end Group

namespace Registry

variable {r r' : Registry} {h : GroupHandle} {g : Group}

/-- Changes of one group through the registry are the changes of the group itself. -/
theorem Valid.run_changes (hv : r.Valid) (hf : r.find? h = some g) (calls : List Group.Call) :
    (g.run r.policy calls = .error .addOverflow ∧
        r.run (calls.map (.change h)) = .error .addOverflow) ∨
      ∃ g' r' results, g.run r.policy calls = .ok g' ∧ g'.Valid ∧ g'.whole = g.whole ∧
        r.run (calls.map (.change h)) = .ok (r', results) ∧ r'.find? h = some g' := by
  induction calls generalizing r g with
  | nil => exact .inr ⟨g, r, [], rfl, hv.find? hf, rfl, rfl, hf⟩
  | cons c cs ih =>
    have hstep : r.step (.change h c) = r.update h fun g => g.apply r.policy c := change_eq r h c
    rw [List.map_cons, Group.run, run, hstep]
    rcases Group.apply_spec (hv.find? hf) r.policy c with hc | ⟨reply, hc, hm⟩
    · rw [hc, update_fault hf hc]
      exact .inl ⟨rfl, rfl⟩
    · have hg := hm.valid (hv.find? hf)
      have hfind := replace_find? hf hm.index_eq
      rw [hc, update_some hf hc hg]
      simp only [Checked.ok_bind]
      rcases ih (hv.replace hf hg hm.index_eq) hfind with ⟨hrun, hruns⟩ |
        ⟨g', r', results, hrun, hvalid, hw, hruns, hend⟩
      · exact .inl ⟨hrun, by rw [hruns]; rfl⟩
      · exact .inr ⟨g', r', _, hrun, hvalid, hw.trans hm.whole_eq, by rw [hruns]; rfl, hend⟩

/-- The handle of a new group finds it. -/
theorem Valid.find?_created (hv : r.Valid) {key : GroupKey} {base total : Nat}
    {notices : List Notice} (hc : r.createGroup key base total = .ok ⟨r', .ok h, notices⟩) :
    r'.Valid ∧ r'.policy = r.policy ∧ r'.find? h = some (r.newGroup key base total) := by
  rcases createGroup_spec r key base total with hf | ⟨reply, hr, hs⟩
  · rw [hf] at hc
    cases hc
  · rw [hr] at hc
    cases hc
    rcases hs with ⟨error, -, he⟩ | ⟨hpos, hlim, rfl, hh⟩
    · cases he
    · cases hh
      refine ⟨hv.append hpos hlim, rfl, ?_⟩
      have hnone : r.groups.find? (fun g => g.index == r.next) = none := by
        refine List.find?_eq_none.2 fun g hg => ?_
        have hlt := hv.next g hg
        simpa using Nat.ne_of_lt hlt
      simp only [Registry.find?, List.find?_append, hnone]
      simp [newGroup]

/-- A group that a registry creates is sound after any calls that change it, and the check
after each of them succeeds. A run stops only where the increment of a count overflows. -/
theorem created_group_stays_sound {policy : RequestPolicy} {earlier : List Call}
    {results : List (Except ResourceError Answer)}
    (hr : (fresh policy).run earlier = .ok (r, results)) {key : GroupKey} {base total : Nat}
    {notices : List Notice} (hc : r.createGroup key base total = .ok ⟨r', .ok h, notices⟩)
    (calls : List Group.Call) :
    ∃ g, r'.find? h = some g ∧ g.whole = ⟨base, total⟩ ∧
      match g.run policy calls with
      | .ok g' =>
        g'.Sound ∧ g'.whole = ⟨base, total⟩ ∧ g'.checkInvariants = .ok true ∧
          ∃ r'' results', r'.run (calls.map (.change h)) = .ok (r'', results') ∧
            r''.find? h = some g'
      | .error fault =>
        fault = .addOverflow ∧ r'.run (calls.map (.change h)) = .error .addOverflow := by
  obtain ⟨hv, hp⟩ := valid_of_run hr
  obtain ⟨hv', hp', hfind⟩ := hv.find?_created hc
  refine ⟨_, hfind, rfl, ?_⟩
  have hruns := hv'.run_changes hfind calls
  rw [hp', hp] at hruns
  rcases hruns with ⟨hrun, hruns⟩ | ⟨g', r'', results', hrun, hvalid, hw, hruns, hend⟩
  · simp only [hrun]
    exact ⟨trivial, hruns⟩
  · simp only [hrun]
    exact ⟨hvalid.sound, hw, hvalid.checkInvariants, r'', results', hruns, hend⟩

/-- Two functions share the space; one grows, is refused more while it is active, and leaves. -/
theorem shared_group_sound :
    ∃ r' notices g g', (fresh .releaseFirst).createGroup ⟨1, 2⟩ 0 8 =
        .ok ⟨r', .ok ⟨⟨1, 2⟩, 0⟩, notices⟩ ∧
      r'.find? ⟨⟨1, 2⟩, 0⟩ = some g ∧
      g.run .releaseFirst [.createFunction 1, .createFunction 2, .requestRange 1 2 none,
        .requestRange 2 3 (some 4), .updateFunction 1 3 none, .incrementActive 1 .h2c,
        .requestRange 1 1 none, .destroyFunction 2] = .ok g' ∧
      g'.free.ranges = [⟨3, 5⟩] ∧ g'.active = 1 ∧ g'.Sound := by
  have hfresh : (fresh .releaseFirst).run [] = .ok (fresh .releaseFirst, []) := rfl
  have hcreate : (fresh .releaseFirst).createGroup ⟨1, 2⟩ 0 8 =
      .ok ⟨_, .ok ⟨⟨1, 2⟩, 0⟩, _⟩ := rfl
  obtain ⟨g, hfind, -, hrun⟩ := created_group_stays_sound hfresh hcreate
    [.createFunction 1, .createFunction 2, .requestRange 1 2 none,
      .requestRange 2 3 (some 4), .updateFunction 1 3 none, .incrementActive 1 .h2c,
      .requestRange 1 1 none, .destroyFunction 2]
  cases hfind
  exact ⟨_, _, _, _, rfl, rfl, rfl, rfl, rfl, hrun.1⟩

end Registry

end DmaQueues
