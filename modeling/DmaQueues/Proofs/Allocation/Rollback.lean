import DmaQueues.Proofs.Allocation.Held

/-!
# Requests that are taken back

A function that was given another range and asks for its old one by name is not only met: the
request undoes the first one. The ids that are free are the same as before, and a well-formed
free list is determined by its ids, so group and registry are what they were, element by
element (`Valid.updateFunction_undone`). A request never ends in a fault.
-/

namespace DmaQueues

namespace Group

variable {g : Group} {id : UInt16} {e : FunctionEntry}

/-- Swapping the old range back in frees what was free before. -/
theorem Swap.free_eq {free back : FreeList} {range : Option QueueRange} (h : g.Valid)
    (he : g.find? id = some e) (hs : g.Swap e free range)
    (hb : (g.assign id free range).Swap { e with range } back e.range) : back = g.free := by
  obtain ⟨hmem, -⟩ := find?_eq_some he
  refine FreeList.WellFormed.ext hb.wellFormed h.free fun q => ?_
  have hgiven : FunctionEntry.Holds { e with range } q ↔ ∃ r, range = some r ∧ r.Holds q := Iff.rfl
  have hheld : e.Holds q ↔ ∃ r, e.range = some r ∧ r.Holds q := Iff.rfl
  have hapart := h.apart e hmem q
  have hsub : (∃ r, range = some r ∧ r.Holds q) → g.free.Mem q ∨ e.Holds q :=
    fun ⟨r, hr, hq⟩ => hs.sub r q hr hq
  rw [hb.mem, assign_free, hs.mem, hgiven, ← hheld]
  -- an id is free, held before or neither, and given or not
  by_cases hfree : g.free.Mem q <;> by_cases hold : e.Holds q <;>
    by_cases hnew : ∃ r, range = some r ∧ r.Holds q <;> simp_all

/-- A request by name that is met assigns the range that it names. -/
theorem askFor_inv (h : g.Valid) (he : g.find? id = some e) {policy : RequestPolicy}
    {range : Option QueueRange} {reply : Reply Group ResourceError (Option QueueRange)}
    (hr : g.askFor id policy range = .ok reply) (hmet : reply.result = .ok range) :
    ∃ free, g.Swap e free range ∧ reply.state = g.assign id free range := by
  have hspec : ∀ count hint, g.requestRange id count hint policy = .ok reply →
      ∃ free, g.Swap e free range ∧ reply.state = g.assign id free range := by
    intro count hint hreply
    rcases Checked.of_exists (requestRange_spec h id count hint policy) hreply with
      ⟨error, -, herror⟩ | ⟨e', he', -, hreq⟩
    · cases herror.symm.trans hmet
    · cases he.symm.trans he'
      obtain ⟨state, result, notices⟩ := reply
      cases hreq with
      | freed _ hs =>
        cases hmet
        exact ⟨_, hs, rfl⟩
      | given _ hs =>
        cases hmet
        exact ⟨_, hs, rfl⟩
      | refused _ => cases hmet
  cases range with
  | none => exact hspec _ _ hr
  | some want => exact hspec _ _ hr

/-- The request for the old range undoes the swap. -/
theorem Swap.askFor_undoes {free : FreeList} {range : Option QueueRange} (hs : g.Swap e free range)
    (h : g.Valid) (he : g.find? id = some e) (hidle : e.active.sum = 0)
    (policy : RequestPolicy) :
    ∃ notices, (g.assign id free range).askFor id policy e.range =
      .ok ⟨g, .ok e.range, notices⟩ := by
  obtain ⟨⟨state, result, notices⟩, hr, hmet⟩ := hs.askFor_back h he hidle policy
  obtain ⟨back, hb, hstate⟩ :=
    askFor_inv (h.assign he hidle hs) (find?_assign_self he free range) hr hmet
  have hsame : state = g := by
    refine hstate.trans ?_
    rw [hs.free_eq h he hb, assign_assign, assign_self h he]
  cases hmet
  exact ⟨notices, by rw [hr, hsame]⟩

end Group

namespace Registry

variable {r : Registry} {h : GroupHandle} {id : UInt16}

theorem Valid.updateFunction_returns (hv : r.Valid) (h : GroupHandle) (id : UInt16) (count : Nat)
    (hint : Option Nat) : ∃ reply, r.updateFunction h id count hint = .ok reply := by
  cases hf : r.find? h with
  | none => exact ⟨_, update_none hf⟩
  | some g =>
    have hg := hv.find? hf
    obtain ⟨inner, hc, hmove⟩ := Group.requestRange_move hg id count hint r.policy
    exact ⟨_, update_some hf hc (hmove.valid hg)⟩

/-- A request that is refused leaves the registry as it was. -/
theorem Valid.updateFunction_refused (hv : r.Valid) {count : Nat} {hint : Option Nat}
    {reply : Reply Registry ResourceError (Option QueueRange)}
    (hr : r.updateFunction h id count hint = .ok reply) {error : ResourceError}
    (he : reply.result = .error error) : reply.state = r := by
  rcases hv.updateFunction_inv hr with ⟨_, -, hs⟩ | ⟨_, _, _, _, -, -, -, -, -, hmet⟩
  · exact hs
  · cases he.symm.trans hmet

/-- After a request that was met, the one for what the function held before leads back to the
registry before both. -/
theorem Valid.updateFunction_undone (hv : r.Valid) {count : Nat} {hint : Option Nat}
    {reply : Reply Registry ResourceError (Option QueueRange)} {range : Option QueueRange}
    (hr : r.updateFunction h id count hint = .ok reply) (hmet : reply.result = .ok range) :
    ∃ notices, reply.state.askFor h id (r.held h id) =
      .ok ⟨r, .ok (r.held h id), notices⟩ := by
  rcases hv.updateFunction_inv hr with
    ⟨error, hresult, -⟩ | ⟨g, e, free, range', hf, he, hidle, hswap, hs, -⟩
  · cases hresult.symm.trans hmet
  · have hg := hv.find? hf
    have hheld : r.held h id = e.range := by
      rw [held_eq, lookup?_of_find? hf, he]
      rfl
    obtain ⟨notices, hback⟩ := hswap.askFor_undoes hg he hidle r.policy
    have hfind : (r.replace h.index (g.assign id free range')).find? h =
        some (g.assign id free range') := replace_find? hf rfl
    have hundone : (r.replace h.index (g.assign id free range')).replace h.index g = r := by
      rw [replace_replace (g := g.assign id free range') (find?_eq_some hf).2, replace_self hv hf]
    refine ⟨notices, ?_⟩
    rw [hs, hheld, askFor_eq, update_some hfind hback hg]
    simp only [hundone]

end Registry

end DmaQueues
