import DmaQueues.Proofs.Allocation.Entry

/-!
# The ranges that functions hold

`Registry.held` is the range of a function, if it has one. A request that is refused leaves
it alone, and after a request that is met it is what was given. Whatever was given can be
given back: the function is met exactly if it asks for what it held before
(`Valid.updateFunction_back`). Counting queues moves no range.
-/

namespace DmaQueues

namespace Group

variable {g : Group} {id : UInt16} {e : FunctionEntry}

/-- The request for a range by name, or for none. -/
def askFor (g : Group) (id : UInt16) (policy : RequestPolicy) :
    Option QueueRange → Checked (Reply Group ResourceError (Option QueueRange))
  | some want => g.requestRange id want.count (some want.base) policy
  | none => g.requestRange id 0 none policy

theorem askFor_valid (h : g.Valid) {policy : RequestPolicy} {range : Option QueueRange}
    {reply : Reply Group ResourceError (Option QueueRange)}
    (hr : g.askFor id policy range = .ok reply) : reply.state.Valid := by
  cases range with
  | none => exact (Checked.of_exists (requestRange_move h id 0 none policy) hr).valid h
  | some want => exact (Checked.of_exists (requestRange_move h id _ _ policy) hr).valid h

theorem askFor_met (h : g.Valid) (he : g.find? id = some e) (hidle : e.active.sum = 0)
    {range : Option QueueRange} (hpos : ∀ want, range = some want → 0 < want.count)
    (hsub : ∀ want q, range = some want → want.Holds q → g.free.Mem q ∨ e.Holds q)
    (policy : RequestPolicy) :
    ∃ reply, g.askFor id policy range = .ok reply ∧ reply.result = .ok range := by
  cases range with
  | none => exact requestRange_none h he hidle none policy
  | some want =>
    exact requestRange_named h he hidle (hpos want rfl) (fun q => hsub want q rfl) policy

theorem find?_assign_self (he : g.find? id = some e) (free : FreeList)
    (range : Option QueueRange) : (g.assign id free range).find? id = some { e with range } := by
  rw [find?_assign, if_pos rfl, he]
  rfl

/-- The old range of a function can be had again after a swap. -/
theorem Swap.askFor_back {free : FreeList} {range : Option QueueRange}
    (hs : g.Swap e free range) (h : g.Valid) (he : g.find? id = some e)
    (hidle : e.active.sum = 0) (policy : RequestPolicy) :
    ∃ reply, (g.assign id free range).askFor id policy e.range = .ok reply ∧
      reply.result = .ok e.range := by
  obtain ⟨hmem, -⟩ := find?_eq_some he
  have hvalid := h.assign he hidle hs
  refine askFor_met hvalid (find?_assign_self he free range) hidle
    (fun want hw => h.nonempty e hmem want hw) (fun want q hw hq => ?_) policy
  by_cases hgiven : ∃ r, range = some r ∧ r.Holds q
  · exact .inr hgiven
  · exact .inl ((hs.mem q).2 ⟨.inr ⟨want, hw, hq⟩, hgiven⟩)

end Group

namespace Registry

variable {r r' : Registry} {h : GroupHandle} {id : UInt16}

/-- The range that a function holds, none if it is not known. -/
def held (r : Registry) (h : GroupHandle) (id : UInt16) : Option QueueRange :=
  match r.range h id with
  | .ok range => range
  | .error _ => none

theorem held_eq (r : Registry) (h : GroupHandle) (id : UInt16) :
    r.held h id = (r.lookup? h id).bind FunctionEntry.range := by
  unfold held
  rw [range_eq]
  cases r.lookup? h id <;> rfl

theorem held_of_range {range : Option QueueRange} (hr : r.range h id = .ok range) :
    r.held h id = range := by
  unfold held
  rw [hr]

theorem held_eq_some {range : QueueRange} (hr : r.held h id = some range) :
    ∃ e, r.lookup? h id = some e ∧ e.range = some range := by
  rw [held_eq] at hr
  exact Option.bind_eq_some_iff.1 hr

theorem held_of_lookup? {e : FunctionEntry} {range : QueueRange} (he : r.lookup? h id = some e)
    (hrange : e.range = some range) : r.held h id = some range := by
  rw [held_eq, he]
  exact hrange

/-- In a group without ranges no function holds one. -/
theorem held_vacant (hvacant : ∀ g, r.find? h = some g → ∀ e ∈ g.functions, e.range = none)
    (id : UInt16) : r.held h id = none := by
  cases hr : r.held h id with
  | none => rfl
  | some range =>
    obtain ⟨e, he, hrange⟩ := held_eq_some hr
    obtain ⟨g, hf, hge⟩ := lookup?_eq_some he
    have hnone := hvacant g hf e (Group.find?_eq_some hge).1
    cases hrange.symm.trans hnone

/-- A function without a range is idle. -/
theorem Valid.idle_of_held (hv : r.Valid) (hr : r.held h id = none) : Idle (r.lookup? h id) := by
  cases he : r.lookup? h id with
  | none => trivial
  | some e =>
    obtain ⟨g, hf, hge⟩ := lookup?_eq_some he
    have hgate := (hv.find? hf).gate e (Group.find?_eq_some hge).1
    have hrange : e.range = none := by simpa [held_eq, he] using hr
    unfold FunctionEntry.size at hgate
    rw [hrange] at hgate
    exact Nat.le_zero.1 hgate

/-- Functions of a group hold ranges without a common id. -/
theorem Valid.held_disjoint (hv : r.Valid) {id' : UInt16} {a b : QueueRange} {q : Nat}
    (ha : r.held h id = some a) (hb : r.held h id' = some b) (hqa : a.Holds q)
    (hqb : b.Holds q) : id = id' := by
  obtain ⟨e, he, hea⟩ := held_eq_some ha
  obtain ⟨e', he', heb⟩ := held_eq_some hb
  obtain ⟨g, hf, hge⟩ := lookup?_eq_some he
  rw [lookup?_of_find? hf] at he'
  obtain ⟨hmem, hid⟩ := Group.find?_eq_some hge
  obtain ⟨hmem', hid'⟩ := Group.find?_eq_some he'
  have hsame := (hv.find? hf).alone e hmem e' hmem' q ⟨a, hea, hqa⟩ ⟨b, heb, hqb⟩
  rw [← hid, ← hid', hsame]

/-! ## Requests -/

/-- A request is refused and changes nothing, or swaps the range of an idle function. -/
theorem Valid.updateFunction_inv (hv : r.Valid) {count : Nat} {hint : Option Nat}
    {reply : Reply Registry ResourceError (Option QueueRange)}
    (hr : r.updateFunction h id count hint = .ok reply) :
    (∃ error, reply.result = .error error ∧ reply.state = r) ∨
      ∃ g e free range, r.find? h = some g ∧ g.find? id = some e ∧ e.active.sum = 0 ∧
        g.Swap e free range ∧ reply.state = r.replace h.index (g.assign id free range) ∧
        reply.result = .ok range := by
  have hmove : ∀ (g : Group) inner, g.Valid → g.requestRange id count hint r.policy = .ok inner →
      g.Move id inner.state := fun _ _ hg =>
    Checked.of_exists (Group.requestRange_move hg id count hint r.policy)
  rcases hv.update_inv hmove hr with ⟨-, rfl⟩ | ⟨g, inner, hf, hc, -, rfl⟩
  · exact .inl ⟨_, rfl, rfl⟩
  · have hg := hv.find? hf
    rcases Checked.of_exists (Group.requestRange_spec hg id count hint r.policy) hc with
      ⟨error, hs, hresult⟩ | ⟨e, he, hidle, hreq⟩
    · refine .inl ⟨error, hresult, ?_⟩
      simp only [hs]
      exact replace_self hv hf
    · obtain ⟨state, result, notices⟩ := inner
      cases hreq with
      | freed _ hswap => exact .inr ⟨g, e, _, _, hf, he, hidle, hswap, rfl, rfl⟩
      | given _ hswap => exact .inr ⟨g, e, _, _, hf, he, hidle, hswap, rfl, rfl⟩
      | refused _ => exact .inl ⟨_, rfl, replace_self hv hf⟩

theorem Valid.updateFunction_held (hv : r.Valid) {count : Nat} {hint : Option Nat}
    {reply : Reply Registry ResourceError (Option QueueRange)}
    (hr : r.updateFunction h id count hint = .ok reply) :
    reply.state.held h id =
      match reply.result with
      | .ok range => range
      | .error _ => r.held h id := by
  rcases hv.updateFunction_inv hr with
    ⟨error, hresult, hs⟩ | ⟨g, e, free, range, hf, he, -, -, hs, hresult⟩
  · rw [hresult, hs]
  · have hlookup : (r.replace h.index (g.assign id free range)).lookup? h id =
        (g.assign id free range).find? id := lookup?_replace hf rfl
    rw [hresult, hs, held_eq, hlookup, Group.find?_assign_self he]
    rfl

/-- The request for a range by name, or for none. -/
def askFor (r : Registry) (h : GroupHandle) (id : UInt16) :
    Option QueueRange → Checked (Reply Registry ResourceError (Option QueueRange))
  | some want => r.updateFunction h id want.count (some want.base)
  | none => r.updateFunction h id 0 none

theorem askFor_eq (r : Registry) (h : GroupHandle) (id : UInt16) (range : Option QueueRange) :
    r.askFor h id range = r.update h fun g => g.askFor id r.policy range := by
  cases range <;> rfl

theorem Valid.askFor_held (hv : r.Valid) {range : Option QueueRange}
    {reply : Reply Registry ResourceError (Option QueueRange)}
    (hr : r.askFor h id range = .ok reply) :
    reply.state.held h id =
      match reply.result with
      | .ok range => range
      | .error _ => r.held h id := by
  cases range with
  | none => exact hv.updateFunction_held hr
  | some want => exact hv.updateFunction_held hr

/-- After a request that was met the function is given what it held before, if it asks for it. -/
theorem Valid.updateFunction_back (hv : r.Valid) {count : Nat} {hint : Option Nat}
    {reply : Reply Registry ResourceError (Option QueueRange)} {range : Option QueueRange}
    (hr : r.updateFunction h id count hint = .ok reply) (hmet : reply.result = .ok range) :
    ∃ back, reply.state.askFor h id (r.held h id) = .ok back ∧ back.result = .ok (r.held h id) := by
  rcases hv.updateFunction_inv hr with
    ⟨error, hresult, -⟩ | ⟨g, e, free, range', hf, he, hidle, hswap, hs, -⟩
  · cases hresult.symm.trans hmet
  · have hg := hv.find? hf
    have hheld : r.held h id = e.range := by
      rw [held_eq, lookup?_of_find? hf, he]
      rfl
    obtain ⟨inner, hinner, hresult⟩ := hswap.askFor_back hg he hidle r.policy
    have hmoved := Group.askFor_valid (hg.assign he hidle hswap) hinner
    have hfind : (r.replace h.index (g.assign id free range')).find? h =
        some (g.assign id free range') := replace_find? hf rfl
    rw [hs, hheld, askFor_eq, update_some hfind hinner hmoved]
    exact ⟨_, rfl, hresult⟩

/-! ## Counting queues -/

theorem Kept.held_other (hk : Kept h id r r') {other : UInt16} (ho : other ≠ id) :
    r'.held h other = r.held h other := by
  rw [held_eq, held_eq, hk.others h other (.inr ho)]

theorem held_recount {g : Group} {e : FunctionEntry} (hf : r.find? h = some g)
    (he : g.find? id = some e) (type : QueueType) (n active : Nat) :
    (r.replace h.index (g.recount id type n active)).held h id = r.held h id := by
  have hlookup : (r.replace h.index (g.recount id type n active)).lookup? h id =
      (g.recount id type n active).find? id := lookup?_replace hf rfl
  rw [held_eq, held_eq, hlookup, lookup?_of_find? hf, Group.find?_recount, if_pos rfl, he]
  rfl

theorem Valid.incrementActive_held (hv : r.Valid) {type : QueueType}
    {reply : Reply Registry ResourceError Unit}
    (hr : r.incrementActive h id type = .ok reply) (other : UInt16) :
    reply.state.held h other = r.held h other := by
  by_cases ho : other = id
  · subst ho
    rcases hv.incrementActive_inv hr with ⟨-, hs, -⟩ | ⟨g, e, _, hf, he, -, -, rfl⟩
    · rw [hs]
    · exact held_recount hf he _ _ _
  · exact (hv.incrementActive_kept hr).held_other ho

theorem Valid.decrementActive_held (hv : r.Valid) {type : QueueType}
    {reply : Reply Registry ResourceError Unit}
    (hr : r.decrementActive h id type = .ok reply) (other : UInt16) :
    reply.state.held h other = r.held h other := by
  by_cases ho : other = id
  · subst ho
    rcases hv.decrementActive_inv hr with ⟨-, hs, -⟩ | ⟨-, -, -, hs⟩ | ⟨g, e, hf, he, -, rfl⟩
    · rw [hs]
    · rw [hs]
    · exact held_recount hf he _ _ _
  · exact (hv.decrementActive_kept hr).held_other ho

end Registry

end DmaQueues
