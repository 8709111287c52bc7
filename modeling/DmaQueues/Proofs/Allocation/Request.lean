import DmaQueues.Proofs.Allocation.Held

/-!
# Requests for ranges

What a request comes to is said on the ids that the function may be given, the free ones and
its own (`Group.Usable`): an idle function that asks for queues gets the `Chosen` place among
them. The result is determined by that (`Answered.unique`), whatever the policy, and the
registry afterwards differs in the range of the function and the free ids only (`Served`).
-/

namespace DmaQueues

open QueueRange

namespace Group

variable {g : Group} {id : UInt16} {e : FunctionEntry} {count : Nat} {hint : Option Nat}

/-- The ids that a function may be given: those that are free and its own. -/
def Usable (g : Group) (e : FunctionEntry) (q : Nat) : Prop :=
  g.free.Mem q ∨ e.Holds q

/-- The result of a request that had to look for a place. -/
def placed : Option QueueRange → Except ResourceError (Option QueueRange)
  | some want => .ok (some want)
  | none => .error .noQueuesLeft

/-- The result of a request for `count` queues by an entry, if the function has one. -/
inductive Answered (g : Group) (count : Nat) (hint : Option Nat) :
    Option FunctionEntry → Except ResourceError (Option QueueRange) → Prop where
  | unknown : Answered g count hint none (.error .notFound)
  | busy {e : FunctionEntry} : 0 < e.active.sum →
      Answered g count hint (some e) (.error .qmaxChangeRejected)
  | released {e : FunctionEntry} : e.active.sum = 0 → count = 0 →
      Answered g count hint (some e) (.ok none)
  | sought {e : FunctionEntry} {found : Option QueueRange} : e.active.sum = 0 → 0 < count →
      Chosen (g.Usable e) count hint found → Answered g count hint (some e) (placed found)

theorem Answered.unique {entry : Option FunctionEntry}
    {a b : Except ResourceError (Option QueueRange)} (ha : g.Answered count hint entry a)
    (hb : g.Answered count hint entry b) : a = b := by
  cases ha with
  | unknown => cases hb; rfl
  | busy hbusy =>
    cases hb with
    | busy _ => rfl
    | released hidle _ => omega
    | sought hidle _ _ => omega
  | released hidle hzero =>
    cases hb with
    | busy hbusy => omega
    | released _ _ => rfl
    | sought _ hpos _ => omega
  | sought hidle hpos hchosen =>
    cases hb with
    | busy hbusy => omega
    | released _ hzero => omega
    | sought _ _ hchosen' => rw [hchosen.unique hchosen']

/-- An idle function is refused queues only for want of a run of ids that is long enough. -/
theorem Answered.noQueuesLeft_iff {result : Except ResourceError (Option QueueRange)}
    (h : g.Answered count hint (some e) result) (hidle : e.active.sum = 0) (hpos : 0 < count) :
    result = .error .noQueuesLeft ↔
      ∀ base, ¬ (⟨base, count⟩ : QueueRange).Within (g.Usable e) := by
  cases h with
  | busy hbusy => omega
  | released _ hzero => omega
  | @sought _ found _ _ hchosen =>
    rw [← hchosen.none_iff]
    cases found <;> simp [placed]

/-- The free list with the range of the function returned is searched. -/
theorem requestTransactional_sought (h : g.Valid) (he : g.find? id = some e) (hpos : 0 < count)
    (hint : Option Nat) :
    ∃ reply found, g.requestTransactional id e.range count hint = .ok reply ∧
      reply.result = placed found ∧ Chosen (g.Usable e) count hint found := by
  obtain ⟨plan, hp, hs⟩ := h.returned_spec he
  have hids : plan.Mem = g.Usable e := funext fun q => propext hs.mem_none
  obtain ⟨found, notices, hf, -, hchosen⟩ :=
    FreeList.find_chosen hs.wellFormed (fun q => hs.lt h he) hpos hint
  rw [requestTransactional_eq, hp]
  simp only [Checked.ok_bind, if_neg (Nat.ne_of_gt hpos), hf]
  cases found with
  | none => exact ⟨_, none, rfl, rfl, hids ▸ hchosen⟩
  | some want =>
    obtain ⟨hcount, hw⟩ := hchosen.within
    have hwant : 0 < want.count := hcount ▸ hpos
    obtain ⟨free, ht, -⟩ := hs.take h he hwant (FreeList.exists_covers hs.wellFormed hwant hw)
    simp only [ht, Checked.ok_bind]
    exact ⟨_, some want, rfl, rfl, hids ▸ hchosen⟩

theorem requestRange_answered (h : g.Valid) (id : UInt16) (count : Nat) (hint : Option Nat)
    (policy : RequestPolicy) :
    ∃ reply, g.requestRange id count hint policy = .ok reply ∧
      g.Answered count hint (g.find? id) reply.result := by
  cases he : g.find? id with
  | none => exact ⟨g.refuse .notFound, by simp [requestRange, he], .unknown⟩
  | some e =>
    by_cases hidle : e.active.sum = 0
    · by_cases hzero : count = 0
      · subst hzero
        obtain ⟨reply, hr, hresult⟩ := requestRange_none h he hidle hint policy
        exact ⟨reply, hr, hresult ▸ .released hidle rfl⟩
      · have hpos : 0 < count := by omega
        obtain ⟨inner, found, ht, hplaced, hchosen⟩ := requestTransactional_sought h he hpos hint
        obtain ⟨reply, hr, hresult⟩ := requestRange_result h he hidle ht policy
        exact ⟨reply, hr, hresult ▸ hplaced ▸ .sought hidle hpos hchosen⟩
    · refine ⟨g.refuse .qmaxChangeRejected [.changeRejected id e.active.sum], ?_,
        .busy (by omega)⟩
      unfold requestRange
      simp only [he, h.total_eq (find?_eq_some he).1, Checked.ok_bind]
      rw [if_pos hidle]
      rfl

end Group

namespace Registry

variable {r r' : Registry} {h : GroupHandle} {g : Group} {id : UInt16}

/-- The registry after a request with this result: a refusal changes nothing, and else the function
holds what it was given, and the other usable ids are free. -/
structure Served (r : Registry) (h : GroupHandle) (g : Group) (id : UInt16)
    (result : Except ResourceError (Option QueueRange)) (r' : Registry) : Prop where
  refused : ∀ error, result = .error error → r' = r
  given : ∀ range, result = .ok range → ∃ e g', g.find? id = some e ∧ r'.find? h = some g' ∧
    g'.find? id = some { e with range } ∧ g'.free.WellFormed ∧
    ∀ q, g'.free.Mem q ↔ g.Usable e q ∧ ¬ ∃ want, range = some want ∧ want.Holds q
  others : ∀ h' id', h'.index ≠ h.index ∨ id' ≠ id → r'.lookup? h' id' = r.lookup? h' id'

theorem Valid.updateFunction_answered (hv : r.Valid) (hf : r.find? h = some g) (id : UInt16)
    (count : Nat) (hint : Option Nat) :
    ∃ reply, r.updateFunction h id count hint = .ok reply ∧
      g.Answered count hint (g.find? id) reply.result := by
  have hg := hv.find? hf
  obtain ⟨inner, hinner, hanswer⟩ := Group.requestRange_answered hg id count hint r.policy
  have hmove := Checked.of_exists (Group.requestRange_move hg id count hint r.policy) hinner
  exact ⟨_, update_some hf hinner (hmove.valid hg), hanswer⟩

theorem Valid.updateFunction_served (hv : r.Valid) (hf : r.find? h = some g) {count : Nat}
    {hint : Option Nat} {reply : Reply Registry ResourceError (Option QueueRange)}
    (hr : r.updateFunction h id count hint = .ok reply) :
    r.Served h g id reply.result reply.state := by
  have hothers := (hv.updateFunction_kept hr).1.others
  rcases hv.updateFunction_inv hr with
    ⟨error, hresult, hs⟩ | ⟨g', e, free, range, hf', he, hidle, hswap, hs, hresult⟩
  · refine ⟨fun _ _ => hs, fun range hok => ?_, hothers⟩
    cases hresult.symm.trans hok
  · cases hf.symm.trans hf'
    refine ⟨fun error herror => ?_, fun range' hok => ?_, hothers⟩
    · cases hresult.symm.trans herror
    · cases hresult.symm.trans hok
      have hfind : (r.replace h.index (g.assign id free range)).find? h = some _ :=
        replace_find? hf rfl
      exact ⟨e, _, he, hs ▸ hfind, Group.find?_assign_self he free range, hswap.wellFormed,
        hswap.mem⟩

/-- Every request in a reachable registry is answered, and as the ids that the function may be
given say: no other result is right, and for want of queues it fails exactly if no run of these ids
is long enough. Nothing else changes. -/
theorem request_answered_exactly {policy : RequestPolicy} {calls : List Call}
    {results : List (Except ResourceError Answer)}
    (hr : (fresh policy).run calls = .ok (r, results)) (hf : r.find? h = some g) (id : UInt16)
    (count : Nat) (hint : Option Nat) :
    ∃ reply, r.updateFunction h id count hint = .ok reply ∧
      r.requestRange h id count hint =
        .ok ⟨reply.state, reply.result.map (Option.map QueueRange.base), reply.notices⟩ ∧
      (∀ result, reply.result = result ↔ g.Answered count hint (g.find? id) result) ∧
      (∀ e, g.find? id = some e → e.active.sum = 0 → 0 < count →
        (reply.result = .error .noQueuesLeft ↔
          ∀ base, ¬ (⟨base, count⟩ : QueueRange).Within (g.Usable e))) ∧
      r.Served h g id reply.result reply.state := by
  obtain ⟨hv, -⟩ := valid_of_run hr
  obtain ⟨reply, hreply, hanswer⟩ := hv.updateFunction_answered hf id count hint
  refine ⟨reply, hreply, ?_, fun result => ?_, fun e he hidle hpos => ?_,
    hv.updateFunction_served hf hreply⟩
  · unfold requestRange
    rw [hreply]
    rfl
  · exact ⟨fun heq => heq ▸ hanswer, hanswer.unique⟩
  · rw [he] at hanswer
    exact hanswer.noQueuesLeft_iff hidle hpos

/-- With its own id the function closes a hole as long as two others, and is moved to the highest of
the three since the hint is taken. -/
theorem equal_holes_request_answered :
    ∃ r g results reply, (fresh .releaseFirst).run [.createGroup ⟨1, 2⟩ 0 12,
        .change ⟨⟨1, 2⟩, 0⟩ (.createFunction 1), .change ⟨⟨1, 2⟩, 0⟩ (.createFunction 2),
        .change ⟨⟨1, 2⟩, 0⟩ (.createFunction 3),
        .change ⟨⟨1, 2⟩, 0⟩ (.requestRange 1 1 (some 1)),
        .change ⟨⟨1, 2⟩, 0⟩ (.requestRange 2 2 (some 3)),
        .change ⟨⟨1, 2⟩, 0⟩ (.requestRange 3 1 (some 8))] = .ok (r, results) ∧
      r.find? ⟨⟨1, 2⟩, 0⟩ = some g ∧ g.free.ranges = [⟨0, 1⟩, ⟨2, 1⟩, ⟨5, 3⟩, ⟨9, 3⟩] ∧
      r.updateFunction ⟨⟨1, 2⟩, 0⟩ 1 2 (some 4) = .ok reply ∧
      reply.result = .ok (some ⟨9, 2⟩) ∧
      g.Answered 2 (some 4) (some ⟨1, some ⟨1, 1⟩, {}⟩) (.ok (some ⟨9, 2⟩)) ∧
      r.Served ⟨⟨1, 2⟩, 0⟩ g 1 reply.result reply.state := by
  let g : Group := ⟨⟨1, 2⟩, 0, ⟨0, 12⟩, ⟨[⟨0, 1⟩, ⟨2, 1⟩, ⟨5, 3⟩, ⟨9, 3⟩]⟩,
    [⟨1, some ⟨1, 1⟩, {}⟩, ⟨2, some ⟨3, 2⟩, {}⟩, ⟨3, some ⟨8, 1⟩, {}⟩], 0⟩
  have hrun : (fresh .releaseFirst).run [.createGroup ⟨1, 2⟩ 0 12,
      .change ⟨⟨1, 2⟩, 0⟩ (.createFunction 1), .change ⟨⟨1, 2⟩, 0⟩ (.createFunction 2),
      .change ⟨⟨1, 2⟩, 0⟩ (.createFunction 3),
      .change ⟨⟨1, 2⟩, 0⟩ (.requestRange 1 1 (some 1)),
      .change ⟨⟨1, 2⟩, 0⟩ (.requestRange 2 2 (some 3)),
      .change ⟨⟨1, 2⟩, 0⟩ (.requestRange 3 1 (some 8))] = .ok (⟨.releaseFirst, [g], 1⟩, _) := rfl
  have hfind : (⟨.releaseFirst, [g], 1⟩ : Registry).find? ⟨⟨1, 2⟩, 0⟩ = some g := rfl
  obtain ⟨reply, hreply, -, hexact, -, hserved⟩ :=
    request_answered_exactly hrun hfind 1 2 (some 4)
  have hresult : reply.result = .ok (some ⟨9, 2⟩) := by
    cases hreply
    rfl
  exact ⟨_, g, _, reply, hrun, hfind, rfl, hreply, hresult, (hexact _).1 hresult, hserved⟩

end Registry

end DmaQueues
