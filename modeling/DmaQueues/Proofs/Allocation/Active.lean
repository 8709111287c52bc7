import DmaQueues.Proofs.Allocation.Entry

/-!
# Active queues

A function has at most as many active queues as its range has ids, and while it has one no
call takes it from its group or moves its range (`Valid.step_pinned`). A call that counts a
queue changes one count of one function and the sum of its group, both by one, so the sum
never has to stop at zero by itself. `Accounted` says this of a registry.
-/

namespace DmaQueues

namespace Group

variable {g g' : Group} {id id' : UInt16} {e : FunctionEntry}

/-- A function with active queues keeps its range, whichever function a call is about. -/
theorem Move.pinned (m : g.Move id' g') (he : g.find? id = some e) (hactive : 0 < e.active.sum) :
    ∃ e', g'.find? id = some e' ∧ e'.range = e.range := by
  by_cases hid : id = id'
  · subst hid
    -- only an idle function is detached or assigned a range
    cases m with
    | stay => exact ⟨e, he, rfl⟩
    | attach hnew => cases he.symm.trans hnew
    | detach he' hidle hs =>
      cases he.symm.trans he'
      omega
    | assign he' hidle hs =>
      cases he.symm.trans he'
      omega
    | @recount _ type n _ _ _ _ =>
      exact ⟨e.recount type n, by rw [find?_recount, if_pos rfl, he]; rfl, rfl⟩
  · exact ⟨e, (m.find?_other hid).trans he, rfl⟩

end Group

namespace Registry

variable {r : Registry} {h : GroupHandle} {g : Group} {id : UInt16} {e : FunctionEntry}
  {type : QueueType}

/-! ## A function with active queues stays -/

theorem Valid.change_pinned (hv : r.Valid) {h' : GroupHandle} {c : Group.Call}
    {reply : Reply Registry ResourceError Answer} (hr : r.change h' c = .ok reply)
    (he : r.lookup? h id = some e) (hactive : 0 < e.active.sum) :
    ∃ e', reply.state.lookup? h id = some e' ∧ e'.range = e.range := by
  rcases hv.change_inv hr with ⟨-, rfl⟩ | ⟨g, inner, hf, -, hm, rfl⟩
  · exact ⟨e, he, rfl⟩
  · by_cases hi : h.index = h'.index
    · rw [lookup?_congr hi, lookup?_of_find? hf] at he
      rw [lookup?_congr hi, lookup?_replace hf hm.index_eq]
      exact hm.pinned he hactive
    · exact ⟨e, ((hv.kept_replace hf hm).others h id (.inl hi)).trans he, rfl⟩

/-- No call takes a function with active queues from its group, or moves its range. -/
theorem Valid.step_pinned (hv : r.Valid) {c : Call} {reply : Reply Registry ResourceError Answer}
    (hr : r.step c = .ok reply) (he : r.lookup? h id = some e) (hactive : 0 < e.active.sum) :
    ∃ e', reply.state.lookup? h id = some e' ∧ e'.range = e.range := by
  cases c with
  | createGroup key base total =>
    obtain ⟨inner, hop, rfl⟩ := Checked.map_eq_ok hr
    exact ⟨e, (createGroup_lookup? r hop h id).trans he, rfl⟩
  | destroyGroup h' =>
    cases hr
    exact ⟨e, (destroyGroup_lookup? r h' h id).trans he, rfl⟩
  | change h' c => exact hv.change_pinned hr he hactive
  | ask q => exact ⟨e, by rw [step_ask hr, he], rfl⟩

/-! ## Counting -/

theorem Valid.functionActive_eq (hv : r.Valid) (he : r.lookup? h id = some e) :
    r.functionActive h id = .ok (.ok e.active.sum) := by
  obtain ⟨g, hf, hge⟩ := lookup?_eq_some he
  have htotal := (hv.find? hf).total_eq (Group.find?_eq_some hge).1
  unfold functionActive askFunction ask
  simp only [hf, hge, htotal]
  rfl

theorem Valid.active_le_size (hv : r.Valid) (he : r.lookup? h id = some e) :
    e.active.sum ≤ e.size := by
  obtain ⟨g, hf, hge⟩ := lookup?_eq_some he
  exact (hv.find? hf).gate e (Group.find?_eq_some hge).1

/-- A queue may be counted exactly while the range of the function is not full. -/
theorem Valid.incrementActive_met_iff (hv : r.Valid) :
    (∃ reply, r.incrementActive h id type = .ok reply ∧ reply.result = .ok ()) ↔
      ∃ e range, r.lookup? h id = some e ∧ e.range = some range ∧
        e.active.sum < range.count := by
  constructor
  · rintro ⟨reply, hr, hmet⟩
    rcases hv.incrementActive_inv hr with
      ⟨error, -, herror⟩ | ⟨g, e, range, hf, he, hrange, hroom, -⟩
    · cases herror.symm.trans hmet
    · exact ⟨e, range, (lookup?_of_find? hf).trans he, hrange, hroom⟩
  · rintro ⟨e, range, he, hrange, hroom⟩
    obtain ⟨g, hf, hge⟩ := lookup?_eq_some he
    exact ⟨_, hv.incrementActive_eq hf hge type hrange hroom, rfl⟩

/-- What is counted in a registry, and what a count of active queues stands in the way of. -/
structure Accounted (r : Registry) : Prop where
  /-- The queues that are reported active fit in the range of the function. -/
  gate : ∀ {h id e}, r.lookup? h id = some e →
    r.functionActive h id = .ok (.ok e.active.sum) ∧ e.active.sum ≤ e.size
  /-- After any call a function with active queues is there, with its group and its range. -/
  pinned : ∀ {h id e c reply}, r.lookup? h id = some e → 0 < e.active.sum →
    r.step c = .ok reply → ∃ g' e', reply.state.find? h = some g' ∧ g'.find? id = some e' ∧
      e'.range = e.range
  /-- There is room for another queue while the range is not full. -/
  admits : ∀ h id type, (∃ reply, r.incrementActive h id type = .ok reply ∧
      reply.result = .ok ()) ↔
    ∃ e range, r.lookup? h id = some e ∧ e.range = some range ∧ e.active.sum < range.count
  increments : ∀ {h g id e type reply}, r.find? h = some g → g.find? id = some e →
    r.incrementActive h id type = .ok reply → reply.result = .ok () →
    reply.state = r.replace h.index (g.recount id type (e.active.get type + 1) (g.active + 1))
  /-- A count that can go down takes the sum of the group down with it. -/
  decrements : ∀ {h g id e} type, r.find? h = some g → g.find? id = some e →
    ∃ reply, r.decrementActive h id type = .ok reply ∧ reply.result = .ok () ∧
      (e.active.get type = 0 → reply.state = r) ∧
      (0 < e.active.get type → 0 < g.active ∧ reply.state =
        r.replace h.index (g.recount id type (e.active.get type - 1) (g.active - 1)))

theorem Valid.accounted (hv : r.Valid) : r.Accounted where
  gate he := ⟨hv.functionActive_eq he, hv.active_le_size he⟩
  pinned he hactive hr := by
    obtain ⟨e', he', hrange⟩ := hv.step_pinned hr he hactive
    obtain ⟨g', hf', hge'⟩ := lookup?_eq_some he'
    exact ⟨g', e', hf', hge', hrange⟩
  admits _ _ _ := hv.incrementActive_met_iff
  increments hf he hr hmet := by
    rcases hv.incrementActive_inv hr with
      ⟨error, -, herror⟩ | ⟨g', e', range, hf', he', -, -, rfl⟩
    · cases herror.symm.trans hmet
    · cases hf.symm.trans hf'
      cases he.symm.trans he'
      rfl
  decrements type hf he := by
    rcases hv.decrementActive_eq hf he type with ⟨hzero, hr⟩ | ⟨hpos, hsum, hr⟩
    · exact ⟨_, hr, rfl, fun _ => rfl, fun hpos => by omega⟩
    · exact ⟨_, hr, rfl, fun hzero => by omega, fun _ => ⟨hsum, rfl⟩⟩

/-- In every reachable registry, under either policy, active queues are accounted for. -/
theorem active_queues_accounted {policy : RequestPolicy} {calls : List Call}
    {results : List (Except ResourceError Answer)}
    (hr : (fresh policy).run calls = .ok (r, results)) : r.Accounted :=
  (valid_of_run hr).1.accounted

/-- A function with a full range: it gets no more queues and stays when it is to go, another of the
group has room, and at zero a count stays while the sum is above. -/
theorem full_function_accounted :
    ∃ r results reply, (fresh .releaseFirst).run [.createGroup ⟨1, 2⟩ 4 8,
        .change ⟨⟨1, 2⟩, 0⟩ (.createFunction 1), .change ⟨⟨1, 2⟩, 0⟩ (.createFunction 2),
        .change ⟨⟨1, 2⟩, 0⟩ (.requestRange 1 2 none),
        .change ⟨⟨1, 2⟩, 0⟩ (.requestRange 2 1 none),
        .change ⟨⟨1, 2⟩, 0⟩ (.incrementActive 1 .h2c),
        .change ⟨⟨1, 2⟩, 0⟩ (.incrementActive 1 .cmpt)] = .ok (r, results) ∧
      r.Accounted ∧ r.functionActive ⟨⟨1, 2⟩, 0⟩ 1 = .ok (.ok 2) ∧
      (¬ ∃ reply, r.incrementActive ⟨⟨1, 2⟩, 0⟩ 1 .c2h = .ok reply ∧ reply.result = .ok ()) ∧
      (∃ reply, r.incrementActive ⟨⟨1, 2⟩, 0⟩ 2 .c2h = .ok reply ∧ reply.result = .ok ()) ∧
      r.step (.change ⟨⟨1, 2⟩, 0⟩ (.destroyFunction 1)) = .ok reply ∧
      (∃ g' e', reply.state.find? ⟨⟨1, 2⟩, 0⟩ = some g' ∧ g'.find? 1 = some e' ∧
        e'.range = some ⟨4, 2⟩) ∧
      r.decrementActive ⟨⟨1, 2⟩, 0⟩ 1 .c2h = .ok ⟨r, .ok (), []⟩ := by
  let full : FunctionEntry := ⟨1, some ⟨4, 2⟩, { h2c := 1, cmpt := 1 }⟩
  let g : Group := ⟨⟨1, 2⟩, 0, ⟨4, 8⟩, ⟨[⟨7, 5⟩]⟩, [full, ⟨2, some ⟨6, 1⟩, {}⟩], 2⟩
  have hrun : (fresh .releaseFirst).run [.createGroup ⟨1, 2⟩ 4 8,
      .change ⟨⟨1, 2⟩, 0⟩ (.createFunction 1), .change ⟨⟨1, 2⟩, 0⟩ (.createFunction 2),
      .change ⟨⟨1, 2⟩, 0⟩ (.requestRange 1 2 none),
      .change ⟨⟨1, 2⟩, 0⟩ (.requestRange 2 1 none),
      .change ⟨⟨1, 2⟩, 0⟩ (.incrementActive 1 .h2c),
      .change ⟨⟨1, 2⟩, 0⟩ (.incrementActive 1 .cmpt)] = .ok (⟨.releaseFirst, [g], 1⟩, _) := rfl
  have haccounted := active_queues_accounted hrun
  have hfull : (⟨.releaseFirst, [g], 1⟩ : Registry).lookup? ⟨⟨1, 2⟩, 0⟩ 1 = some full := rfl
  have hstep : (⟨.releaseFirst, [g], 1⟩ : Registry).step
      (.change ⟨⟨1, 2⟩, 0⟩ (.destroyFunction 1)) = .ok ⟨_, _, _⟩ := rfl
  refine ⟨_, _, _, hrun, haccounted, (haccounted.gate hfull).1, ?_, ?_, hstep,
    haccounted.pinned hfull (by decide) hstep, rfl⟩
  · rw [haccounted.admits]
    rintro ⟨e, range, he, hrange, hroom⟩
    cases hfull.symm.trans he
    cases hrange
    exact absurd hroom (by decide)
  · exact (haccounted.admits _ _ _).2 ⟨_, _, rfl, rfl, by decide⟩

end Registry

end DmaQueues
