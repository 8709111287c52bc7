import DmaQueues.Proofs.Allocation.Entry

/-!
# Refused calls

A call that is refused leaves everything as it was: every operation of a valid group checks
before it changes anything, or takes back what it changed (`Group.apply_atomic`), and so does
every call of a registry (`Valid.step_atomic`). The calls that were refused can be left out of
a run (`Valid.run_met`).
-/

namespace DmaQueues

/-- If it is a refusal, the reply leaves the state `s` as it was. -/
def Reply.Atomic {σ ε α : Type} (s : σ) (reply : Reply σ ε α) : Prop :=
  ∀ error, reply.result = .error error → reply.state = s

theorem Reply.Atomic.of_state {σ ε α : Type} {s : σ} {reply : Reply σ ε α}
    (h : reply.state = s) : reply.Atomic s :=
  fun _ _ => h

theorem Reply.Atomic.of_ok {σ ε α : Type} {s : σ} {reply : Reply σ ε α} {a : α}
    (h : reply.result = .ok a) : reply.Atomic s := by
  intro error herror
  cases h.symm.trans herror

theorem Reply.Atomic.map {σ ε α β : Type} {s : σ} {reply : Reply σ ε α} (h : reply.Atomic s)
    (f : α → β) : (reply.map f).Atomic s := by
  intro error herror
  cases hresult : reply.result with
  | ok a =>
    rw [Reply.map, hresult] at herror
    cases herror
  | error e => exact h e hresult

namespace Group

variable {α : Type} {g : Group}

theorem createFunction_atomic (g : Group) (id : UInt16) {reply : Reply Group ResourceError Unit}
    (hr : g.createFunction id = .ok reply) : reply.Atomic g := by
  rw [createFunction_eq] at hr
  cases hr
  split
  · exact .of_state rfl
  · exact .of_ok rfl

theorem destroyFunction_atomic (h : g.Valid) (id : UInt16) {reply : Reply Group ResourceError Unit}
    (hr : g.destroyFunction id = .ok reply) : reply.Atomic g := by
  rcases Checked.of_exists (destroyFunction_spec h id) hr with
    ⟨error, hs, -⟩ | ⟨e, free, -, -, -, rfl⟩
  · exact .of_state hs
  · exact .of_ok rfl

/-- Under the releasing policy too: the old range goes back to where it was. -/
theorem requestRange_atomic (h : g.Valid) (id : UInt16) (count : Nat) (hint : Option Nat)
    (policy : RequestPolicy) {reply : Reply Group ResourceError (Option QueueRange)}
    (hr : g.requestRange id count hint policy = .ok reply) : reply.Atomic g := by
  rcases Checked.of_exists (requestRange_spec h id count hint policy) hr with
    ⟨error, hs, -⟩ | ⟨e, -, -, hreq⟩
  · exact .of_state hs
  · obtain ⟨state, result, notices⟩ := reply
    cases hreq with
    | freed _ _ => exact .of_ok rfl
    | given _ _ => exact .of_ok rfl
    | refused _ => exact .of_state rfl

theorem incrementActive_atomic (h : g.Valid) (id : UInt16) (type : QueueType)
    {reply : Reply Group ResourceError Unit} (hr : g.incrementActive id type = .ok reply) :
    reply.Atomic g := by
  rcases incrementActive_spec h id type with ⟨e, -, -, hf⟩ | hv
  · rw [hf] at hr
    cases hr
  · rcases Checked.of_exists hv hr with ⟨error, hs, -⟩ | ⟨e, range, -, -, -, rfl⟩
    · exact .of_state hs
    · exact .of_ok rfl

theorem decrementActive_atomic (h : g.Valid) (id : UInt16) (type : QueueType)
    {reply : Reply Group ResourceError Unit} (hr : g.decrementActive id type = .ok reply) :
    reply.Atomic g := by
  rcases Checked.of_exists (decrementActive_spec h id type) hr with
    ⟨-, rfl⟩ | ⟨e, -, -, rfl⟩ | ⟨e, -, -, -, rfl⟩
  · exact .of_state rfl
  · exact .of_ok rfl
  · exact .of_ok rfl

theorem map_atomic {op : Checked (Reply Group ResourceError α)} {f : α → Answer}
    (h : ∀ reply, op = .ok reply → reply.Atomic g) {reply : Reply Group ResourceError Answer}
    (hr : Reply.map f <$> op = .ok reply) : reply.Atomic g := by
  obtain ⟨inner, hop, rfl⟩ := Checked.map_eq_ok hr
  exact (h inner hop).map f

theorem apply_atomic (h : g.Valid) {policy : RequestPolicy} {c : Call}
    {reply : Reply Group ResourceError Answer} (hr : g.apply policy c = .ok reply) :
    reply.Atomic g := by
  cases c with
  | createFunction id => exact map_atomic (fun _ => createFunction_atomic g id) hr
  | destroyFunction id => exact map_atomic (fun _ => destroyFunction_atomic h id) hr
  | requestRange id count hint =>
    exact map_atomic (fun _ => requestRange_atomic h id count hint policy) hr
  | updateFunction id count hint =>
    exact map_atomic (fun _ => requestRange_atomic h id count hint policy) hr
  | incrementActive id type => exact map_atomic (fun _ => incrementActive_atomic h id type) hr
  | decrementActive id type => exact map_atomic (fun _ => decrementActive_atomic h id type) hr

end Group

namespace Registry

variable {r r' : Registry}

theorem createGroup_atomic (r : Registry) {key : GroupKey} {base total : Nat}
    {reply : Reply Registry ResourceError GroupHandle}
    (hr : r.createGroup key base total = .ok reply) : reply.Atomic r := by
  rcases Checked.of_fault_or_exists (createGroup_spec r key base total) hr with
    ⟨error, hs, -⟩ | ⟨-, -, -, hresult⟩
  · exact .of_state hs
  · exact .of_ok hresult

theorem destroyGroup_atomic (r : Registry) (h : GroupHandle) : (r.destroyGroup h).Atomic r := by
  unfold destroyGroup
  cases r.find? h with
  | none => exact .of_state rfl
  | some g =>
    by_cases hempty : g.functions.isEmpty
    · simp only [hempty]
      exact .of_ok rfl
    · simp only [hempty]
      exact .of_state rfl

theorem Valid.change_atomic (hv : r.Valid) {h : GroupHandle} {c : Group.Call}
    {reply : Reply Registry ResourceError Answer} (hr : r.change h c = .ok reply) :
    reply.Atomic r := by
  rcases hv.change_inv hr with ⟨-, rfl⟩ | ⟨g, inner, hf, hc, -, rfl⟩
  · exact .of_state rfl
  · intro error herror
    have hsame := Group.apply_atomic (hv.find? hf) hc error herror
    simp only [hsame]
    exact replace_self hv hf

theorem Valid.step_atomic (hv : r.Valid) {c : Call} {reply : Reply Registry ResourceError Answer}
    (hr : r.step c = .ok reply) : reply.Atomic r := by
  cases c with
  | createGroup key base total =>
    obtain ⟨inner, hop, rfl⟩ := Checked.map_eq_ok hr
    exact (createGroup_atomic r hop).map _
  | destroyGroup h =>
    cases hr
    exact (destroyGroup_atomic r h).map _
  | change h c => exact hv.change_atomic hr
  | ask q => exact .of_state (step_ask hr)

/-- The calls of a run that were not refused. -/
def met (calls : List Call) (results : List (Except ResourceError Answer)) : List Call :=
  ((calls.zip results).filter fun p => p.2.isOk).map Prod.fst

/-- Without its refused calls a run comes to the same registry and the same answers. -/
theorem Valid.run_met (hv : r.Valid) {calls : List Call}
    {results : List (Except ResourceError Answer)} (hr : r.run calls = .ok (r', results)) :
    r.run (met calls results) = .ok (r', results.filter Except.isOk) := by
  induction calls generalizing r results with
  | nil =>
    cases hr
    rfl
  | cons c cs ih =>
    obtain ⟨reply, hstep, hrest⟩ := Checked.bind_eq_ok hr
    obtain ⟨⟨_, later⟩, hlater, hres⟩ := Checked.bind_eq_ok hrest
    cases hres
    have hv' := (Checked.of_fault_or_exists (hv.step_spec c) hstep).1
    have hmet := ih hv' hlater
    cases hresult : reply.result with
    | error error =>
      -- the call is left out, and the rest of the run starts where it did
      rw [hv.step_atomic hstep error hresult] at hmet
      exact hmet
    | ok answer =>
      have hcons : met (c :: cs) (.ok answer :: later) = c :: met cs later := rfl
      rw [hcons, run, hstep, Checked.ok_bind, hmet, hresult]
      rfl

/-- A refused call leaves a reachable registry as it was, under either policy. -/
theorem refused_call_keeps_registry {policy : RequestPolicy} {calls : List Call}
    {results : List (Except ResourceError Answer)}
    (hr : (fresh policy).run calls = .ok (r, results)) {c : Call}
    {reply : Reply Registry ResourceError Answer} (hc : r.step c = .ok reply)
    {error : ResourceError} (he : reply.result = .error error) : reply.state = r :=
  (valid_of_run hr).1.step_atomic hc error he

/-- A releasing request for too much joins the old range with a free one on either side, and splits
them again. -/
theorem refused_release_keeps_registry :
    ∃ r results reply, (fresh .releaseFirst).run [.createGroup ⟨1, 2⟩ 0 9,
        .change ⟨⟨1, 2⟩, 0⟩ (.createFunction 1), .change ⟨⟨1, 2⟩, 0⟩ (.createFunction 2),
        .change ⟨⟨1, 2⟩, 0⟩ (.requestRange 2 1 (some 8)),
        .change ⟨⟨1, 2⟩, 0⟩ (.requestRange 1 3 (some 2))] = .ok (r, results) ∧
      r.groups.map (fun g => g.free.ranges) = [[⟨0, 2⟩, ⟨5, 3⟩]] ∧
      r.step (.change ⟨⟨1, 2⟩, 0⟩ (.updateFunction 1 9 (some 0))) = .ok reply ∧
      reply.result = .error .noQueuesLeft ∧ reply.state = r := by
  let g : Group := ⟨⟨1, 2⟩, 0, ⟨0, 9⟩, ⟨[⟨0, 2⟩, ⟨5, 3⟩]⟩,
    [⟨1, some ⟨2, 3⟩, {}⟩, ⟨2, some ⟨8, 1⟩, {}⟩], 0⟩
  have hrun : (fresh .releaseFirst).run [.createGroup ⟨1, 2⟩ 0 9,
      .change ⟨⟨1, 2⟩, 0⟩ (.createFunction 1), .change ⟨⟨1, 2⟩, 0⟩ (.createFunction 2),
      .change ⟨⟨1, 2⟩, 0⟩ (.requestRange 2 1 (some 8)),
      .change ⟨⟨1, 2⟩, 0⟩ (.requestRange 1 3 (some 2))] = .ok (⟨.releaseFirst, [g], 1⟩, _) := rfl
  have hstep : (⟨.releaseFirst, [g], 1⟩ : Registry).step
      (.change ⟨⟨1, 2⟩, 0⟩ (.updateFunction 1 9 (some 0))) = .ok ⟨_, .error .noQueuesLeft, _⟩ := rfl
  exact ⟨_, _, _, hrun, rfl, hstep, rfl, refused_call_keeps_registry hrun hstep rfl⟩

end Registry

end DmaQueues
