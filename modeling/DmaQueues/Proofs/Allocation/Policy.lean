import DmaQueues.Proofs.Allocation.History

/-!
# The request policies agree

A request that releases the old range first can always be undone: the range goes back to
where it came from and the free list is the one before (`Valid.reversible`). So the two
policies come to the same group and the same result at every call, and two registries that
differ in the policy only answer every sequence of calls alike (`policies_agree`). The
notices do differ.
-/

namespace DmaQueues

/-- The result of a reply and a view of the state it leaves behind, without the notices. -/
def Reply.outcome {σ τ ε α : Type} (view : σ → τ) (reply : Reply σ ε α) : τ × Except ε α :=
  (view reply.state, reply.result)

theorem Reply.outcome_map {σ τ ε α β : Type} {view : σ → τ} {op op' : Checked (Reply σ ε α)}
    (f : α → β) (h : outcome view <$> op = outcome view <$> op') :
    outcome view <$> Reply.map f <$> op = outcome view <$> Reply.map f <$> op' := by
  have hmap : ∀ op : Checked (Reply σ ε α), outcome view <$> Reply.map f <$> op =
      (fun o : τ × Except ε α => (o.1, o.2.map f)) <$> outcome view <$> op := by
    intro op
    cases op <;> rfl
  rw [hmap, hmap, h]

namespace Group

/-- The old range of `e` can be released, what is then found can be taken, and else the group
before the release is had again. -/
structure Reversible (g : Group) (id : UInt16) (e : FunctionEntry) (plan : FreeList) : Prop where
  released : returned g.free e.range = .ok plan
  taken : ∀ count hint, count ≠ 0 → ∃ found notices, plan.find count hint = .ok (found, notices) ∧
    ∀ want, found = some want → ∃ free, plan.take want = .ok (.ok free)
  restored : ∀ notices, (g.assign id plan none).takeBack id e.range notices =
    .ok (g.refuse .noQueuesLeft notices)

variable {α β : Type} {g : Group} {id : UInt16} {e : FunctionEntry}

theorem Valid.reversible (h : g.Valid) (he : g.find? id = some e) :
    ∃ plan, g.Reversible id e plan := by
  obtain ⟨plan, hp, hs⟩ := h.returned_spec he
  refine ⟨plan, hp, fun count hint hcount => ?_, takeBack_eq h he hs hp⟩
  obtain ⟨found, notices, hf, -, hw⟩ :=
    FreeList.find_spec hs.wellFormed (fun q hq => hs.lt h he hq) (Nat.pos_of_ne_zero hcount) hint
  refine ⟨found, notices, hf, fun want hfound => ?_⟩
  obtain ⟨hcover, hex⟩ := hw want hfound
  obtain ⟨free, ht, -⟩ := hs.take h he (by omega) hex
  exact ⟨free, ht⟩

/-- A releasing request never loses the old range. -/
theorem Valid.restore_possible (h : g.Valid) (id : UInt16) (count : Nat) (hint : Option Nat) :
    ∃ reply, g.requestRange id count hint .releaseFirst = .ok reply ∧
      ∀ i range, .restoreImpossible i range ∉ reply.notices := by
  unfold requestRange
  cases he : g.find? id with
  | none => exact ⟨_, rfl, by simp [refuse]⟩
  | some e =>
    simp only [h.total_eq (find?_eq_some he).1, Checked.ok_bind]
    by_cases hidle : e.active.sum = 0
    · obtain ⟨state, result, ns, ns', -, -, hr, -, hnot⟩ := request_spec h he count hint
      rw [if_neg (by simpa using hidle)]
      exact ⟨_, hr, hnot⟩
    · rw [if_pos (by simpa using hidle)]
      exact ⟨_, rfl, by simp [refuse]⟩

theorem requestRange_policy (h : g.Valid) (id : UInt16) (count : Nat) (hint : Option Nat)
    (p q : RequestPolicy) :
    Reply.outcome (fun g => g) <$> g.requestRange id count hint p =
      Reply.outcome (fun g => g) <$> g.requestRange id count hint q := by
  unfold requestRange
  cases he : g.find? id with
  | none => rfl
  | some e =>
    simp only [h.total_eq (find?_eq_some he).1, Checked.ok_bind]
    by_cases hidle : e.active.sum = 0
    · obtain ⟨state, result, ns, ns', -, ht, hr, -⟩ := request_spec h he count hint
      rw [if_neg (by simpa using hidle), if_neg (by simpa using hidle)]
      cases p <;> cases q <;> simp only [ht, hr, Checked.map_ok, Reply.outcome]
    · rw [if_pos (by simpa using hidle), if_pos (by simpa using hidle)]

theorem apply_policy (h : g.Valid) (p q : RequestPolicy) (c : Call) :
    Reply.outcome (fun g => g) <$> g.apply p c = Reply.outcome (fun g => g) <$> g.apply q c := by
  cases c with
  | requestRange id count hint => exact Reply.outcome_map _ (requestRange_policy h id count hint p q)
  | updateFunction id count hint => exact Reply.outcome_map _ (requestRange_policy h id count hint p q)
  | createFunction id => rfl
  | destroyFunction id => rfl
  | incrementActive id type => rfl
  | decrementActive id type => rfl

end Group

namespace Registry

variable {α : Type} {r : Registry} {h : GroupHandle}

/-- `r` with another policy. -/
def withPolicy (r : Registry) (policy : RequestPolicy) : Registry :=
  { r with policy }

@[simp] theorem withPolicy_groups (r : Registry) (p : RequestPolicy) :
    (r.withPolicy p).groups = r.groups := rfl

@[simp] theorem withPolicy_next (r : Registry) (p : RequestPolicy) :
    (r.withPolicy p).next = r.next := rfl

/-- The groups of a registry and the index of the next. -/
def bookkeeping (r : Registry) : List Group × Nat :=
  (r.groups, r.next)

theorem createGroup_policy (r : Registry) (p q : RequestPolicy) (key : GroupKey)
    (base total : Nat) :
    Reply.outcome (withPolicy · q) <$> (r.withPolicy p).createGroup key base total =
      Reply.outcome (withPolicy · q) <$> r.createGroup key base total := by
  unfold createGroup
  by_cases hkey : (r.groups.any fun g => g.key == key) = true
  · have hkey' : ((r.withPolicy p).groups.any fun g => g.key == key) = true := hkey
    rw [if_pos hkey, if_pos hkey']
    rfl
  · have hkey' : ¬ ((r.withPolicy p).groups.any fun g => g.key == key) = true := hkey
    rw [if_neg hkey, if_neg hkey']
    simp only [withPolicy_next]
    cases Group.create key r.next base total with
    | error fault => rfl
    | ok created =>
      cases created with
      | error error => rfl
      | ok g => cases hnext : Checked.add r.next 1 <;> rfl

theorem destroyGroup_outcome (r : Registry) (p q : RequestPolicy) (h : GroupHandle) :
    Reply.outcome (withPolicy · q) ((r.withPolicy p).destroyGroup h) =
      Reply.outcome (withPolicy · q) (r.destroyGroup h) := by
  unfold destroyGroup
  have hfind : (r.withPolicy p).find? h = r.find? h := rfl
  rw [hfind]
  cases r.find? h with
  | none => rfl
  | some g => by_cases hempty : g.functions.isEmpty <;> simp only [hempty] <;> rfl

theorem answer_policy (r : Registry) (p : RequestPolicy) (q : Question) :
    (r.withPolicy p).answer q = r.answer q := by
  cases q <;> rfl

theorem Valid.change_policy (hv : r.Valid) (p q : RequestPolicy) (h : GroupHandle)
    (c : Group.Call) :
    Reply.outcome (Registry.withPolicy · q) <$> (r.withPolicy p).change h c =
      Reply.outcome (Registry.withPolicy · q) <$> r.change h c := by
  have hfind : (r.withPolicy p).find? h = r.find? h := rfl
  rw [change_eq, change_eq]
  cases hf : r.find? h with
  | none =>
    rw [update_none hf, update_none (hfind.trans hf)]
    rfl
  | some g =>
    have hg := hv.find? hf
    have hap : Reply.outcome (fun g => g) <$> g.apply (r.withPolicy p).policy c =
        Reply.outcome (fun g => g) <$> g.apply r.policy c := Group.apply_policy hg _ _ c
    rcases Group.apply_spec hg r.policy c with hc | ⟨reply, hc, hm⟩
    · have hc' : g.apply (r.withPolicy p).policy c = .error .addOverflow := by
        rw [hc] at hap
        exact Checked.map_eq_error hap
      rw [update_fault hf hc, update_fault (hfind.trans hf) hc']
    · obtain ⟨reply', hc', heq⟩ : ∃ reply', g.apply (r.withPolicy p).policy c = .ok reply' ∧
          Reply.outcome (fun g => g) reply' = Reply.outcome (fun g => g) reply := by
        rw [hc] at hap
        exact Checked.map_eq_ok hap
      obtain ⟨hstate, hresult⟩ : reply'.state = reply.state ∧ reply'.result = reply.result :=
        Prod.mk.inj heq
      have hvalid := hm.valid hg
      rw [update_some hf hc hvalid, update_some (hfind.trans hf) hc' (hstate ▸ hvalid)]
      simp only [Checked.map_ok, Reply.outcome, hstate, hresult]
      rfl

/-- Every call leaves the same groups and gives the same result under both policies. -/
theorem Valid.step_policy (hv : r.Valid) (p q : RequestPolicy) (c : Call) :
    Reply.outcome (Registry.withPolicy · q) <$> (r.withPolicy p).step c =
      Reply.outcome (Registry.withPolicy · q) <$> r.step c := by
  cases c with
  | createGroup key base total =>
    exact Reply.outcome_map _ (createGroup_policy r p q key base total)
  | destroyGroup h =>
    have hd := destroyGroup_outcome r p q h
    obtain ⟨hstate, hresult⟩ := Prod.mk.inj hd
    simp only [step, Checked.pure_eq, Checked.map_ok, Reply.outcome, Reply.map, hstate, hresult]
  | change h c => exact hv.change_policy p q h c
  | ask question =>
    simp only [step, answer_policy]
    cases r.answer question <;> rfl

theorem collect_congr {α β γ : Type} {view : α → γ} {first : β} {op op' : Checked (α × List β)}
    (h : Prod.map view id <$> op = Prod.map view id <$> op') :
    Prod.map view id <$> (op >>= fun p => return (p.1, first :: p.2)) =
      Prod.map view id <$> (op' >>= fun p => return (p.1, first :: p.2)) := by
  have hcollect : ∀ op : Checked (α × List β),
      Prod.map view id <$> (op >>= fun p => return (p.1, first :: p.2)) =
        Prod.map id (first :: ·) <$> Prod.map view id <$> op := by
    intro op
    cases op <;> rfl
  rw [hcollect, hcollect, h]

/-- A run does not depend on the policy. -/
theorem Valid.run_policy (hv : r.Valid) (p q : RequestPolicy) (calls : List Call) :
    Prod.map (Registry.withPolicy · q) id <$> (r.withPolicy p).run calls =
      Prod.map (Registry.withPolicy · q) id <$> r.run calls := by
  induction calls generalizing r p with
  | nil => rfl
  | cons c cs ih =>
    have hstep := hv.step_policy p q c
    rw [run, run]
    rcases hv.step_spec c with hc | ⟨reply, hc, hv', -⟩
    · rw [hc] at hstep ⊢
      rw [Checked.map_eq_error hstep]
    · rw [hc] at hstep ⊢
      obtain ⟨reply', hp, heq⟩ := Checked.map_eq_ok hstep
      obtain ⟨hstate, hresult⟩ : reply'.state.withPolicy q = reply.state.withPolicy q ∧
          reply'.result = reply.result := Prod.mk.inj heq
      -- Up to the policy, both continue from the same registry.
      have hsame : reply'.state = reply.state.withPolicy reply'.state.policy := by
        have hview := congrArg (fun s : Registry => s.withPolicy reply'.state.policy) hstate
        exact hview
      have hrest := ih hv' reply'.state.policy
      rw [← hsame] at hrest
      simp only [hp, Checked.ok_bind, hresult]
      exact collect_congr hrest

/-- Two registries that differ in the policy give the same results in every run and leave the
same groups. In every reachable group a releasing request can be undone, and never finds that it
cannot. -/
theorem policies_agree :
    (∀ calls : List Call,
      Prod.map bookkeeping id <$> (fresh .releaseFirst).run calls =
        Prod.map bookkeeping id <$> (fresh .transactional).run calls) ∧
      ∀ (calls : List Call) (r : Registry) (results : List (Except ResourceError Answer)),
        (fresh .releaseFirst).run calls = .ok (r, results) → ∀ g ∈ r.groups,
          (∀ id e, g.find? id = some e → ∃ plan, g.Reversible id e plan) ∧
            ∀ id count hint, ∃ reply, g.requestRange id count hint .releaseFirst = .ok reply ∧
              ∀ i range, .restoreImpossible i range ∉ reply.notices := by
  refine ⟨fun calls => ?_, fun calls r results hr g hg => ?_⟩
  · have hrun := (valid_fresh .transactional).run_policy .releaseFirst .transactional calls
    have hview := congrArg (Prod.map bookkeeping id <$> ·) hrun
    simp only [Functor.map_map] at hview
    exact hview
  · obtain ⟨hv, -⟩ := valid_of_run hr
    exact ⟨fun id e he => (hv.groups g hg).reversible he,
      fun id count hint => (hv.groups g hg).restore_possible id count hint⟩

/-- The old range of a function lies between two free ones; a request for too much is refused
under both policies and leaves it there. -/
theorem refused_request_agrees :
    ∃ r g results, (fresh .releaseFirst).run [.createGroup ⟨1, 2⟩ 0 8,
        .change ⟨⟨1, 2⟩, 0⟩ (.createFunction 1), .change ⟨⟨1, 2⟩, 0⟩ (.requestRange 1 3 (some 2)),
        .change ⟨⟨1, 2⟩, 0⟩ (.requestRange 1 9 none)] = .ok (r, results) ∧
      results.getLast? = some (.error .noQueuesLeft) ∧ r.groups = [g] ∧
      g.free.ranges = [⟨0, 2⟩, ⟨5, 3⟩] ∧
      Prod.map bookkeeping id <$> (fresh .transactional).run [.createGroup ⟨1, 2⟩ 0 8,
        .change ⟨⟨1, 2⟩, 0⟩ (.createFunction 1), .change ⟨⟨1, 2⟩, 0⟩ (.requestRange 1 3 (some 2)),
        .change ⟨⟨1, 2⟩, 0⟩ (.requestRange 1 9 none)] = .ok (r.bookkeeping, results) ∧
      ∃ plan, g.Reversible 1 ⟨1, some ⟨2, 3⟩, {}⟩ plan := by
  obtain ⟨hsame, hsafe⟩ := policies_agree
  let g : Group := ⟨⟨1, 2⟩, 0, ⟨0, 8⟩, ⟨[⟨0, 2⟩, ⟨5, 3⟩]⟩, [⟨1, some ⟨2, 3⟩, {}⟩], 0⟩
  have hrun : (fresh .releaseFirst).run [.createGroup ⟨1, 2⟩ 0 8,
        .change ⟨⟨1, 2⟩, 0⟩ (.createFunction 1), .change ⟨⟨1, 2⟩, 0⟩ (.requestRange 1 3 (some 2)),
        .change ⟨⟨1, 2⟩, 0⟩ (.requestRange 1 9 none)] = .ok (⟨.releaseFirst, [g], 1⟩,
      [.ok (.handle ⟨⟨1, 2⟩, 0⟩), .ok .done, .ok (.base (some 2)), .error .noQueuesLeft]) := rfl
  refine ⟨_, g, _, hrun, rfl, rfl, rfl, (hsame _).symm.trans (congrArg _ hrun), ?_⟩
  exact (hsafe _ _ _ hrun g (List.mem_singleton.2 rfl)).1 1 _ rfl

end Registry

end DmaQueues
