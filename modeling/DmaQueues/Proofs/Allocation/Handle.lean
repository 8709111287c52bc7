import DmaQueues.Proofs.Allocation.Local
import DmaQueues.Proofs.Allocation.Soundness

/-!
# Handles of groups

A handle stands for one group for ever. `Handles` says what holds after every history of calls:
indices only grow, a handle finds the group that it was created for with the changes made
through it, until the group is destroyed, and nothing from then on.
-/

namespace DmaQueues.Registry

/-- Calls with their results. -/
abbrev History := List (Call × Except ResourceError Answer)

/-- The handles of the groups that were created. -/
def created (history : History) : List GroupHandle :=
  history.filterMap fun
    | (.createGroup .., .ok (.handle h)) => some h
    | _ => none

/-- The call destroyed the group of a handle. -/
def destroys (h : GroupHandle) : Call × Except ResourceError Answer → Bool
  | (.destroyGroup h', .ok _) => h'.index == h.index
  | _ => false

/-- The changes that were made through a handle, refused ones included. -/
def changesOf (h : GroupHandle) (history : History) : List Group.Call :=
  history.filterMap fun
    | (.change h' c, _) => if h'.index = h.index then some c else none
    | _ => none

/-- What handles mean after some calls of a new registry. -/
structure Handles (policy : RequestPolicy) (history : History) (r : Registry) : Prop where
  /-- A new group has a larger index than all before it. -/
  increasing : (created history).Pairwise fun first later => first.index < later.index
  keys : (r.groups.map Group.key).Nodup
  indices : (r.groups.map Group.index).Nodup
  /-- Until it is destroyed, the group is what the calls through the handle made of it. -/
  live : ∀ earlier key base total h later,
    history = earlier ++ (.createGroup key base total, .ok (.handle h)) :: later →
    later.any (destroys h) = false →
    ∃ start g, Group.create key h.index base total = .ok (.ok start) ∧
      start.run policy (changesOf h later) = .ok g ∧ r.find? h = some g ∧
      r.findGroup key = some h
  /-- Once it is destroyed, no call through the handle finds a group. -/
  gone : ∀ earlier key base total h later,
    history = earlier ++ (.createGroup key base total, .ok (.handle h)) :: later →
    later.any (destroys h) = true →
    r.find? h = none ∧ ∀ c : Call, c.handle? = some h → r.step c = .ok ⟨r, c.missing, []⟩
  found : ∀ key h, r.findGroup key = some h ↔
    h.key = key ∧ ∃ g ∈ r.groups, g.key = key ∧ g.index = h.index
  unknown : ∀ key, r.findGroup key = none ↔ ∀ g ∈ r.groups, g.key ≠ key
  /-- Groups of other handles are left as they are. -/
  frame : ∀ (c : Call) h reply, c.handle? = some h → r.step c = .ok reply →
    ∀ h' : GroupHandle, h'.index ≠ h.index → reply.state.find? h' = r.find? h'
  /-- Calls through handles of different groups can be made in either order. -/
  commute : ∀ (a b : Call) h h', a.handle? = some h → b.handle? = some h' → h.index ≠ h'.index →
    (fun p => (p.1, p.2.reverse)) <$> r.run [a, b] = r.run [b, a]

variable {r r' : Registry} {h h' : GroupHandle} {g g' : Group} {c : Call}
  {reply : Reply Registry ResourceError Answer} {calls : List Call}
  {results : List (Except ResourceError Answer)}

theorem Valid.run_cons (hv : r.Valid) (hr : r.run (c :: calls) = .ok (r', results)) :
    ∃ reply later, results = reply.result :: later ∧ r.step c = .ok reply ∧ reply.state.Valid ∧
      reply.state.policy = r.policy ∧ reply.state.run calls = .ok (r', later) := by
  obtain ⟨reply, hstep, hrest⟩ := Checked.bind_eq_ok hr
  obtain ⟨⟨_, later⟩, hlater, hres⟩ := Checked.bind_eq_ok hrest
  cases hres
  obtain ⟨hv', hp'⟩ := Checked.of_fault_or_exists (hv.step_spec c) hstep
  exact ⟨reply, later, rfl, hstep, hv', hp', hlater⟩

/-! ## Keys -/

theorem step_createGroup {key : GroupKey} {base total : Nat}
    (hr : r.step (.createGroup key base total) = .ok reply) :
    (reply.state = r ∧ ∃ error, reply.result = .error error) ∨
      r.Accepts key base total ∧ reply.result = .ok (.handle ⟨key, r.next⟩) ∧
        reply.state = { r with groups := r.groups ++ [r.newGroup key base total],
                               next := r.next + 1 } := by
  obtain ⟨inner, hop, rfl⟩ := Checked.map_eq_ok hr
  by_cases h : r.Accepts key base total
  · rw [createGroup_accepted h] at hop
    obtain ⟨next, hnext, hinner⟩ := Checked.bind_eq_ok hop
    cases hinner
    exact .inr ⟨h, rfl, by rw [← Checked.add_eq_ok hnext]; rfl⟩
  · obtain ⟨error, hrefused⟩ := createGroup_refused h
    rw [hrefused] at hop
    cases hop
    exact .inl ⟨rfl, error, rfl⟩

theorem Valid.step_keys (hv : r.Valid) (hk : (r.groups.map Group.key).Nodup)
    (hr : r.step c = .ok reply) : (reply.state.groups.map Group.key).Nodup := by
  cases c with
  | createGroup key base total =>
    rcases step_createGroup hr with ⟨hs, -⟩ | ⟨⟨hnew, -⟩, -, hs⟩
    · rwa [hs]
    · rw [hs, List.map_append, List.nodup_append]
      refine ⟨hk, List.nodup_singleton _, fun k hmem k' hmem' => ?_⟩
      obtain ⟨g, hg, rfl⟩ := List.mem_map.1 hmem
      rw [List.mem_singleton.1 hmem']
      exact hnew g hg
  | destroyGroup h =>
    cases hr
    cases hf : r.find? h with
    | none =>
      rw [Registry.destroyGroup, hf]
      exact hk
    | some g =>
      rw [destroyGroup_some hf]
      split
      · rw [put_none]
        exact hk.sublist (List.filter_sublist.map _)
      · exact hk
  | change h c =>
    rcases hv.change_inv hr with ⟨-, rfl⟩ | ⟨g, inner, hf, -, hm, rfl⟩
    · exact hk
    · have hsame : (r.replace h.index inner.state).groups.map Group.key =
          r.groups.map Group.key := by
        simp only [Registry.replace, List.map_map]
        refine List.map_congr_left fun old hold => ?_
        rw [Function.comp_apply]
        split
        · next ho =>
          obtain ⟨hmem, hindex⟩ := find?_eq_some hf
          rw [hm.key_eq, List.inj_on_of_nodup_map hv.indices hmem hold (hindex.trans ho.symm)]
        · rfl
      rwa [hsame]
  | ask q => rwa [step_ask hr]

theorem Valid.run_keys (hv : r.Valid) (hk : (r.groups.map Group.key).Nodup)
    (hr : r.run calls = .ok (r', results)) : (r'.groups.map Group.key).Nodup := by
  induction calls generalizing r results with
  | nil =>
    cases hr
    exact hk
  | cons c cs ih =>
    obtain ⟨reply, later, rfl, hstep, hv', -, hlater⟩ := hv.run_cons hr
    exact ih hv' (hv.step_keys hk hstep) hlater

theorem findGroup_eq_none {key : GroupKey} :
    r.findGroup key = none ↔ ∀ g ∈ r.groups, g.key ≠ key := by
  simp [findGroup]

/-- With keys of their own, groups are found by them. -/
theorem findGroup_eq_some (hk : (r.groups.map Group.key).Nodup) {key : GroupKey} :
    r.findGroup key = some h ↔ h.key = key ∧ ∃ g ∈ r.groups, g.key = key ∧ g.index = h.index := by
  unfold findGroup
  rw [Option.map_eq_some_iff]
  constructor
  · rintro ⟨g, hg, rfl⟩
    exact ⟨rfl, g, List.mem_of_find?_eq_some hg, by simpa using List.find?_some hg, rfl⟩
  · rintro ⟨rfl, g, hg, hkey, hindex⟩
    cases hf : r.groups.find? fun g => g.key == h.key with
    | none =>
      have hnone := List.find?_eq_none.1 hf g hg
      simp [hkey] at hnone
    | some first =>
      have hfirst : first.key = h.key := by simpa using List.find?_some hf
      have hsame : first = g :=
        List.inj_on_of_nodup_map hk (List.mem_of_find?_eq_some hf) hg (hfirst.trans hkey.symm)
      exact ⟨first, rfl, by rw [hsame, hindex]⟩

/-! ## Indices -/

theorem Valid.created_increasing (hv : r.Valid) (hr : r.run calls = .ok (r', results)) :
    (created (calls.zip results)).Pairwise (fun first later => first.index < later.index) ∧
      ∀ h ∈ created (calls.zip results), r.next ≤ h.index := by
  induction calls generalizing r results with
  | nil => exact ⟨.nil, nofun⟩
  | cons c cs ih =>
    obtain ⟨reply, later, rfl, hstep, hv', -, hlater⟩ := hv.run_cons hr
    obtain ⟨hincreasing, hbound⟩ := ih hv' hlater
    have hnext := hv.step_next hstep
    have hbound' : ∀ h ∈ created (cs.zip later), r.next ≤ h.index := fun h hmem => by
      have := hbound h hmem
      omega
    cases c with
    | createGroup key base total =>
      rcases step_createGroup hstep with ⟨-, error, herror⟩ | ⟨-, hresult, hs⟩
      · rw [herror]
        exact ⟨hincreasing, hbound'⟩
      · rw [hresult]
        rw [hs] at hbound
        exact ⟨.cons (fun h hmem => hbound h hmem) hincreasing,
          List.forall_mem_cons.2 ⟨Nat.le_refl _, hbound'⟩⟩
    | _ => exact ⟨hincreasing, hbound'⟩

/-! ## Groups by their handles -/

theorem destroys_other (hne : h'.index ≠ h.index) (result : Except ResourceError Answer) :
    destroys h (.destroyGroup h', result) = false := by
  cases result with
  | ok _ => exact beq_false_of_ne hne
  | error _ => rfl

/-- The group of a handle after one call: destroyed, or with the changes that the call made. -/
theorem Valid.step_find? (hv : r.Valid) (hf : r.find? h = some g) (hr : r.step c = .ok reply) :
    if destroys h (c, reply.result) then reply.state.find? h = none
    else ∃ g', reply.state.find? h = some g' ∧ g'.key = g.key ∧
      g.run r.policy (changesOf h [(c, reply.result)]) = .ok g' := by
  have hother : ∀ h' : GroupHandle, c.handle? = some h' → h'.index ≠ h.index →
      reply.state.find? h = some g :=
    fun h' hc hne => (hv.step_other hc hr hne.symm).trans hf
  cases c with
  | createGroup key base total =>
    refine ⟨g, ?_, rfl, rfl⟩
    rcases step_createGroup hr with ⟨hs, -⟩ | ⟨-, -, hs⟩
    · rw [hs, hf]
    · rw [hs]
      unfold Registry.find? at hf ⊢
      rw [List.find?_append, hf]
      rfl
  | destroyGroup h' =>
    cases hr
    by_cases hi : h'.index = h.index
    · have hf' : r.find? h' = some g := (find?_congr hi).trans hf
      rw [destroyGroup_some hf']
      by_cases hempty : g.functions.isEmpty
      · have hdestroys : destroys h (.destroyGroup h', .ok .done) = true := beq_iff_eq.2 hi
        have hnone : (r.put h'.index none).find? h = none :=
          (find?_congr hi.symm).trans (find?_put_none r h')
        rw [if_pos hempty]
        exact (if_pos hdestroys).mpr hnone
      · rw [if_neg hempty]
        exact ⟨g, hf, rfl, rfl⟩
    · have hkept := hother h' rfl hi
      rw [destroys_other hi]
      exact ⟨g, hkept, rfl, rfl⟩
  | change h' c =>
    by_cases hi : h'.index = h.index
    · have hf' : r.find? h' = some g := (find?_congr hi).trans hf
      rcases hv.change_inv hr with ⟨hnone, -⟩ | ⟨g₀, inner, hsome, ha, hm, rfl⟩
      · cases hf'.symm.trans hnone
      · cases hf'.symm.trans hsome
        refine ⟨inner.state, ?_, hm.key_eq, ?_⟩
        · rw [find?_congr hi.symm]
          exact replace_find? hf' hm.index_eq
        · have hchanges : changesOf h [(.change h' c, inner.result)] = [c] := by
            simp [changesOf, hi]
          rw [hchanges, Group.run, ha]
          rfl
    · have hchanges : changesOf h [(.change h' c, reply.result)] = [] := by
        simp [changesOf, hi]
      rw [hchanges]
      exact ⟨g, hother h' rfl hi, rfl, rfl⟩
  | ask q =>
    refine ⟨g, ?_, rfl, rfl⟩
    rw [step_ask hr, hf]

/-- An index that was given and has no group is not given again. -/
theorem Valid.step_gone (hv : r.Valid) (hf : r.find? h = none) (hlt : h.index < r.next)
    (hr : r.step c = .ok reply) :
    reply.state.find? h = none ∧ h.index < reply.state.next := by
  have hnext := hv.step_next hr
  refine ⟨?_, by omega⟩
  cases hc : c.handle? with
  | some h' =>
    by_cases hi : h.index = h'.index
    · rw [step_missing hc ((find?_congr hi.symm).trans hf)] at hr
      cases hr
      exact hf
    · rw [hv.step_other hc hr hi, hf]
  | none =>
    cases c with
    | createGroup key base total =>
      rcases step_createGroup hr with ⟨hs, -⟩ | ⟨-, -, hs⟩
      · rw [hs, hf]
      · have hne : (r.next == h.index) = false := beq_false_of_ne (Nat.ne_of_gt hlt)
        rw [hs]
        unfold Registry.find? at hf ⊢
        rw [List.find?_append, hf]
        simp [newGroup, hne]
    | destroyGroup h' => cases hc
    | change h' c => cases hc
    | ask q => rw [step_ask hr, hf]

theorem Valid.run_gone (hv : r.Valid) (hf : r.find? h = none) (hlt : h.index < r.next)
    (hr : r.run calls = .ok (r', results)) : r'.find? h = none := by
  induction calls generalizing r results with
  | nil =>
    cases hr
    exact hf
  | cons c cs ih =>
    obtain ⟨reply, later, rfl, hstep, hv', -, hlater⟩ := hv.run_cons hr
    obtain ⟨hf', hlt'⟩ := hv.step_gone hf hlt hstep
    exact ih hv' hf' hlt' hlater

theorem run_changes_append (g : Group) (policy : RequestPolicy) (first second : List Group.Call) :
    g.run policy (first ++ second) = g.run policy first >>= fun g' => g'.run policy second := by
  induction first generalizing g with
  | nil => rfl
  | cons c cs ih =>
    rw [List.cons_append, Group.run, Group.run]
    cases g.apply policy c with
    | error fault => rfl
    | ok reply => exact ih reply.state

theorem Valid.run_find? (hv : r.Valid) (hf : r.find? h = some g)
    (hr : r.run calls = .ok (r', results)) :
    if (calls.zip results).any (destroys h) then r'.find? h = none
    else ∃ g', r'.find? h = some g' ∧ g'.key = g.key ∧
      g.run r.policy (changesOf h (calls.zip results)) = .ok g' := by
  induction calls generalizing r g results with
  | nil =>
    cases hr
    exact ⟨g, hf, rfl, rfl⟩
  | cons c cs ih =>
    obtain ⟨reply, later, rfl, hstep, hv', hp', hlater⟩ := hv.run_cons hr
    have hone := hv.step_find? hf hstep
    rw [List.zip_cons_cons, List.any_cons]
    cases hdestroys : destroys h (c, reply.result) with
    | true =>
      -- from here on the index has no group
      rw [hdestroys] at hone
      obtain ⟨hmem, hindex⟩ := find?_eq_some hf
      have hnext := hv.step_next hstep
      have hlt := hv.next g hmem
      exact hv'.run_gone hone (by omega) hlater
    | false =>
      rw [hdestroys] at hone
      obtain ⟨g₁, hf₁, hkey₁, hrun₁⟩ := hone
      have hchanges : changesOf h ((c, reply.result) :: cs.zip later) =
          changesOf h [(c, reply.result)] ++ changesOf h (cs.zip later) :=
        List.filterMap_append (l := [_])
      rw [Bool.false_or, hchanges, run_changes_append, hrun₁, Checked.ok_bind, ← hkey₁, ← hp']
      exact ih hv' hf₁ hlater

/-- The rest of a history goes on from a registry in which the new handle finds its group. -/
theorem Valid.run_created (hv : r.Valid) (hr : r.run calls = .ok (r', results))
    {earlier later : History} {key : GroupKey} {base total : Nat}
    (hs : calls.zip results = earlier ++ (.createGroup key base total, .ok (.handle h)) :: later) :
    ∃ (start : Group) (r₁ : Registry) (calls₁ : List Call)
      (results₁ : List (Except ResourceError Answer)), Group.create key h.index base total = .ok (.ok start) ∧
      h.key = key ∧ start.key = key ∧ r₁.Valid ∧ r₁.policy = r.policy ∧
      r₁.find? h = some start ∧ r₁.run calls₁ = .ok (r', results₁) ∧
      calls₁.zip results₁ = later := by
  -- the induction walks up to the call that created the group, through `earlier`
  induction calls generalizing r results earlier with
  | nil => cases earlier <;> cases hs
  | cons c cs ih =>
    obtain ⟨reply, results', rfl, hstep, hv', hp', hlater⟩ := hv.run_cons hr
    rw [List.zip_cons_cons] at hs
    cases earlier with
    | nil =>
      obtain ⟨hfirst, hzip⟩ := List.cons.inj hs
      obtain ⟨rfl, hresult⟩ := Prod.mk.inj hfirst
      rcases step_createGroup hstep with ⟨-, error, herror⟩ | ⟨⟨-, hpos, hlim⟩, hhandle, -⟩
      · cases herror.symm.trans hresult
      · cases hhandle.symm.trans hresult
        obtain ⟨⟨state, outcome, notices⟩, hop, rfl⟩ := Checked.map_eq_ok hstep
        cases outcome with
        | error error => cases hresult
        | ok h =>
          cases hresult
          exact ⟨_, state, cs, results', Group.Valid.create_eq hpos hlim, rfl, rfl, hv', hp',
            (hv.find?_created hop).2.2, hlater, hzip⟩
    | cons p earlier =>
      obtain ⟨-, hzip⟩ := List.cons.inj hs
      obtain ⟨start, r₁, calls₁, results₁, hcreate, hkey, hstart, hv₁, hp₁, hf₁, hrun₁, hzip₁⟩ :=
        ih hv' hlater hzip
      exact ⟨start, r₁, calls₁, results₁, hcreate, hkey, hstart, hv₁, hp₁.trans hp', hf₁, hrun₁,
        hzip₁⟩

/-- Handles keep their meaning through every run of a new registry. -/
theorem run_handles {policy : RequestPolicy} (hr : (fresh policy).run calls = .ok (r, results)) :
    Handles policy (calls.zip results) r := by
  have hfresh := valid_fresh policy
  obtain ⟨hv, -⟩ := valid_of_run hr
  have hkeys : (r.groups.map Group.key).Nodup := hfresh.run_keys .nil hr
  exact {
    increasing := (hfresh.created_increasing hr).1
    keys := hkeys
    indices := hv.indices
    live := fun earlier key base total h later hs hkept => by
      obtain ⟨start, r₁, calls₁, results₁, hcreate, hkey, hstart, hv₁, hp₁, hf₁, hrun₁, rfl⟩ :=
        hfresh.run_created hr hs
      have hfind := hv₁.run_find? hf₁ hrun₁
      rw [hkept, hp₁] at hfind
      obtain ⟨g, hf, hgkey, hrun⟩ := hfind
      obtain ⟨hmem, hindex⟩ := find?_eq_some hf
      exact ⟨start, g, hcreate, hrun, hf,
        (findGroup_eq_some hkeys).2 ⟨hkey, g, hmem, hgkey.trans hstart, hindex⟩⟩
    gone := fun earlier key base total h later hs hdestroyed => by
      obtain ⟨start, r₁, calls₁, results₁, -, -, -, hv₁, -, hf₁, hrun₁, rfl⟩ :=
        hfresh.run_created hr hs
      have hfind := hv₁.run_find? hf₁ hrun₁
      rw [hdestroyed] at hfind
      exact ⟨hfind, fun c hc => step_missing hc hfind⟩
    found := fun key h => findGroup_eq_some hkeys
    unknown := fun key => findGroup_eq_none
    frame := fun c h reply hc hstep h' hne => hv.step_other hc hstep hne
    commute := fun a b h h' ha hb hne => hv.run_swap ha hb hne }

/-- A key is used again after its group is destroyed, beside a group that stays. -/
def reuse : History :=
  [(.createGroup ⟨1, 2⟩ 0 8, .ok (.handle ⟨⟨1, 2⟩, 0⟩)),
    (.createGroup ⟨3, 4⟩ 8 8, .ok (.handle ⟨⟨3, 4⟩, 1⟩)),
    (.change ⟨⟨3, 4⟩, 1⟩ (.createFunction 5), .ok .done),
    (.destroyGroup ⟨⟨1, 2⟩, 0⟩, .ok .done),
    (.createGroup ⟨1, 2⟩ 0 8, .ok (.handle ⟨⟨1, 2⟩, 2⟩)),
    (.change ⟨⟨1, 2⟩, 2⟩ (.createFunction 6), .ok .done)]

/-- The new handle finds a group, and the old one does not. -/
theorem reused_key_handles :
    ∃ r, (fresh .transactional).run (reuse.map Prod.fst) = .ok (r, reuse.map Prod.snd) ∧
      r.findGroup ⟨1, 2⟩ = some ⟨⟨1, 2⟩, 2⟩ ∧ r.findGroup ⟨3, 4⟩ = some ⟨⟨3, 4⟩, 1⟩ ∧
      r.step (.change ⟨⟨1, 2⟩, 0⟩ (.createFunction 7)) = .ok ⟨r, .error .notFound, []⟩ := by
  have hr : (fresh .transactional).run (reuse.map Prod.fst) =
      .ok (_, reuse.map Prod.snd) := rfl
  have handles := run_handles hr
  obtain ⟨-, -, -, -, -, hreused⟩ :=
    handles.live (reuse.take 4) ⟨1, 2⟩ 0 8 ⟨⟨1, 2⟩, 2⟩ (reuse.drop 5) rfl rfl
  obtain ⟨-, -, -, -, -, hstays⟩ :=
    handles.live (reuse.take 1) ⟨3, 4⟩ 8 8 ⟨⟨3, 4⟩, 1⟩ (reuse.drop 2) rfl rfl
  obtain ⟨-, hgone⟩ := handles.gone [] ⟨1, 2⟩ 0 8 ⟨⟨1, 2⟩, 0⟩ (reuse.drop 1) rfl rfl
  exact ⟨_, hr, hreused, hstays, hgone (.change ⟨⟨1, 2⟩, 0⟩ (.createFunction 7)) rfl⟩

/-- The question for a queue id has no error to answer. -/
theorem destroyed_group_contains_nothing :
    ∃ r reply, (fresh .transactional).run
        [.createGroup ⟨1, 2⟩ 0 8, .destroyGroup ⟨⟨1, 2⟩, 0⟩] =
          .ok (r, [.ok (.handle ⟨⟨1, 2⟩, 0⟩), .ok .done]) ∧
      r.step (.ask (.contains ⟨⟨1, 2⟩, 0⟩ 0 0)) = .ok reply ∧
      reply.result = .ok (.verdict false) ∧ reply.result ≠ .error .notFound :=
  ⟨_, _, rfl, rfl, rfl, nofun⟩

end DmaQueues.Registry
