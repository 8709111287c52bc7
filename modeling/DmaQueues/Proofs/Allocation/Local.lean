import DmaQueues.Proofs.Allocation.Overflow

/-!
# Calls through a handle

A call through a handle reads and changes the group of the handle and nothing else: it does to
a registry what it does to a registry with this group only, put back in its place
(`Valid.step_local`). So the groups of other handles are left as they are, and calls through
handles of different groups can be made in either order (`Valid.run_swap`).
-/

namespace DmaQueues.Registry

/-- The handle that a question goes through. -/
def Question.handle? : Question → Option GroupHandle
  | findGroup _ => none
  | groupInfo h => some h
  | freeRanges h => some h
  | checkInvariants h => some h
  | range h _ => some h
  | contains h _ _ => some h
  | activeCount h => some h
  | functionActive h _ => some h
  | activeQueues h _ _ => some h

/-- The handle that a call goes through. -/
def Call.handle? : Call → Option GroupHandle
  | createGroup .. => none
  | destroyGroup h => some h
  | change h _ => some h
  | ask q => q.handle?

/-- The answer to a call through a handle without a group. Whether a function holds a queue id can
always be said: it does not. -/
def Call.missing : Call → Except ResourceError Answer
  | ask (.contains ..) => .ok (.verdict false)
  | _ => .error .notFound

/-- `r` with another group in the place of an index, or with none. -/
def put (r : Registry) (index : Nat) (g? : Option Group) : Registry :=
  { r with groups := r.groups.filterMap fun old => if old.index = index then g? else some old }

/-- `r` with the group of a handle only. -/
def only (r : Registry) (h : GroupHandle) : Registry :=
  { r with groups := (r.find? h).toList }

variable {r r' : Registry} {h h' : GroupHandle} {g g' : Group} {g? g'? : Option Group}

/-! ## Groups in their places -/

theorem put_some (r : Registry) (index : Nat) (g : Group) :
    r.put index (some g) = r.replace index g := by
  unfold put replace
  rw [← List.filterMap_eq_map]
  refine congrArg (fun f => { r with groups := r.groups.filterMap f }) (funext fun old => ?_)
  by_cases ho : old.index = index <;> simp [ho]

theorem put_none (r : Registry) (index : Nat) :
    r.put index none = { r with groups := r.groups.filter fun old => old.index != index } := by
  unfold put
  rw [← List.filterMap_eq_filter]
  refine congrArg (fun f => { r with groups := r.groups.filterMap f }) (funext fun old => ?_)
  by_cases ho : old.index = index <;> simp [ho, Option.guard]

theorem index_ne_of_find? (hf : r.find? h = none) : ∀ old ∈ r.groups, old.index ≠ h.index := by
  simpa [Registry.find?] using hf

/-- Where there is no group nothing is replaced. -/
theorem put_absent (hf : r.find? h = none) (g? : Option Group) : r.put h.index g? = r := by
  have hsame : r.groups.filterMap (fun old => if old.index = h.index then g? else some old) =
      r.groups := by
    rw [List.filterMap_congr fun old hold => if_neg (index_ne_of_find? hf old hold)]
    exact List.filterMap_some
  unfold put
  rw [hsame]

theorem Valid.put_find? (hv : r.Valid) (h : GroupHandle) : r.put h.index (r.find? h) = r := by
  cases hf : r.find? h with
  | none => exact put_absent hf none
  | some g =>
    rw [put_some]
    exact replace_self hv hf

theorem find?_put (hi : ∀ g ∈ g?, g.index = h.index) (h' : GroupHandle) :
    (r.put h.index g?).find? h' =
      if h'.index = h.index then (r.find? h).bind fun _ => g? else r.find? h' := by
  cases g? with
  | some g =>
    rw [put_some, find?_replace (hi g rfl), Option.map_eq_bind]
    rfl
  | none =>
    rw [put_none]
    unfold Registry.find?
    rw [List.find?_filter]
    by_cases hh : h'.index = h.index
    · rw [if_pos hh, Option.bind_fun_none, List.find?_eq_none]
      intro old _
      simp [hh]
    · rw [if_neg hh]
      refine congrArg (List.find? · r.groups) (funext fun old => ?_)
      by_cases ho : old.index = h'.index <;> simp [ho, hh]

theorem find?_put_none (r : Registry) (h : GroupHandle) :
    (r.put h.index none).find? h = none := by
  rw [find?_put (by simp), if_pos rfl, Option.bind_fun_none]

theorem find?_put_other (hi : ∀ g ∈ g?, g.index = h.index) (hne : h'.index ≠ h.index) :
    (r.put h.index g?).find? h' = r.find? h' := by
  rw [find?_put hi, if_neg hne]

/-- Different places are changed in either order. -/
theorem put_comm (hi : ∀ g ∈ g?, g.index = h.index) (hi' : ∀ g ∈ g'?, g.index = h'.index)
    (hne : h.index ≠ h'.index) :
    (r.put h.index g?).put h'.index g'? = (r.put h'.index g'?).put h.index g? := by
  unfold put
  simp only [List.filterMap_filterMap]
  refine congrArg (fun f => { r with groups := r.groups.filterMap f }) (funext fun old => ?_)
  by_cases ho : old.index = h.index
  · have ho' : old.index ≠ h'.index := fun heq => hne (ho.symm.trans heq)
    rw [if_pos ho, if_neg ho', Option.bind_some, if_pos ho]
    cases g? with
    | none => rfl
    | some g =>
      refine if_neg fun heq => hne ((hi g rfl).symm.trans heq)
  · rw [if_neg ho, Option.bind_some]
    by_cases ho' : old.index = h'.index
    · rw [if_pos ho']
      cases g'? with
      | none => rfl
      | some g => exact (if_neg fun heq => hne (heq.symm.trans (hi' g rfl))).symm
    · rw [if_neg ho', Option.bind_some, if_neg ho]

theorem find?_only (r : Registry) (h : GroupHandle) : (r.only h).find? h = r.find? h := by
  cases hf : r.find? h with
  | none =>
    unfold only
    rw [hf]
    rfl
  | some g =>
    unfold only
    rw [hf]
    simp [Registry.find?, (find?_eq_some hf).2]

theorem Valid.only (hv : r.Valid) (h : GroupHandle) : (r.only h).Valid := by
  have hmem : ∀ g ∈ (r.find? h).toList, g ∈ r.groups := fun g hg =>
    (find?_eq_some (Option.mem_toList.1 hg)).1
  refine ⟨fun g hg => hv.groups g (hmem g hg), ?_, fun g hg => hv.next g (hmem g hg)⟩
  unfold Registry.only
  cases r.find? h with
  | none => exact .nil
  | some g => exact List.nodup_singleton _

theorem only_put_other (hi : ∀ g ∈ g?, g.index = h.index) (hne : h'.index ≠ h.index) :
    (r.put h.index g?).only h' = r.only h' := by
  unfold only
  rw [find?_put_other hi hne]
  rfl

/-! ## One call -/

/-- Questions look at the group of their handle. -/
theorem answer_congr {q : Question} (hq : q.handle? = some h) (hf : r.find? h = r'.find? h) :
    r.answer q = r'.answer q := by
  cases q <;> cases hq <;>
    simp only [answer, groupInfo, freeRanges, checkInvariants, Registry.range, Registry.contains,
      activeCount, functionActive, activeQueues, askFunction, Registry.ask, hf]

theorem step_missing {c : Call} (hc : c.handle? = some h) (hf : r.find? h = none) :
    r.step c = .ok ⟨r, c.missing, []⟩ := by
  cases c with
  | createGroup key base total => cases hc
  | destroyGroup h =>
    cases hc
    rw [step, destroyGroup, hf]
    rfl
  | change h c =>
    cases hc
    rw [step, change_eq, update_none hf]
    rfl
  | ask q =>
    cases q <;> cases hc <;>
      simp only [step, answer, groupInfo, freeRanges, checkInvariants, Registry.range,
        Registry.contains, activeCount, functionActive, activeQueues, askFunction, Registry.ask,
        hf] <;> rfl

theorem destroyGroup_some (hf : r.find? h = some g) :
    r.destroyGroup h = if g.functions.isEmpty then
      ⟨r.put h.index none, .ok (), [.groupDestroyed h.index]⟩ else r.refuse .notEmpty := by
  rw [put_none, destroyGroup, hf]
  by_cases hempty : g.functions.isEmpty <;> simp only [hempty] <;> rfl

/-- What a call does to the group of its handle alone is put in its place. -/
theorem Valid.step_local (hv : r.Valid) {c : Call} (hc : c.handle? = some h) :
    r.step c = (r.only h).step c >>= fun reply =>
      return ⟨r.put h.index (reply.state.find? h), reply.result, reply.notices⟩ := by
  cases hf : r.find? h with
  | none =>
    have hf' : (r.only h).find? h = none := (find?_only r h).trans hf
    rw [step_missing hc hf, step_missing hc hf', Checked.ok_bind]
    simp only [hf', put_absent hf]
    rfl
  | some g =>
    have hf' : (r.only h).find? h = some g := (find?_only r h).trans hf
    have hback : r.put h.index ((r.only h).find? h) = r := by
      rw [find?_only]
      exact hv.put_find? h
    cases c with
    | createGroup key base total => cases hc
    | destroyGroup h =>
      cases hc
      rw [step, step, destroyGroup_some hf, destroyGroup_some hf']
      by_cases hempty : g.functions.isEmpty
      · rw [if_pos hempty, if_pos hempty]
        show Except.ok _ =
          Except.ok (⟨r.put h.index (((r.only h).put h.index none).find? h), _, _⟩ : Reply _ _ _)
        rw [find?_put_none]
        rfl
      · rw [if_neg hempty, if_neg hempty]
        show _ = Except.ok (⟨r.put h.index ((r.only h).find? h), _, _⟩ : Reply _ _ _)
        rw [hback]
        rfl
    | change h c =>
      cases hc
      have hg := hv.find? hf
      rw [step, step, change_eq, change_eq]
      rcases Group.apply_spec hg r.policy c with ha | ⟨inner, ha, hm⟩
      · rw [update_fault hf ha, update_fault hf' ha]
        rfl
      · have hg' := hm.valid hg
        rw [update_some hf ha hg', update_some hf' ha hg', Checked.ok_bind]
        simp only [replace_find? hf' hm.index_eq, put_some]
        rfl
    | ask q =>
      rw [step, step, answer_congr hc (hf.trans hf'.symm)]
      cases (r.only h).answer q with
      | error fault => rfl
      | ok result =>
        show _ = Except.ok (⟨r.put h.index ((r.only h).find? h), _, _⟩ : Reply _ _ _)
        rw [hback]
        rfl

theorem find?_index (r : Registry) (h : GroupHandle) : ∀ g ∈ r.find? h, g.index = h.index :=
  fun _ hg => (find?_eq_some hg).2

/-- Other groups are left as they are. -/
theorem Valid.step_other (hv : r.Valid) {c : Call} (hc : c.handle? = some h)
    {reply : Reply Registry ResourceError Answer} (hr : r.step c = .ok reply)
    (hne : h'.index ≠ h.index) : reply.state.find? h' = r.find? h' := by
  rw [hv.step_local hc] at hr
  obtain ⟨inner, -, hreply⟩ := Checked.bind_eq_ok hr
  cases hreply
  exact find?_put_other (find?_index inner.state h) hne

/-! ## Two calls -/

theorem Valid.run_pair (hv : r.Valid) {a b : Call} (ha : a.handle? = some h)
    (hb : b.handle? = some h') (hne : h.index ≠ h'.index) :
    r.run [a, b] = (r.only h).step a >>= fun first => (r.only h').step b >>= fun second =>
      return ((r.put h.index (first.state.find? h)).put h'.index (second.state.find? h'),
        [first.result, second.result]) := by
  have hstep := hv.step_local ha
  rw [run]
  cases hfirst : (r.only h).step a with
  | error fault =>
    rw [hstep, hfirst]
    rfl
  | ok first =>
    rw [hfirst, Checked.ok_bind] at hstep
    have hv' := (Checked.of_fault_or_exists (hv.step_spec a) hstep).1
    -- the second call finds its group as it was before the first
    have honly := only_put_other (find?_index first.state h) hne.symm (r := r)
    rw [hstep, Checked.pure_eq, Checked.ok_bind, Checked.ok_bind, run, hv'.step_local hb, honly]
    cases (r.only h').step b with
    | error fault => rfl
    | ok second => rfl

/-- Calls through handles of different groups have the same answers and come to the same registry in
either order, or to the same fault. -/
theorem Valid.run_swap (hv : r.Valid) {a b : Call} (ha : a.handle? = some h)
    (hb : b.handle? = some h') (hne : h.index ≠ h'.index) :
    (fun p => (p.1, p.2.reverse)) <$> r.run [a, b] = r.run [b, a] := by
  rw [hv.run_pair ha hb hne, hv.run_pair hb ha hne.symm]
  cases hfirst : (r.only h).step a with
  | error fault =>
    cases hsecond : (r.only h').step b with
    | error fault' =>
      -- the first of the two faults differs, but there is only one kind of fault
      obtain ⟨rfl, -⟩ := (hv.only h).step_fault_iff.1 hfirst
      obtain ⟨rfl, -⟩ := (hv.only h').step_fault_iff.1 hsecond
      rfl
    | ok second => rfl
  | ok first =>
    cases (r.only h').step b with
    | error fault => rfl
    | ok second =>
      simp only [Checked.ok_bind, Checked.pure_eq, Checked.map_ok, List.reverse_cons,
        List.reverse_nil, List.nil_append, List.singleton_append]
      rw [put_comm (find?_index first.state h) (find?_index second.state h') hne]

end DmaQueues.Registry
