import DmaQueues.Proofs.Allocation.Call

/-!
# Histories of a registry

`Registry.Call` is a call of the registry as data: a change of the list of groups or of one
of them, or a question. `step` makes a call, and `run` one after the other, collecting the
results. `Valid` holds of a new registry and is kept by every call, so the check after a
change always succeeds: a run ends in a fault only where an addition overflows.
-/

namespace DmaQueues.Registry

inductive Question where
  | findGroup (key : GroupKey)
  | groupInfo (h : GroupHandle)
  | freeRanges (h : GroupHandle)
  | checkInvariants (h : GroupHandle)
  | range (h : GroupHandle) (id : UInt16)
  | contains (h : GroupHandle) (id : UInt16) (qid : Nat)
  | activeCount (h : GroupHandle)
  | functionActive (h : GroupHandle) (id : UInt16)
  | activeQueues (h : GroupHandle) (id : UInt16) (type : QueueType)
  deriving DecidableEq, Repr

inductive Call where
  | createGroup (key : GroupKey) (base total : Nat)
  | destroyGroup (h : GroupHandle)
  | change (h : GroupHandle) (c : Group.Call)
  | ask (q : Question)
  deriving DecidableEq, Repr

/-- A registry without groups. -/
def fresh (policy : RequestPolicy) : Registry :=
  { policy }

def answer (r : Registry) : Question → Checked (Except ResourceError Answer)
  | .findGroup key => return .ok (.group (r.findGroup key))
  | .groupInfo h => Except.map .info <$> r.groupInfo h
  | .freeRanges h => Except.map .ranges <$> r.freeRanges h
  | .checkInvariants h => Except.map .verdict <$> r.checkInvariants h
  | .range h id => return (r.range h id).map .range
  | .contains h id qid => (fun b => .ok (.verdict b)) <$> r.contains h id qid
  | .activeCount h => Except.map .count <$> r.activeCount h
  | .functionActive h id => Except.map .count <$> r.functionActive h id
  | .activeQueues h id type => Except.map .count <$> r.activeQueues h id type

def change (r : Registry) (h : GroupHandle) :
    Group.Call → Checked (Reply Registry ResourceError Answer)
  | .createFunction id => Reply.map (fun _ => .done) <$> r.createFunction h id
  | .destroyFunction id => Reply.map (fun _ => .done) <$> r.destroyFunction h id
  | .requestRange id count hint => Reply.map .base <$> r.requestRange h id count hint
  | .updateFunction id count hint => Reply.map .range <$> r.updateFunction h id count hint
  | .incrementActive id type => Reply.map (fun _ => .done) <$> r.incrementActive h id type
  | .decrementActive id type => Reply.map (fun _ => .done) <$> r.decrementActive h id type

def step (r : Registry) : Call → Checked (Reply Registry ResourceError Answer)
  | .createGroup key base total => Reply.map .handle <$> r.createGroup key base total
  | .destroyGroup h => return (r.destroyGroup h).map fun _ => .done
  | .change h c => r.change h c
  | .ask q => do return ⟨r, ← r.answer q, []⟩

/-- The registry after some calls, and their results. -/
def run (r : Registry) : List Call → Checked (Registry × List (Except ResourceError Answer))
  | [] => return (r, [])
  | c :: cs => do
    let reply ← r.step c
    let (r, results) ← reply.state.run cs
    return (r, reply.result :: results)

/-! ## Groups by their handles -/

structure Valid (r : Registry) : Prop where
  groups : ∀ g ∈ r.groups, g.Valid
  indices : (r.groups.map Group.index).Nodup
  next : ∀ g ∈ r.groups, g.index < r.next

variable {α β : Type} {r : Registry} {h : GroupHandle} {g g' : Group}

theorem valid_fresh (policy : RequestPolicy) : (fresh policy).Valid :=
  ⟨by simp [fresh], .nil, by simp [fresh]⟩

theorem find?_eq_some (hf : r.find? h = some g) : g ∈ r.groups ∧ g.index = h.index :=
  ⟨List.mem_of_find?_eq_some hf, by simpa using List.find?_some hf⟩

theorem Valid.find? (hv : r.Valid) (hf : r.find? h = some g) : g.Valid :=
  hv.groups g (find?_eq_some hf).1

theorem find?_replace (hi : g'.index = h.index) (other : GroupHandle) :
    (r.replace h.index g').find? other =
      if other.index = h.index then (r.find? h).map fun _ => g' else r.find? other := by
  unfold Registry.find? replace
  induction r.groups with
  | nil => simp
  | cons old rest ih =>
    simp only [List.map_cons, List.find?_cons, ih]
    by_cases ho : old.index = h.index
    · by_cases hother : other.index = h.index
      · simp [ho, hi, hother]
      · have hne : (h.index == other.index) = false := beq_false_of_ne (Ne.symm hother)
        simp [ho, hi, hother, hne]
    · have hne : (old.index == h.index) = false := beq_false_of_ne ho
      by_cases hother : other.index = h.index
      · simp [ho, hother, hne]
      · simp [ho, hother]

theorem replace_find? (hf : r.find? h = some g) {g' : Group} (hi : g'.index = g.index) :
    (r.replace h.index g').find? h = some g' := by
  obtain ⟨-, hindex⟩ := find?_eq_some hf
  rw [find?_replace (hi.trans hindex), if_pos rfl, hf]
  rfl

theorem Valid.replace (hv : r.Valid) (hf : r.find? h = some g) (hg : g'.Valid)
    (hi : g'.index = g.index) : (r.replace h.index g').Valid := by
  obtain ⟨-, hindex⟩ := find?_eq_some hf
  refine ⟨fun x hx => ?_, ?_, fun x hx => ?_⟩
  · obtain ⟨old, hold, rfl⟩ := List.mem_map.1 hx
    split
    · exact hg
    · exact hv.groups old hold
  · have : (r.replace h.index g').groups.map Group.index = r.groups.map Group.index := by
      simp only [Registry.replace, List.map_map]
      refine List.map_congr_left fun old _ => ?_
      simp only [Function.comp_apply]
      split
      · next he => rw [hi, hindex, he]
      · rfl
    exact this ▸ hv.indices
  · obtain ⟨old, hold, rfl⟩ := List.mem_map.1 hx
    have := hv.next old hold
    simp only [Registry.replace] at this ⊢
    split
    · next he => rw [hi, hindex, ← he]; exact this
    · exact this

/-! ## Changes of a group -/

section

variable {change : Group → Checked (Reply Group ResourceError α)} {reply : Reply Group ResourceError α}

theorem update_none (hf : r.find? h = none) : r.update h change = .ok (r.refuse .notFound) := by
  unfold update
  rw [hf]
  rfl

theorem update_fault {fault : Fault} (hf : r.find? h = some g) (hc : change g = .error fault) :
    r.update h change = .error fault := by
  unfold update
  simp only [hf, hc]
  rfl

/-- The check after a change that keeps the group valid succeeds. -/
theorem update_some (hf : r.find? h = some g) (hc : change g = .ok reply)
    (hv : reply.state.Valid) :
    r.update h change = .ok ⟨r.replace h.index reply.state, reply.result, reply.notices⟩ := by
  unfold update
  simp only [hf, hc, Checked.ok_bind, hv.checkInvariants]
  rfl

theorem update_map (f : α → β) :
    (r.update h fun g => Reply.map f <$> change g) = Reply.map f <$> r.update h change := by
  unfold update
  cases r.find? h with
  | none => rfl
  | some g =>
    cases hc : change g with
    | error fault => simp only [hc, Checked.map_error, Checked.error_bind]
    | ok reply =>
      simp only [hc, Checked.map_ok, Checked.ok_bind, Reply.map]
      cases hi : reply.state.checkInvariants with
      | error fault => rfl
      | ok holds => cases holds <;> rfl

end

/-- A change through the registry is the change of the group. -/
theorem change_eq (r : Registry) (h : GroupHandle) (c : Group.Call) :
    r.change h c = r.update h fun g => g.apply r.policy c := by
  cases c with
  | createFunction id => exact (update_map _).symm
  | destroyFunction id => exact (update_map _).symm
  | requestRange id count hint =>
    refine Eq.trans ?_ (update_map fun range : Option QueueRange =>
      Answer.base (range.map QueueRange.base)).symm
    show Reply.map Answer.base <$> r.requestRange h id count hint = _
    unfold requestRange updateFunction
    cases r.update h fun g => g.requestRange id count hint r.policy with
    | error fault => rfl
    | ok reply => obtain ⟨state, result, notices⟩ := reply; cases result <;> rfl
  | updateFunction id count hint => exact (update_map _).symm
  | incrementActive id type => exact (update_map _).symm
  | decrementActive id type => exact (update_map _).symm

theorem Valid.change_spec (hv : r.Valid) (h : GroupHandle) (c : Group.Call) :
    r.change h c = .error .addOverflow ∨
      ∃ reply, r.change h c = .ok reply ∧ reply.state.Valid ∧ reply.state.policy = r.policy := by
  rw [change_eq]
  cases hf : r.find? h with
  | none => exact .inr ⟨_, update_none hf, hv, rfl⟩
  | some g =>
    rcases Group.apply_spec (hv.find? hf) r.policy c with hc | ⟨reply, hc, hm⟩
    · exact .inl (update_fault hf hc)
    · have hg := hm.valid (hv.find? hf)
      exact .inr ⟨_, update_some hf hc hg, hv.replace hf hg hm.index_eq, rfl⟩

/-! ## Changes of the list of groups -/

/-- A new group gets the next index and starts with all its queues free. -/
def newGroup (r : Registry) (key : GroupKey) (base total : Nat) : Group :=
  { key, index := r.next, whole := ⟨base, total⟩, free := ⟨[⟨base, total⟩]⟩ }

/-- The key is new, and the queue space a non-empty range of words. -/
def Accepts (r : Registry) (key : GroupKey) (base total : Nat) : Prop :=
  (∀ g ∈ r.groups, g.key ≠ key) ∧ 0 < total ∧ base + total < wordLimit

theorem createGroup_refused {key : GroupKey} {base total : Nat} (h : ¬ r.Accepts key base total) :
    ∃ error, r.createGroup key base total = .ok (r.refuse error) := by
  unfold createGroup
  by_cases hkey : (r.groups.any fun g => g.key == key) = true
  · rw [if_pos hkey]
    exact ⟨_, rfl⟩
  · have hspace : total = 0 ∨ base + total ≥ wordLimit := by
      by_contra hspace
      exact h ⟨by simpa using hkey, by omega, by omega⟩
    have hc : Group.create key r.next base total = .ok (.error .invalidParameter) := if_pos hspace
    rw [if_neg hkey]
    simp only [hc, Checked.ok_bind]
    exact ⟨_, rfl⟩

/-- A group that is accepted is made, unless the index after its own leaves the word. -/
theorem createGroup_accepted {key : GroupKey} {base total : Nat} (h : r.Accepts key base total) :
    r.createGroup key base total = Checked.add r.next 1 >>= fun next =>
      return ⟨{ r with groups := r.groups ++ [r.newGroup key base total], next },
        .ok ⟨key, r.next⟩, [.groupCreated r.next key ⟨base, total⟩]⟩ := by
  obtain ⟨hnew, hpos, hlim⟩ := h
  have hkey : ¬ (r.groups.any fun g => g.key == key) = true := by simpa using hnew
  have hc : Group.create key r.next base total = _ := Group.Valid.create_eq hpos hlim
  unfold createGroup
  rw [if_neg hkey]
  simp only [hc, Checked.ok_bind]
  rfl

theorem createGroup_spec (r : Registry) (key : GroupKey) (base total : Nat) :
    r.createGroup key base total = .error .addOverflow ∨
      ∃ reply, r.createGroup key base total = .ok reply ∧
        ((∃ error, reply.state = r ∧ reply.result = .error error) ∨
          0 < total ∧ base + total < wordLimit ∧
            reply.state = { r with groups := r.groups ++ [r.newGroup key base total],
                                   next := r.next + 1 } ∧
            reply.result = .ok ⟨key, r.next⟩) := by
  by_cases h : r.Accepts key base total
  · rw [createGroup_accepted h]
    by_cases hnext : r.next + 1 < wordLimit
    · rw [Checked.add_eq hnext]
      exact .inr ⟨_, rfl, .inr ⟨h.2.1, h.2.2, rfl, rfl⟩⟩
    · rw [Checked.add, if_neg hnext]
      exact .inl rfl
  · obtain ⟨error, hr⟩ := createGroup_refused h
    exact .inr ⟨_, hr, .inl ⟨error, rfl, rfl⟩⟩

theorem Valid.append (hv : r.Valid) {key : GroupKey} {base total : Nat} (hpos : 0 < total)
    (hlim : base + total < wordLimit) :
    Valid { r with groups := r.groups ++ [r.newGroup key base total], next := r.next + 1 } where
  groups g hg := by
    rcases List.mem_append.1 hg with hg | hg
    · exact hv.groups g hg
    · rw [List.mem_singleton.1 hg]
      exact Group.Valid.fresh hpos hlim
  indices := by
    simp only [List.map_append, List.map_cons, List.map_nil]
    refine List.nodup_append.2 ⟨hv.indices, List.nodup_singleton _, fun i hi j hj => ?_⟩
    obtain ⟨g, hg, rfl⟩ := List.mem_map.1 hi
    rw [List.mem_singleton.1 hj]
    exact Nat.ne_of_lt (hv.next g hg)
  next g hg := by
    rcases List.mem_append.1 hg with hg | hg
    · exact Nat.lt_succ_of_lt (hv.next g hg)
    · rw [List.mem_singleton.1 hg]
      exact Nat.lt_succ_self _

theorem Valid.destroyGroup (hv : r.Valid) (h : GroupHandle) : (r.destroyGroup h).state.Valid := by
  unfold Registry.destroyGroup
  cases r.find? h with
  | none => exact hv
  | some g =>
    by_cases hempty : g.functions.isEmpty
    · simp only [hempty]
      exact ⟨fun x hx => hv.groups x (List.mem_filter.1 hx).1,
        hv.indices.sublist (List.filter_sublist.map _),
        fun x hx => hv.next x (List.mem_filter.1 hx).1⟩
    · simp only [hempty]
      exact hv

theorem destroyGroup_frame (r : Registry) (h : GroupHandle) :
    (r.destroyGroup h).state.policy = r.policy ∧ (r.destroyGroup h).state.next = r.next := by
  unfold Registry.destroyGroup
  cases r.find? h with
  | none => exact ⟨rfl, rfl⟩
  | some g => by_cases hempty : g.functions.isEmpty <;> simp only [hempty] <;> exact ⟨rfl, rfl⟩

/-! ## Questions -/

theorem ask_ok (hv : r.Valid) (h : GroupHandle)
    {question : Group → Checked (Except ResourceError α)}
    (hq : ∀ g, g.Valid → ∃ result, question g = .ok result) :
    ∃ result, r.ask h question = .ok result := by
  unfold ask
  cases hf : r.find? h with
  | none => exact ⟨_, rfl⟩
  | some g => exact hq g (hv.find? hf)

theorem askFunction_ok (hv : r.Valid) (h : GroupHandle) (id : UInt16)
    {question : FunctionEntry → Checked α}
    (hq : ∀ g : Group, g.Valid → ∀ e ∈ g.functions, ∃ a, question e = .ok a) :
    ∃ result, r.askFunction h id question = .ok result := by
  refine ask_ok hv h fun g hg => ?_
  cases he : g.find? id with
  | none => exact ⟨_, rfl⟩
  | some e =>
    obtain ⟨a, ha⟩ := hq g hg e (Group.find?_eq_some he).1
    simp only [ha]
    exact ⟨_, rfl⟩

/-- A queue id is looked up in the range that the function holds. -/
theorem Valid.contains_eq (hv : r.Valid) {id : UInt16} {range : QueueRange}
    (hr : r.range h id = .ok (some range)) (qid : Nat) :
    r.contains h id qid = .ok (decide (range.Holds qid)) := by
  have hb : range.Bounded := by
    unfold Registry.range at hr
    cases hf : r.find? h with
    | none => simp [hf] at hr
    | some g =>
      cases he : g.find? id with
      | none => simp [hf, he] at hr
      | some e =>
        simp only [hf, he, Except.ok.injEq] at hr
        have hg := hv.find? hf
        exact hg.limit.mono (hg.range_covered (Group.find?_eq_some he).1 hr)
  unfold Registry.contains
  rw [hr]
  exact QueueRange.contains_eq hb qid

theorem contains_false {id : UInt16} (hr : ∀ range, r.range h id ≠ .ok (some range)) (qid : Nat) :
    r.contains h id qid = .ok false := by
  unfold Registry.contains
  split
  · next range heq => exact absurd heq (hr range)
  · rfl

theorem exists_map {op : Checked α} (f : α → β) (h : ∃ a, op = .ok a) : ∃ b, f <$> op = .ok b := by
  obtain ⟨a, rfl⟩ := h
  exact ⟨_, rfl⟩

theorem Valid.answer_ok (hv : r.Valid) (q : Question) : ∃ result, r.answer q = .ok result := by
  cases q with
  | findGroup key => exact ⟨_, rfl⟩
  | groupInfo h =>
    refine exists_map _ (ask_ok hv h fun g hg => ?_)
    rw [hg.freeCount_eq]
    exact ⟨_, rfl⟩
  | freeRanges h => exact exists_map _ (ask_ok hv h fun g _ => ⟨_, rfl⟩)
  | checkInvariants h =>
    refine exists_map _ (ask_ok hv h fun g hg => ?_)
    rw [hg.checkInvariants]
    exact ⟨_, rfl⟩
  | range h id => exact ⟨_, rfl⟩
  | contains h id qid =>
    refine exists_map _ ?_
    by_cases hr : ∃ range, r.range h id = .ok (some range)
    · obtain ⟨range, hr⟩ := hr
      exact ⟨_, hv.contains_eq hr qid⟩
    · exact ⟨_, contains_false (fun range heq => hr ⟨range, heq⟩) qid⟩
  | activeCount h => exact exists_map _ (ask_ok hv h fun g _ => ⟨_, rfl⟩)
  | functionActive h id =>
    exact exists_map _ (askFunction_ok hv h id fun g hg e he => ⟨_, hg.total_eq he⟩)
  | activeQueues h id type =>
    exact exists_map _ (askFunction_ok hv h id fun g _ e _ => ⟨_, rfl⟩)

/-! ## Runs -/

/-- A call keeps the registry valid, unless it overflows. -/
theorem Valid.step_spec (hv : r.Valid) (c : Call) :
    r.step c = .error .addOverflow ∨
      ∃ reply, r.step c = .ok reply ∧ reply.state.Valid ∧ reply.state.policy = r.policy := by
  cases c with
  | createGroup key base total =>
    rcases createGroup_spec r key base total with hf | ⟨reply, hr, hs⟩
    · exact .inl (by rw [step, hf]; rfl)
    · refine .inr ⟨_, by rw [step, hr]; rfl, ?_⟩
      rcases hs with ⟨error, hs, -⟩ | ⟨hpos, hlim, hs, -⟩
      · simp only [Reply.map, hs]
        exact ⟨hv, trivial⟩
      · simp only [Reply.map, hs]
        exact ⟨hv.append hpos hlim, trivial⟩
  | destroyGroup h => exact .inr ⟨_, rfl, hv.destroyGroup h, (destroyGroup_frame r h).1⟩
  | change h c => exact hv.change_spec h c
  | ask q =>
    obtain ⟨result, hq⟩ := hv.answer_ok q
    exact .inr ⟨_, by rw [step, hq]; rfl, hv, rfl⟩

theorem Valid.run_spec (hv : r.Valid) (calls : List Call) :
    r.run calls = .error .addOverflow ∨
      ∃ r' results, r.run calls = .ok (r', results) ∧ r'.Valid ∧ r'.policy = r.policy := by
  induction calls generalizing r with
  | nil => exact .inr ⟨r, [], rfl, hv, rfl⟩
  | cons c cs ih =>
    rcases hv.step_spec c with hf | ⟨reply, hr, hv', hp⟩
    · exact .inl (by rw [run, hf]; rfl)
    · rw [run, hr, Checked.ok_bind]
      rcases ih hv' with hf | ⟨r', results, hrun, hvr, hpr⟩
      · exact .inl (by rw [hf]; rfl)
      · exact .inr ⟨r', _, by rw [hrun]; rfl, hvr, hpr.trans hp⟩

theorem valid_of_run {policy : RequestPolicy} {calls : List Call}
    {results : List (Except ResourceError Answer)}
    (hr : (fresh policy).run calls = .ok (r, results)) : r.Valid ∧ r.policy = policy := by
  rcases (valid_fresh policy).run_spec calls with hf | ⟨r', results', hr', hv, hp⟩
  · rw [hf] at hr; cases hr
  · rw [hr] at hr'
    cases hr'
    exact ⟨hv, hp⟩

end DmaQueues.Registry
