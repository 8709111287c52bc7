import DmaQueues.Proofs.Allocation.History

/-!
# Entries of a registry

`Registry.lookup?` is what a registry knows of a function. A change of one function leaves
the entries of all others as they are (`Kept`). A call that counts no queue leaves an entry
as it is, or finds it idle and leaves it idle (`Quiet`); the entry of a function with active
queues is never touched by one.
-/

namespace DmaQueues

/-- No queue is counted: the function is idle, or not there. -/
def Idle : Option FunctionEntry → Prop
  | some e => e.active.sum = 0
  | none => True

/-- Nothing happens to an entry that is not idle. -/
def Quiet (e e' : Option FunctionEntry) : Prop :=
  e' = e ∨ Idle e ∧ Idle e'

theorem Quiet.refl (e : Option FunctionEntry) : Quiet e e := .inl rfl

theorem Quiet.trans {a b c : Option FunctionEntry} (hab : Quiet a b) (hbc : Quiet b c) :
    Quiet a c := by
  rcases hab with rfl | ⟨ha, hb⟩
  · exact hbc
  · rcases hbc with rfl | ⟨-, hc⟩
    · exact .inr ⟨ha, hb⟩
    · exact .inr ⟨ha, hc⟩

theorem Quiet.idle {e e' : Option FunctionEntry} (hq : Quiet e e') (he : Idle e) : Idle e' := by
  rcases hq with rfl | ⟨-, he'⟩
  · exact he
  · exact he'

namespace Group

variable {g g' : Group} {id : UInt16}

/-- The call counts no queue. -/
def Call.Uncounted : Call → Prop
  | incrementActive _ _ | decrementActive _ _ => False
  | _ => True

theorem Move.find?_other (m : g.Move id g') {other : UInt16} (ho : other ≠ id) :
    g'.find? other = g.find? other := by
  cases m with
  | stay => rfl
  | attach hnew => rw [find?_attach hnew, if_neg ho]
  | detach he hidle hs => rw [find?_detach, if_neg ho]
  | assign he hidle hs => rw [find?_assign, if_neg ho]
  | recount he hgate hactive => rw [find?_recount, if_neg ho]

theorem recount_recount (g : Group) (id : UInt16) (type : QueueType) (n active m active' : Nat) :
    (g.recount id type n active).recount id type m active' = g.recount id type m active' := by
  simp only [recount, modify, List.map_map, Group.mk.injEq, true_and, and_true]
  refine List.map_congr_left fun x _ => ?_
  by_cases hid : x.id = id <;> simp [hid]

theorem recount_self (h : g.Valid) {e : FunctionEntry} (he : g.find? id = some e)
    {type : QueueType} : g.recount id type (e.active.get type) g.active = g := by
  unfold recount
  rw [modify_self h he (by simp)]

theorem createFunction_quiet (g : Group) (id : UInt16) {reply : Reply Group ResourceError Unit}
    (hr : g.createFunction id = .ok reply) : Quiet (g.find? id) (reply.state.find? id) := by
  rw [createFunction_eq] at hr
  cases hr
  cases hf : g.find? id with
  | none => exact .inr ⟨trivial, by simp [find?_attach hf, Idle, ActiveCounts.sum]⟩
  | some e => exact .inl hf

theorem destroyFunction_quiet (h : g.Valid) (id : UInt16) {reply : Reply Group ResourceError Unit}
    (hr : g.destroyFunction id = .ok reply) : Quiet (g.find? id) (reply.state.find? id) := by
  obtain ⟨reply', hr', ⟨error, hs, -⟩ | ⟨e, free, he, hidle, -, rfl⟩⟩ := destroyFunction_spec h id
  · cases hr.symm.trans hr'
    exact .inl (by rw [hs])
  · cases hr.symm.trans hr'
    exact .inr ⟨by rw [he]; exact hidle, by rw [find?_detach, if_pos rfl]; trivial⟩

theorem assign_quiet {e : FunctionEntry} (he : g.find? id = some e) (hidle : e.active.sum = 0)
    (free : FreeList) (range : Option QueueRange) :
    Quiet (g.find? id) ((g.assign id free range).find? id) := by
  refine .inr ⟨by rw [he]; exact hidle, ?_⟩
  rw [find?_assign, if_pos rfl, he]
  exact hidle

theorem requestRange_quiet (h : g.Valid) (id : UInt16) (count : Nat) (hint : Option Nat)
    {policy : RequestPolicy} {reply : Reply Group ResourceError (Option QueueRange)}
    (hr : g.requestRange id count hint policy = .ok reply) :
    Quiet (g.find? id) (reply.state.find? id) := by
  obtain ⟨reply', hr', ⟨error, hs, -⟩ | ⟨e, he, hidle, hreq⟩⟩ :=
    requestRange_spec h id count hint policy
  · cases hr.symm.trans hr'
    exact .inl (by rw [hs])
  · cases hr.symm.trans hr'
    obtain ⟨state, result, notices⟩ := reply
    cases hreq with
    | freed _ _ => exact assign_quiet he hidle _ _
    | given _ _ => exact assign_quiet he hidle _ _
    | refused _ => exact .refl _

theorem map_quiet {α : Type} {op : Checked (Reply Group ResourceError α)} {f : α → Answer}
    (h : ∀ reply, op = .ok reply → Quiet (g.find? id) (reply.state.find? id))
    {reply : Reply Group ResourceError Answer} (hr : Reply.map f <$> op = .ok reply) :
    Quiet (g.find? id) (reply.state.find? id) := by
  obtain ⟨inner, hop, rfl⟩ := Checked.map_eq_ok hr
  exact h inner hop

theorem apply_quiet (h : g.Valid) {policy : RequestPolicy} {c : Call} (hc : c.Uncounted)
    {reply : Reply Group ResourceError Answer} (hr : g.apply policy c = .ok reply) :
    Quiet (g.find? c.id) (reply.state.find? c.id) := by
  cases c with
  | createFunction id => exact map_quiet (fun _ => createFunction_quiet g id) hr
  | destroyFunction id => exact map_quiet (fun _ => destroyFunction_quiet h id) hr
  | requestRange id count hint => exact map_quiet (fun _ => requestRange_quiet h id count hint) hr
  | updateFunction id count hint => exact map_quiet (fun _ => requestRange_quiet h id count hint) hr
  | incrementActive id type => exact hc.elim
  | decrementActive id type => exact hc.elim

end Group

namespace Registry

variable {α : Type} {r r' : Registry} {h : GroupHandle} {g g' : Group} {id : UInt16}

/-- What the registry knows of a function. -/
def lookup? (r : Registry) (h : GroupHandle) (id : UInt16) : Option FunctionEntry :=
  (r.find? h).bind fun g => g.find? id

theorem range_eq (r : Registry) (h : GroupHandle) (id : UInt16) :
    r.range h id = match r.lookup? h id with
      | some e => .ok e.range
      | none => .error .notFound := by
  unfold range lookup?
  cases r.find? h with
  | none => rfl
  | some g => cases hf : g.find? id <;> simp [hf]

theorem activeQueues_eq (r : Registry) (h : GroupHandle) (id : UInt16) (type : QueueType) :
    r.activeQueues h id type = match r.lookup? h id with
      | some e => .ok (.ok (e.active.get type))
      | none => .ok (.error .notFound) := by
  unfold activeQueues askFunction ask lookup?
  cases r.find? h with
  | none => rfl
  | some g => cases hf : g.find? id <;> simp only [Option.bind_some, hf] <;> rfl

theorem lookup?_eq_some {e : FunctionEntry} (he : r.lookup? h id = some e) :
    ∃ g, r.find? h = some g ∧ g.find? id = some e :=
  Option.bind_eq_some_iff.1 he

theorem lookup?_of_find? (hf : r.find? h = some g) : r.lookup? h id = g.find? id := by
  simp [lookup?, hf]

theorem lookup?_replace (hf : r.find? h = some g) (hi : g'.index = g.index) :
    (r.replace h.index g').lookup? h id = g'.find? id :=
  lookup?_of_find? (replace_find? hf hi)

/-- A queue id that is found in the range of a function is held by it. -/
theorem Valid.holds_of_contains (hv : r.Valid) {qid : Nat} (hc : r.contains h id qid = .ok true) :
    ∃ e, r.lookup? h id = some e ∧ e.Holds qid := by
  by_cases hr : ∃ range, r.range h id = .ok (some range)
  · obtain ⟨range, hr⟩ := hr
    rw [hv.contains_eq hr] at hc
    have hholds : range.Holds qid := by simpa using hc
    rw [range_eq] at hr
    cases he : r.lookup? h id with
    | none => rw [he] at hr; cases hr
    | some e =>
      rw [he] at hr
      exact ⟨e, rfl, range, Except.ok.inj hr, hholds⟩
  · rw [contains_false (fun range heq => hr ⟨range, heq⟩)] at hc
    cases hc

theorem find?_replace_other (hf : r.find? h = some g) (hi : g'.index = g.index)
    {other : GroupHandle} (ho : other.index ≠ h.index) :
    (r.replace h.index g').find? other = r.find? other := by
  obtain ⟨-, hindex⟩ := find?_eq_some hf
  rw [find?_replace (hi.trans hindex), if_neg ho]

/-- Handles of one index find the same group. -/
theorem find?_congr {other : GroupHandle} (hi : other.index = h.index) :
    r.find? other = r.find? h := by
  unfold find?
  rw [hi]

theorem lookup?_congr {other : GroupHandle} (hi : other.index = h.index) (id : UInt16) :
    r.lookup? other id = r.lookup? h id := by
  unfold lookup?
  rw [find?_congr hi]

theorem replace_self (hv : r.Valid) (hf : r.find? h = some g) : r.replace h.index g = r := by
  obtain ⟨hmem, hindex⟩ := find?_eq_some hf
  have hsame : r.groups.map (fun old => if old.index = h.index then g else old) = r.groups := by
    refine (List.map_congr_left fun old hold => ?_).trans (List.map_id _)
    by_cases ho : old.index = h.index
    · rw [if_pos ho]
      exact List.inj_on_of_nodup_map hv.indices hmem hold (hindex.trans ho.symm)
    · exact if_neg ho
  unfold replace
  rw [hsame]

theorem replace_replace (hi : g.index = h.index) :
    (r.replace h.index g).replace h.index g' = r.replace h.index g' := by
  simp only [replace, List.map_map, Registry.mk.injEq, true_and, and_true]
  refine List.map_congr_left fun old _ => ?_
  by_cases ho : old.index = h.index <;> simp [ho, hi]

/-- A change of one function: the registry stays valid, and all other entries as they are. -/
structure Kept (h : GroupHandle) (id : UInt16) (r r' : Registry) : Prop where
  valid : r'.Valid
  policy : r'.policy = r.policy
  others : ∀ h' id', h'.index ≠ h.index ∨ id' ≠ id → r'.lookup? h' id' = r.lookup? h' id'

theorem Kept.refl (hv : r.Valid) : Kept h id r r :=
  ⟨hv, rfl, fun _ _ _ => rfl⟩

theorem Kept.trans {r'' : Registry} (hk : Kept h id r r') (hk' : Kept h id r' r'') :
    Kept h id r r'' :=
  ⟨hk'.valid, hk'.policy.trans hk.policy,
    fun h' id' ho => (hk'.others h' id' ho).trans (hk.others h' id' ho)⟩

theorem Valid.kept_replace (hv : r.Valid) (hf : r.find? h = some g) (hm : g.Move id g') :
    Kept h id r (r.replace h.index g') where
  valid := hv.replace hf (hm.valid (hv.find? hf)) hm.index_eq
  policy := rfl
  others h' id' ho := by
    by_cases hi : h'.index = h.index
    · have hid : id' ≠ id := ho.resolve_left fun hne => hne hi
      rw [lookup?_congr hi, lookup?_congr hi, lookup?_replace hf hm.index_eq, lookup?_of_find? hf]
      exact hm.find?_other hid
    · unfold lookup?
      rw [find?_replace_other hf hm.index_eq hi]

/-- What is known of a change that went through, if the group made a move. -/
theorem Valid.update_inv (hv : r.Valid) {change : Group → Checked (Reply Group ResourceError α)}
    (hm : ∀ g reply, g.Valid → change g = .ok reply → g.Move id reply.state)
    {reply : Reply Registry ResourceError α} (hr : r.update h change = .ok reply) :
    (r.find? h = none ∧ reply = r.refuse .notFound) ∨
      ∃ g inner, r.find? h = some g ∧ change g = .ok inner ∧ g.Move id inner.state ∧
        reply = ⟨r.replace h.index inner.state, inner.result, inner.notices⟩ := by
  cases hf : r.find? h with
  | none =>
    rw [update_none hf] at hr
    exact .inl ⟨rfl, (Except.ok.inj hr).symm⟩
  | some g =>
    cases hc : change g with
    | error fault => rw [update_fault hf hc] at hr; cases hr
    | ok inner =>
      have hmove := hm g inner (hv.find? hf) hc
      rw [update_some hf hc (hmove.valid (hv.find? hf))] at hr
      exact .inr ⟨g, inner, rfl, hc, hmove, (Except.ok.inj hr).symm⟩

theorem Valid.update_kept (hv : r.Valid) {change : Group → Checked (Reply Group ResourceError α)}
    (hm : ∀ g reply, g.Valid → change g = .ok reply → g.Move id reply.state)
    {reply : Reply Registry ResourceError α} (hr : r.update h change = .ok reply) :
    Kept h id r reply.state := by
  rcases hv.update_inv hm hr with ⟨-, rfl⟩ | ⟨g, inner, hf, -, hmove, rfl⟩
  · exact .refl hv
  · exact hv.kept_replace hf hmove

/-- A change that goes through is a move of the group. -/
theorem Valid.change_inv (hv : r.Valid) {c : Group.Call}
    {reply : Reply Registry ResourceError Answer} (hr : r.change h c = .ok reply) :
    (r.find? h = none ∧ reply = r.refuse .notFound) ∨
      ∃ g inner, r.find? h = some g ∧ g.apply r.policy c = .ok inner ∧ g.Move c.id inner.state ∧
        reply = ⟨r.replace h.index inner.state, inner.result, inner.notices⟩ := by
  rw [change_eq] at hr
  exact hv.update_inv
    (fun _ _ hg => Checked.of_fault_or_exists (Group.apply_spec hg r.policy c)) hr

theorem step_ask {q : Question} {reply : Reply Registry ResourceError Answer}
    (hr : r.step (.ask q) = .ok reply) : reply.state = r := by
  obtain ⟨result, -, hres⟩ := Checked.bind_eq_ok hr
  cases hres
  rfl

/-! ## Calls that count no queue -/

/-- The call counts no queue. -/
def Call.Uncounted : Call → Prop
  | .change _ c => c.Uncounted
  | _ => True

/-- A new group has no functions. -/
theorem lookup?_append (r : Registry) (key : GroupKey) (base total : Nat) (h : GroupHandle)
    (id : UInt16) :
    lookup? { r with groups := r.groups ++ [r.newGroup key base total], next := r.next + 1 } h id =
      r.lookup? h id := by
  unfold lookup? find?
  rw [List.find?_append]
  cases r.groups.find? fun g => g.index == h.index with
  | some g => rfl
  | none =>
    by_cases hi : r.next = h.index
    · simp [newGroup, hi, Group.find?]
    · simp [newGroup, hi]

theorem createGroup_lookup? (r : Registry) {key : GroupKey} {base total : Nat}
    {reply : Reply Registry ResourceError GroupHandle}
    (hr : r.createGroup key base total = .ok reply) (h : GroupHandle) (id : UInt16) :
    reply.state.lookup? h id = r.lookup? h id := by
  rcases createGroup_spec r key base total with hf | ⟨reply', hr', hs⟩
  · rw [hf] at hr
    cases hr
  · cases hr.symm.trans hr'
    rcases hs with ⟨error, hs, -⟩ | ⟨-, -, hs, -⟩
    · rw [hs]
    · rw [hs]
      exact lookup?_append r key base total h id

/-- Only a group without functions can go. -/
theorem destroyGroup_lookup? (r : Registry) (h h' : GroupHandle) (id : UInt16) :
    (r.destroyGroup h).state.lookup? h' id = r.lookup? h' id := by
  unfold destroyGroup
  cases hf : r.find? h with
  | none => rfl
  | some g =>
    by_cases hempty : g.functions.isEmpty
    · simp only [hempty]
      by_cases hi : h'.index = h.index
      · have hold : r.lookup? h' id = none := by
          rw [lookup?, find?_congr hi, hf]
          simp [Group.find?, List.isEmpty_iff.1 hempty]
        have hnew : (r.groups.filter fun g => g.index != h.index).find?
            (fun g => g.index == h'.index) = none := by
          refine List.find?_eq_none.2 fun x hx => ?_
          have hx' := (List.mem_filter.1 hx).2
          simpa [hi] using hx'
        rw [hold]
        simp [lookup?, find?, hnew]
      · have hsame : (r.groups.filter fun g => g.index != h.index).find?
            (fun g => g.index == h'.index) = r.groups.find? fun g => g.index == h'.index := by
          rw [List.find?_filter]
          congr 1
          funext g
          by_cases hg : g.index = h'.index <;> simp [hg, hi]
        simp [lookup?, find?, hsame]
    · simp only [hempty]
      rfl

theorem Valid.change_quiet (hv : r.Valid) {c : Group.Call} (hc : c.Uncounted)
    {reply : Reply Registry ResourceError Answer} (hr : r.change h c = .ok reply)
    (h' : GroupHandle) (id : UInt16) : Quiet (r.lookup? h' id) (reply.state.lookup? h' id) := by
  rcases hv.change_inv hr with ⟨-, rfl⟩ | ⟨g, inner, hf, ha, hm, rfl⟩
  · exact .refl _
  · by_cases hother : h'.index ≠ h.index ∨ id ≠ c.id
    · exact .inl ((hv.kept_replace hf hm).others h' id hother)
    · obtain ⟨hi, rfl⟩ : h'.index = h.index ∧ id = c.id := by
        constructor <;> by_contra hne
        · exact hother (.inl hne)
        · exact hother (.inr hne)
      rw [lookup?_congr hi, lookup?_congr hi, lookup?_replace hf hm.index_eq, lookup?_of_find? hf]
      exact Group.apply_quiet (hv.find? hf) hc ha

theorem Valid.step_quiet (hv : r.Valid) {c : Call} (hc : c.Uncounted)
    {reply : Reply Registry ResourceError Answer} (hr : r.step c = .ok reply) (h : GroupHandle)
    (id : UInt16) : Quiet (r.lookup? h id) (reply.state.lookup? h id) := by
  cases c with
  | createGroup key base total =>
    obtain ⟨inner, hop, rfl⟩ := Checked.map_eq_ok hr
    exact .inl (createGroup_lookup? r hop h id)
  | destroyGroup h' =>
    cases hr
    exact .inl (destroyGroup_lookup? r h' h id)
  | change h' c => exact hv.change_quiet hc hr h id
  | ask q => exact .inl (by rw [step_ask hr])

/-! ## Changes by a manager -/

theorem Valid.updateFunction_kept (hv : r.Valid) {count : Nat} {hint : Option Nat}
    {reply : Reply Registry ResourceError (Option QueueRange)}
    (hr : r.updateFunction h id count hint = .ok reply) :
    Kept h id r reply.state ∧ Quiet (r.lookup? h id) (reply.state.lookup? h id) := by
  have hmove : ∀ (g : Group) inner, g.Valid → g.requestRange id count hint r.policy = .ok inner →
      g.Move id inner.state := fun _ _ hg =>
    Checked.of_exists (Group.requestRange_move hg id count hint r.policy)
  rcases hv.update_inv hmove hr with ⟨-, rfl⟩ | ⟨g, inner, hf, hc, hm, rfl⟩
  · exact ⟨.refl hv, .refl _⟩
  · refine ⟨hv.kept_replace hf hm, ?_⟩
    rw [lookup?_replace hf hm.index_eq, lookup?_of_find? hf]
    exact Group.requestRange_quiet (hv.find? hf) id count hint hc

/-- One more active queue is counted, or nothing has changed. -/
theorem Valid.incrementActive_inv (hv : r.Valid) {type : QueueType}
    {reply : Reply Registry ResourceError Unit}
    (hr : r.incrementActive h id type = .ok reply) :
    (∃ error, reply.state = r ∧ reply.result = .error error) ∨
      ∃ g e range, r.find? h = some g ∧ g.find? id = some e ∧ e.range = some range ∧
        e.active.sum < range.count ∧
        reply = ⟨r.replace h.index (g.recount id type (e.active.get type + 1) (g.active + 1)),
          .ok (), []⟩ := by
  unfold incrementActive at hr
  cases hf : r.find? h with
  | none =>
    rw [update_none hf] at hr
    cases hr
    exact .inl ⟨_, rfl, rfl⟩
  | some g =>
    have hg := hv.find? hf
    rcases Group.incrementActive_spec hg id type with ⟨e, -, -, hc⟩ |
      ⟨inner, hc, ⟨error, hs, hres⟩ | ⟨e, range, he, hrange, hroom, rfl⟩⟩
    · rw [update_fault hf hc] at hr
      cases hr
    · rw [update_some hf hc (hs ▸ hg), hs, replace_self hv hf] at hr
      cases hr
      exact .inl ⟨error, rfl, hres⟩
    · have hmove := Checked.of_fault_or_exists (Group.incrementActive_move hg id type) hc
      rw [update_some hf hc (hmove.valid hg)] at hr
      cases hr
      exact .inr ⟨g, e, range, rfl, he, hrange, hroom, rfl⟩

/-- Another active queue of a function whose range is not full is counted. -/
theorem Valid.incrementActive_eq (hv : r.Valid) {e : FunctionEntry} {range : QueueRange}
    (hf : r.find? h = some g) (he : g.find? id = some e) (type : QueueType)
    (hrange : e.range = some range) (hroom : e.active.sum < range.count) :
    r.incrementActive h id type =
      .ok ⟨r.replace h.index (g.recount id type (e.active.get type + 1) (g.active + 1)),
        .ok (), []⟩ := by
  have hg := hv.find? hf
  have hc := Group.incrementActive_room type hg he hrange hroom
  have hmove := Checked.of_fault_or_exists (Group.incrementActive_move hg id type) hc
  exact update_some hf hc (hmove.valid hg)

/-- A queue of a function that is there is counted off, unless none of its kind is active. -/
theorem Valid.decrementActive_eq (hv : r.Valid) {e : FunctionEntry} (hf : r.find? h = some g)
    (he : g.find? id = some e) (type : QueueType) :
    (e.active.get type = 0 ∧ r.decrementActive h id type = .ok ⟨r, .ok (), []⟩) ∨
      (0 < e.active.get type ∧ 0 < g.active ∧ r.decrementActive h id type =
        .ok ⟨r.replace h.index (g.recount id type (e.active.get type - 1) (g.active - 1)),
          .ok (), []⟩) := by
  have hg := hv.find? hf
  obtain ⟨inner, hc, hs⟩ := Group.decrementActive_spec hg id type
  have hmove := Checked.of_exists (Group.decrementActive_move hg id type) hc
  have hreply : r.decrementActive h id type = _ := update_some hf hc (hmove.valid hg)
  rcases hs with ⟨hn, -⟩ | ⟨e', he', hzero, rfl⟩ | ⟨e', he', hpos, hsum, rfl⟩
  · cases he.symm.trans hn
  · cases he.symm.trans he'
    rw [replace_self hv hf] at hreply
    exact .inl ⟨hzero, hreply⟩
  · cases he.symm.trans he'
    exact .inr ⟨hpos, hsum, hreply⟩

/-- One active queue less is counted, if there was one. -/
theorem Valid.decrementActive_inv (hv : r.Valid) {type : QueueType}
    {reply : Reply Registry ResourceError Unit}
    (hr : r.decrementActive h id type = .ok reply) :
    (r.lookup? h id = none ∧ reply.state = r ∧ reply.result = .error .notFound) ∨
      (∃ e, r.lookup? h id = some e ∧ e.active.get type = 0 ∧ reply.state = r) ∨
      ∃ g e, r.find? h = some g ∧ g.find? id = some e ∧ 0 < e.active.get type ∧
        reply = ⟨r.replace h.index (g.recount id type (e.active.get type - 1) (g.active - 1)),
          .ok (), []⟩ := by
  cases hf : r.find? h with
  | none =>
    have hnone : r.decrementActive h id type = _ := update_none hf
    cases hnone.symm.trans hr
    exact .inl ⟨by simp [lookup?, hf], rfl, rfl⟩
  | some g =>
    rw [lookup?_of_find? hf]
    cases he : g.find? id with
    | none =>
      have hc : g.decrementActive id type = .ok (g.refuse .notFound) := by
        simp [Group.decrementActive, he]
      have hreply : r.decrementActive h id type = _ := update_some hf hc (hv.find? hf)
      cases hreply.symm.trans hr
      exact .inl ⟨rfl, replace_self hv hf, rfl⟩
    | some e =>
      rcases hv.decrementActive_eq hf he type with ⟨hzero, hreply⟩ | ⟨hpos, -, hreply⟩
      · cases hreply.symm.trans hr
        exact .inr (.inl ⟨e, rfl, hzero, rfl⟩)
      · cases hreply.symm.trans hr
        exact .inr (.inr ⟨g, e, rfl, he, hpos, rfl⟩)

theorem Valid.incrementActive_kept (hv : r.Valid) {type : QueueType}
    {reply : Reply Registry ResourceError Unit}
    (hr : r.incrementActive h id type = .ok reply) : Kept h id r reply.state :=
  hv.update_kept
    (fun _ _ hg => Checked.of_fault_or_exists (Group.incrementActive_move hg id type)) hr

theorem Valid.decrementActive_kept (hv : r.Valid) {type : QueueType}
    {reply : Reply Registry ResourceError Unit}
    (hr : r.decrementActive h id type = .ok reply) : Kept h id r reply.state :=
  hv.update_kept (fun _ _ hg => Checked.of_exists (Group.decrementActive_move hg id type)) hr

theorem Valid.incremented (hv : r.Valid) {type : QueueType} {notices : List Notice}
    (hr : r.incrementActive h id type = .ok ⟨r', .ok (), notices⟩) :
    ∃ e, r.lookup? h id = some e ∧
      r'.lookup? h id = some (e.recount type (e.active.get type + 1)) := by
  rcases hv.incrementActive_inv hr with ⟨error, -, he⟩ | ⟨g, e, range, hf, he, -, -, heq⟩
  · cases he
  · cases heq
    refine ⟨e, (lookup?_of_find? hf).trans he, ?_⟩
    have hentry : (r.replace h.index (g.recount id type (e.active.get type + 1)
        (g.active + 1))).lookup? h id = _ := lookup?_replace hf rfl
    rw [hentry, Group.find?_recount, if_pos rfl, he]
    rfl

theorem Valid.decremented (hv : r.Valid) {type : QueueType}
    {reply : Reply Registry ResourceError Unit} (hr : r.decrementActive h id type = .ok reply)
    {e : FunctionEntry} (he : r.lookup? h id = some e) (hpos : 0 < e.active.get type) :
    reply.state.lookup? h id = some (e.recount type (e.active.get type - 1)) := by
  rcases hv.decrementActive_inv hr with ⟨hn, -, -⟩ | ⟨e', he', hzero, -⟩ |
    ⟨g, e', hf, he', -, rfl⟩
  · rw [hn] at he
    cases he
  · rw [he'] at he
    cases he
    omega
  · rw [lookup?_of_find? hf, he'] at he
    cases he
    have hentry : (r.replace h.index (g.recount id type (e.active.get type - 1)
        (g.active - 1))).lookup? h id = _ := lookup?_replace hf rfl
    rw [hentry, Group.find?_recount, if_pos rfl, he']
    rfl

/-- Counting a queue and then not leaves the registry as it was. -/
theorem Valid.decrement_increment (hv : r.Valid) {type : QueueType} {notices : List Notice}
    (hr : r.incrementActive h id type = .ok ⟨r', .ok (), notices⟩) :
    r'.decrementActive h id type = .ok ⟨r, .ok (), []⟩ := by
  rcases hv.incrementActive_inv hr with ⟨error, -, he⟩ | ⟨g, e, range, hf, he, -, -, heq⟩
  · cases he
  · cases heq
    have hg := hv.find? hf
    have hfind : (r.replace h.index (g.recount id type (e.active.get type + 1)
        (g.active + 1))).find? h = some _ := replace_find? hf rfl
    have hback : (g.recount id type (e.active.get type + 1) (g.active + 1)).decrementActive id type
        = .ok ⟨g, .ok (), []⟩ := by
      unfold Group.decrementActive
      rw [Group.find?_recount, if_pos rfl, he]
      simp only [Option.map_some, FunctionEntry.recount_active, ActiveCounts.get_set, if_pos, Nat.succ_ne_zero, if_false,
        Nat.add_sub_cancel]
      have hself : g.recount id type (e.active.get type) g.active = g := Group.recount_self hg he
      rw [← Group.recount_recount g id type (e.active.get type + 1) (g.active + 1)] at hself
      exact congrArg (fun g : Group => (.ok ⟨g, .ok (), []⟩ :
        Checked (Reply Group ResourceError Unit))) hself
    unfold decrementActive
    rw [update_some hfind hback hg, replace_replace, replace_self hv hf]
    exact (find?_eq_some hf).2

end Registry

end DmaQueues
