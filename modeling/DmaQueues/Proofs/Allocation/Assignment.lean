import DmaQueues.Proofs.Allocation.Entry
import DmaQueues.Proofs.Allocation.Policy

/-!
# The free list follows from the assignment

Which ids are held decides which are free, and the free ranges are the holes between them:
a valid group has the one free list that fits its held ids (`Valid.free_unique`), however it
came to hold them. So two groups of the same space with the same entries (`assignment`)
answer every call alike and keep the same entries (`apply_assignment`), and the order
in which their functions were attached, their free lists and their policies make no
difference to any later call (`free_list_canonical`).
-/

namespace DmaQueues

open QueueRange

namespace Group

/-- Some function holds the id. -/
def Held (g : Group) (q : Nat) : Prop :=
  ∃ f ∈ g.functions, f.Holds q

/-- The space, and what is known of each function. -/
def assignment (g : Group) : QueueRange × (UInt16 → Option FunctionEntry) :=
  (g.whole, g.find?)

variable {g g' : Group}

/-! ## The free list -/

/-- An id is free exactly if it belongs to the space and nobody holds it. -/
theorem Valid.free_mem_iff (h : g.Valid) (q : Nat) :
    g.free.Mem q ↔ g.whole.Holds q ∧ ¬ g.Held q := by
  constructor
  · intro hq
    exact ⟨(h.cover q).2 (.inl hq), fun ⟨f, hf, hfq⟩ => h.apart f hf q hfq hq⟩
  · rintro ⟨hq, hnot⟩
    exact ((h.cover q).1 hq).resolve_right hnot

/-- There is one free list for the held ids. -/
theorem Valid.free_unique (h : g.Valid) (h' : g'.Valid) (hw : g.whole = g'.whole)
    (hheld : ∀ q, g.Held q ↔ g'.Held q) : g.free = g'.free :=
  FreeList.WellFormed.ext h.free h'.free fun q => by
    rw [h.free_mem_iff, h'.free_mem_iff, hw, hheld q]

/-- The free ranges are the maximal runs of ids that nobody holds. -/
theorem Valid.mem_free_iff (h : g.Valid) (range : QueueRange) :
    range ∈ g.free.ranges ↔ Hole (fun q => g.whole.Holds q ∧ ¬ g.Held q) range := by
  have hids : g.free.Mem = fun q => g.whole.Holds q ∧ ¬ g.Held q :=
    funext fun q => propext (h.free_mem_iff q)
  rw [FreeList.mem_ranges_iff h.free, hids]

/-- Without a range that is held, the whole space is one free range. -/
theorem Valid.free_of_unheld (h : g.Valid) (hnone : ∀ f ∈ g.functions, f.range = none)
    (hpos : 0 < g.whole.count) : g.free.ranges = [g.whole] := by
  have hwhole : (⟨[g.whole]⟩ : FreeList).WellFormed :=
    ⟨by simpa using hpos, List.pairwise_singleton ..⟩
  have hsame : g.free = ⟨[g.whole]⟩ := by
    refine FreeList.WellFormed.ext h.free hwhole fun q => ?_
    have hunheld : ¬ g.Held q := by
      rintro ⟨f, hf, r, hr, -⟩
      rw [hnone f hf] at hr
      cases hr
    rw [h.free_mem_iff, FreeList.mem_iff, anyHolds_cons]
    simp [hunheld]
  rw [hsame]

/-! ## The same assignment -/

theorem assignment_eq (hw : g.whole = g'.whole) (hf : ∀ id, g.find? id = g'.find? id) :
    g.assignment = g'.assignment :=
  Prod.ext hw (funext hf)

/-- Replies that say the same and leave the same assignment behind. -/
theorem outcome_ok {α : Type} {reply reply' : Reply Group ResourceError α}
    (hs : reply.state.assignment = reply'.state.assignment) (hr : reply.result = reply'.result) :
    Reply.outcome assignment <$> (.ok reply : Checked (Reply Group ResourceError α)) =
      Reply.outcome assignment <$> .ok reply' :=
  congrArg Except.ok (Prod.ext hs hr)

section

variable (ha : g.assignment = g'.assignment)

include ha

theorem assignment_whole : g.whole = g'.whole :=
  congrArg Prod.fst ha

theorem assignment_find? (id : UInt16) : g.find? id = g'.find? id :=
  congrFun (congrArg Prod.snd ha) id

theorem assignment_mem (h : g.Valid) {f : FunctionEntry} (hf : f ∈ g.functions) :
    f ∈ g'.functions := by
  have hfound := (assignment_find? ha f.id).symm.trans (find?_of_mem h.ids hf)
  exact (find?_eq_some hfound).1

theorem assignment_free (h : g.Valid) (h' : g'.Valid) : g.free = g'.free := by
  refine h.free_unique h' (assignment_whole ha) fun q => ⟨?_, ?_⟩
  · rintro ⟨f, hf, hq⟩
    exact ⟨f, assignment_mem ha h hf, hq⟩
  · rintro ⟨f, hf, hq⟩
    exact ⟨f, assignment_mem ha.symm h' hf, hq⟩

/-- The functions are the same up to their order, and so are their active queues in all. -/
theorem assignment_active (h : g.Valid) (h' : g'.Valid) : g.active = g'.active := by
  have hperm : g.functions.Perm g'.functions :=
    (List.perm_ext_iff_of_nodup (h.ids.of_map _) (h'.ids.of_map _)).2 fun f =>
      ⟨assignment_mem ha h, assignment_mem ha.symm h'⟩
  rw [h.counted, h'.counted]
  exact (hperm.map _).sum_eq

/-! The changes of a group are changes of its assignment. -/

theorem assignment_attach {id : UInt16} (hnew : g.find? id = none) :
    (g.attach id).assignment = (g'.attach id).assignment := by
  have hnew' := (assignment_find? ha id).symm.trans hnew
  have hw := assignment_whole ha
  refine assignment_eq hw fun other => ?_
  rw [find?_attach hnew, find?_attach hnew', assignment_find? ha]

theorem assignment_detach (id : UInt16) (free : FreeList) :
    (g.detach id free).assignment = (g'.detach id free).assignment := by
  have hw := assignment_whole ha
  refine assignment_eq hw fun other => ?_
  rw [find?_detach, find?_detach, assignment_find? ha]

theorem assignment_assign (id : UInt16) (free : FreeList) (range : Option QueueRange) :
    (g.assign id free range).assignment = (g'.assign id free range).assignment := by
  have hw := assignment_whole ha
  refine assignment_eq hw fun other => ?_
  rw [find?_assign, find?_assign, assignment_find? ha, assignment_find? ha]

theorem assignment_recount (id : UInt16) (type : QueueType) (n active active' : Nat) :
    (g.recount id type n active).assignment = (g'.recount id type n active').assignment := by
  have hw := assignment_whole ha
  refine assignment_eq hw fun other => ?_
  rw [find?_recount, find?_recount, assignment_find? ha, assignment_find? ha]

/-! ## Operations -/

theorem createFunction_assignment (id : UInt16) :
    Reply.outcome assignment <$> g.createFunction id =
      Reply.outcome assignment <$> g'.createFunction id := by
  rw [createFunction_eq, createFunction_eq, ← assignment_find? ha]
  cases hf : g.find? id with
  | none => exact outcome_ok (assignment_attach ha hf) rfl
  | some e => exact outcome_ok ha rfl

theorem destroyFunction_assignment (hfree : g.free = g'.free) (id : UInt16) :
    Reply.outcome assignment <$> g.destroyFunction id =
      Reply.outcome assignment <$> g'.destroyFunction id := by
  unfold destroyFunction
  rw [← assignment_find? ha]
  cases g.find? id with
  | none => exact outcome_ok ha rfl
  | some e =>
    cases hactive : e.active.total with
    | error fault => simp only [hactive, Checked.error_bind]
    | ok active =>
      simp only [hactive, Checked.ok_bind, ← hfree]
      by_cases hidle : active = 0
      · rw [if_neg (not_not_intro hidle), if_neg (not_not_intro hidle)]
        cases e.range with
        | none => exact outcome_ok (assignment_detach ha id _) rfl
        | some range =>
          cases hi : g.free.insert range with
          | error fault => simp only [hi, Checked.error_bind]
          | ok free =>
            simp only [hi, Checked.ok_bind]
            exact outcome_ok (assignment_detach ha id free) rfl
      · rw [if_pos hidle, if_pos hidle]
        exact outcome_ok ha rfl

theorem requestTransactional_assignment (hfree : g.free = g'.free) (id : UInt16)
    (old : Option QueueRange) (count : Nat) (hint : Option Nat) :
    Reply.outcome assignment <$> g.requestTransactional id old count hint =
      Reply.outcome assignment <$> g'.requestTransactional id old count hint := by
  rw [requestTransactional_eq, requestTransactional_eq, ← hfree]
  cases returned g.free old with
  | error fault => rfl
  | ok plan =>
    simp only [Checked.ok_bind]
    by_cases hzero : count = 0
    · rw [if_pos hzero, if_pos hzero]
      exact outcome_ok (assignment_assign ha id plan none) rfl
    · rw [if_neg hzero, if_neg hzero]
      cases plan.find count hint with
      | error fault => rfl
      | ok place =>
        obtain ⟨found, notices⟩ := place
        cases found with
        | none => exact outcome_ok ha rfl
        | some want =>
          simp only [Checked.ok_bind]
          cases plan.take want with
          | error fault => rfl
          | ok taken =>
            cases taken with
            | error error => exact outcome_ok ha rfl
            | ok free => exact outcome_ok (assignment_assign ha id free (some want)) rfl

/-- The policies of the two need not agree. -/
theorem requestRange_assignment (h : g.Valid) (h' : g'.Valid) (id : UInt16) (count : Nat)
    (hint : Option Nat) (p q : RequestPolicy) :
    Reply.outcome assignment <$> g.requestRange id count hint p =
      Reply.outcome assignment <$> g'.requestRange id count hint q := by
  have hto : ∀ {g : Group} (p : RequestPolicy), g.Valid →
      Reply.outcome assignment <$> g.requestRange id count hint p =
        Reply.outcome assignment <$> g.requestRange id count hint .transactional := by
    intro g p h
    have hpolicy := requestRange_policy h id count hint p .transactional
    have hview := congrArg (Prod.map assignment (fun result => result) <$> ·) hpolicy
    simp only [Functor.map_map] at hview
    exact hview
  rw [hto p h, hto q h']
  unfold requestRange
  rw [← assignment_find? ha]
  cases g.find? id with
  | none => exact outcome_ok ha rfl
  | some e =>
    cases hactive : e.active.total with
    | error fault => simp only [hactive, Checked.error_bind]
    | ok active =>
      simp only [hactive, Checked.ok_bind]
      by_cases hidle : active = 0
      · rw [if_neg (not_not_intro hidle), if_neg (not_not_intro hidle)]
        exact requestTransactional_assignment ha (assignment_free ha h h') id e.range count hint
      · rw [if_pos hidle, if_pos hidle]
        exact outcome_ok ha rfl

theorem incrementActive_assignment (hactive : g.active = g'.active) (id : UInt16)
    (type : QueueType) :
    Reply.outcome assignment <$> g.incrementActive id type =
      Reply.outcome assignment <$> g'.incrementActive id type := by
  unfold incrementActive
  rw [← assignment_find? ha, ← hactive]
  cases g.find? id with
  | none => exact outcome_ok ha rfl
  | some e =>
    cases hrange : e.range with
    | none =>
      simp only [hrange]
      exact outcome_ok ha rfl
    | some range =>
      simp only [hrange]
      cases e.active.total with
      | error fault => rfl
      | ok total =>
        simp only [Checked.ok_bind]
        cases Checked.add total 1 with
        | error fault => rfl
        | ok wanted =>
          simp only [Checked.ok_bind]
          by_cases hfull : wanted > range.count
          · rw [if_pos hfull, if_pos hfull]
            exact outcome_ok ha rfl
          · rw [if_neg hfull, if_neg hfull]
            cases Checked.add (e.active.get type) 1 with
            | error fault => rfl
            | ok count =>
              cases Checked.add g.active 1 with
              | error fault => rfl
              | ok active => exact outcome_ok (assignment_recount ha id type count _ _) rfl

theorem decrementActive_assignment (id : UInt16) (type : QueueType) :
    Reply.outcome assignment <$> g.decrementActive id type =
      Reply.outcome assignment <$> g'.decrementActive id type := by
  unfold decrementActive
  rw [← assignment_find? ha]
  cases g.find? id with
  | none => exact outcome_ok ha rfl
  | some e =>
    by_cases hzero : e.active.get type = 0
    · simp only [if_pos hzero]
      exact outcome_ok ha rfl
    · simp only [if_neg hzero]
      exact outcome_ok (assignment_recount ha id type _ _ _) rfl

/-- Groups with the same assignment answer a call alike and come to the same assignment. -/
theorem apply_assignment (h : g.Valid) (h' : g'.Valid) (p q : RequestPolicy) (c : Call) :
    Reply.outcome assignment <$> g.apply p c = Reply.outcome assignment <$> g'.apply q c := by
  have hfree := assignment_free ha h h'
  have hactive := assignment_active ha h h'
  cases c with
  | createFunction id => exact Reply.outcome_map _ (createFunction_assignment ha id)
  | destroyFunction id => exact Reply.outcome_map _ (destroyFunction_assignment ha hfree id)
  | requestRange id count hint =>
    exact Reply.outcome_map _ (requestRange_assignment ha h h' id count hint p q)
  | updateFunction id count hint =>
    exact Reply.outcome_map _ (requestRange_assignment ha h h' id count hint p q)
  | incrementActive id type =>
    exact Reply.outcome_map _ (incrementActive_assignment ha hactive id type)
  | decrementActive id type =>
    exact Reply.outcome_map _ (decrementActive_assignment ha id type)

end

end Group

namespace Registry

variable {r r' : Registry} {h h' : GroupHandle} {g g' : Group}

/-- A change of two groups with the same assignment, each of its own registry. -/
theorem Valid.change_assignment (hv : r.Valid) (hv' : r'.Valid) (hf : r.find? h = some g)
    (hf' : r'.find? h' = some g') (ha : g.assignment = g'.assignment) (c : Group.Call) :
    (r.change h c = .error .addOverflow ∧ r'.change h' c = .error .addOverflow) ∨
      ∃ reply reply' s s', r.change h c = .ok reply ∧ r'.change h' c = .ok reply' ∧
        reply.result = reply'.result ∧ reply.state.Valid ∧ reply'.state.Valid ∧
        reply.state.find? h = some s ∧ reply'.state.find? h' = some s' ∧
        s.assignment = s'.assignment := by
  have hg := hv.find? hf
  have hg' := hv'.find? hf'
  have hap := Group.apply_assignment ha hg hg' r.policy r'.policy c
  rw [change_eq, change_eq]
  rcases Group.apply_spec hg r.policy c with hc | ⟨inner, hc, hm⟩
  · rw [hc] at hap
    exact .inl ⟨update_fault hf hc, update_fault hf' (Checked.map_eq_error hap.symm)⟩
  · rw [hc] at hap
    obtain ⟨inner', hc', heq⟩ := Checked.map_eq_ok hap.symm
    obtain ⟨hstate, hresult⟩ := Prod.mk.inj heq
    have hm' := Checked.of_fault_or_exists (Group.apply_spec hg' r'.policy c) hc'
    have hs := hm.valid hg
    have hs' := hm'.valid hg'
    exact .inr ⟨_, _, _, _, update_some hf hc hs, update_some hf' hc' hs', hresult.symm,
      hv.replace hf hs hm.index_eq, hv'.replace hf' hs' hm'.index_eq,
      replace_find? hf hm.index_eq, replace_find? hf' hm'.index_eq, hstate.symm⟩

/-- Whatever calls follow, two groups with the same assignment answer them alike. -/
theorem Valid.run_assignment (hv : r.Valid) (hv' : r'.Valid) (hf : r.find? h = some g)
    (hf' : r'.find? h' = some g') (ha : g.assignment = g'.assignment) (later : List Group.Call) :
    Prod.snd <$> r.run (later.map (.change h)) = Prod.snd <$> r'.run (later.map (.change h')) := by
  induction later generalizing r r' g g' with
  | nil => rfl
  | cons c cs ih =>
    rw [List.map_cons, List.map_cons, run, run, step, step]
    rcases hv.change_assignment hv' hf hf' ha c with
      ⟨hc, hc'⟩ | ⟨reply, reply', s, s', hc, hc', hresult, hs, hs', hfs, hfs', hsame⟩
    · rw [hc, hc']
      rfl
    · rw [hc, hc', Checked.ok_bind, Checked.ok_bind, hresult]
      have hrest := ih hs hs' hfs hfs' hsame
      have hcollect : ∀ op : Checked (Registry × List (Except ResourceError Answer)),
          Prod.snd <$> (op >>= fun p => return (p.1, reply'.result :: p.2)) =
            (reply'.result :: ·) <$> Prod.snd <$> op := by
        intro op
        cases op <;> rfl
      exact (hcollect _).trans ((congrArg _ hrest).trans (hcollect _).symm)

/-! ## The space of a group -/

/-- The call gave a group its index and its space. -/
def Creates (g : Group) (made : Call × Except ResourceError Answer) : Prop :=
  ∃ key base total, made = (.createGroup key base total, .ok (.handle ⟨key, g.index⟩)) ∧
    g.whole = ⟨base, total⟩ ∧ 0 < total

theorem destroyGroup_groups (r : Registry) (h : GroupHandle)
    (hg : g ∈ (r.destroyGroup h).state.groups) : g ∈ r.groups := by
  unfold destroyGroup at hg
  cases hf : r.find? h with
  | none =>
    rw [hf] at hg
    exact hg
  | some old =>
    rw [hf] at hg
    by_cases hempty : old.functions.isEmpty
    · simp only [hempty] at hg
      exact (List.mem_filter.1 hg).1
    · simp only [hempty] at hg
      exact hg

theorem Valid.step_origin (hv : r.Valid) {c : Call} {reply : Reply Registry ResourceError Answer}
    (hr : r.step c = .ok reply) (hg : g ∈ reply.state.groups) :
    (∃ old ∈ r.groups, old.index = g.index ∧ old.whole = g.whole) ∨
      Creates g (c, reply.result) := by
  cases c with
  | createGroup key base total =>
    obtain ⟨inner, hop, rfl⟩ := Checked.map_eq_ok hr
    rcases Checked.of_fault_or_exists (createGroup_spec r key base total) hop with
      ⟨error, hs, -⟩ | ⟨hpos, -, hs, hresult⟩
    · simp only [Reply.map, hs] at hg
      exact .inl ⟨g, hg, rfl, rfl⟩
    · simp only [Reply.map, hs] at hg
      rcases List.mem_append.1 hg with hg | hg
      · exact .inl ⟨g, hg, rfl, rfl⟩
      · rw [List.mem_singleton.1 hg]
        exact .inr ⟨key, base, total, by rw [Reply.map, hresult]; rfl, rfl, hpos⟩
  | destroyGroup h =>
    cases hr
    exact .inl ⟨g, destroyGroup_groups r h hg, rfl, rfl⟩
  | change h c =>
    rcases hv.change_inv hr with ⟨-, rfl⟩ | ⟨old, inner, hf, -, hm, rfl⟩
    · exact .inl ⟨g, hg, rfl, rfl⟩
    · obtain ⟨x, hx, rfl⟩ := List.mem_map.1 hg
      by_cases hi : x.index = h.index
      · rw [if_pos hi]
        exact .inl ⟨old, (find?_eq_some hf).1, hm.index_eq.symm, hm.whole_eq.symm⟩
      · rw [if_neg hi]
        exact .inl ⟨x, hx, rfl, rfl⟩
  | ask q =>
    rw [step_ask hr] at hg
    exact .inl ⟨g, hg, rfl, rfl⟩

/-- No call changes the index or the space of a group after the one that made it. -/
theorem Valid.run_origin (hv : r.Valid) {calls : List Call}
    {results : List (Except ResourceError Answer)} (hr : r.run calls = .ok (r', results))
    (hg : g ∈ r'.groups) :
    (∃ old ∈ r.groups, old.index = g.index ∧ old.whole = g.whole) ∨
      ∃ made ∈ calls.zip results, Creates g made := by
  induction calls generalizing r results with
  | nil =>
    cases hr
    exact .inl ⟨g, hg, rfl, rfl⟩
  | cons c cs ih =>
    obtain ⟨reply, hstep, hrest⟩ := Checked.bind_eq_ok hr
    obtain ⟨⟨_, later⟩, hlater, hres⟩ := Checked.bind_eq_ok hrest
    cases hres
    have hv' := (Checked.of_fault_or_exists (hv.step_spec c) hstep).1
    rcases ih hv' hlater with ⟨mid, hmid, hindex, hwhole⟩ | ⟨made, hmade, hcreates⟩
    · refine (hv.step_origin hstep hmid).imp ?_ ?_
      · rintro ⟨old, hold, hi, hw⟩
        exact ⟨old, hold, hi.trans hindex, hw.trans hwhole⟩
      · rintro ⟨key, base, total, hmade, hspace, hpos⟩
        exact ⟨_, List.mem_cons_self, key, base, total, hindex ▸ hmade, hwhole ▸ hspace, hpos⟩
    · exact .inr ⟨made, List.mem_cons_of_mem _ hmade, hcreates⟩

/-- The free list of a group is decided by the held ids: two groups of the same space have the same
one, whatever calls came before and under whatever policies. It consists of the maximal runs of ids
that nobody holds, in ascending order, and is the whole space if there is no held range. If the
functions have the same entries as well, all later calls get the same answers. -/
theorem free_list_canonical {policy policy' : RequestPolicy} {calls calls' : List Call}
    {results results' : List (Except ResourceError Answer)}
    (hr : (fresh policy).run calls = .ok (r, results))
    (hr' : (fresh policy').run calls' = .ok (r', results'))
    (hf : r.find? h = some g) (hf' : r'.find? h' = some g') (hw : g.whole = g'.whole)
    (hheld : ∀ q, g.Held q ↔ g'.Held q) :
    g.free = g'.free ∧
      (∀ range, range ∈ g.free.ranges ↔
        Hole (fun q => g.whole.Holds q ∧ ¬ g.Held q) range) ∧
      (g.free.ranges.Pairwise fun a b => a.base + a.count < b.base) ∧
      ((∀ f ∈ g.functions, f.range = none) → ∃ key base total,
        (Call.createGroup key base total, .ok (.handle ⟨key, g.index⟩)) ∈ calls.zip results ∧
          g.free.ranges = [⟨base, total⟩]) ∧
      ((∀ id, g.find? id = g'.find? id) → ∀ later : List Group.Call,
        Prod.snd <$> r.run (later.map (.change h)) =
          Prod.snd <$> r'.run (later.map (.change h'))) := by
  obtain ⟨hv, -⟩ := valid_of_run hr
  obtain ⟨hv', -⟩ := valid_of_run hr'
  have hg := hv.find? hf
  refine ⟨hg.free_unique (hv'.find? hf') hw hheld, hg.mem_free_iff, hg.free.2,
    fun hnone => ?_, fun hentries later => ?_⟩
  · obtain ⟨old, hold, -⟩ | ⟨_, hmade, key, base, total, rfl, hspace, hpos⟩ :=
      (valid_fresh policy).run_origin hr (find?_eq_some hf).1
    · cases hold
    · refine ⟨key, base, total, hmade, ?_⟩
      have hspacious : 0 < g.whole.count := by
        rw [hspace]
        exact hpos
      rw [hg.free_of_unheld hnone hspacious, hspace]
  · exact hv.run_assignment hv' hf hf' (Group.assignment_eq hw hentries) later

/-- Two functions come to the same ranges by different ways: in the other run they were attached the
other way round, in a second group, where one of them grew and a third function came and left. -/
theorem detour_same_free_list :
    ∃ r r' g g' results results',
      (fresh .releaseFirst).run [.createGroup ⟨1, 2⟩ 0 8,
        .change ⟨⟨1, 2⟩, 0⟩ (.createFunction 1), .change ⟨⟨1, 2⟩, 0⟩ (.createFunction 2),
        .change ⟨⟨1, 2⟩, 0⟩ (.requestRange 1 2 (some 1)),
        .change ⟨⟨1, 2⟩, 0⟩ (.requestRange 2 3 (some 4))] = .ok (r, results) ∧
      (fresh .transactional).run [.createGroup ⟨3, 4⟩ 0 4, .createGroup ⟨1, 2⟩ 0 8,
        .change ⟨⟨1, 2⟩, 1⟩ (.createFunction 2), .change ⟨⟨1, 2⟩, 1⟩ (.createFunction 1),
        .change ⟨⟨1, 2⟩, 1⟩ (.createFunction 3), .change ⟨⟨1, 2⟩, 1⟩ (.requestRange 3 4 none),
        .change ⟨⟨1, 2⟩, 1⟩ (.requestRange 2 1 none), .change ⟨⟨1, 2⟩, 1⟩ (.destroyFunction 3),
        .change ⟨⟨1, 2⟩, 1⟩ (.updateFunction 2 3 (some 4)),
        .change ⟨⟨1, 2⟩, 1⟩ (.requestRange 1 2 (some 1))] = .ok (r', results') ∧
      r.find? ⟨⟨1, 2⟩, 0⟩ = some g ∧ r'.find? ⟨⟨1, 2⟩, 1⟩ = some g' ∧ g.functions ≠ g'.functions ∧
      g.free = g'.free ∧ g.free.ranges = [⟨0, 1⟩, ⟨3, 1⟩, ⟨7, 1⟩] ∧
      Prod.snd <$> r.run ([.destroyFunction 1, .requestRange 2 4 none].map (.change ⟨⟨1, 2⟩, 0⟩)) =
        Prod.snd <$>
          r'.run ([.destroyFunction 1, .requestRange 2 4 none].map (.change ⟨⟨1, 2⟩, 1⟩)) := by
  let one : FunctionEntry := ⟨1, some ⟨1, 2⟩, {}⟩
  let two : FunctionEntry := ⟨2, some ⟨4, 3⟩, {}⟩
  let g : Group := ⟨⟨1, 2⟩, 0, ⟨0, 8⟩, ⟨[⟨0, 1⟩, ⟨3, 1⟩, ⟨7, 1⟩]⟩, [one, two], 0⟩
  let g' : Group := ⟨⟨1, 2⟩, 1, ⟨0, 8⟩, ⟨[⟨0, 1⟩, ⟨3, 1⟩, ⟨7, 1⟩]⟩, [two, one], 0⟩
  have hrun : (fresh .releaseFirst).run [.createGroup ⟨1, 2⟩ 0 8,
      .change ⟨⟨1, 2⟩, 0⟩ (.createFunction 1), .change ⟨⟨1, 2⟩, 0⟩ (.createFunction 2),
      .change ⟨⟨1, 2⟩, 0⟩ (.requestRange 1 2 (some 1)),
      .change ⟨⟨1, 2⟩, 0⟩ (.requestRange 2 3 (some 4))] = .ok (⟨.releaseFirst, [g], 1⟩, _) := rfl
  have hrun' : (fresh .transactional).run [.createGroup ⟨3, 4⟩ 0 4, .createGroup ⟨1, 2⟩ 0 8,
      .change ⟨⟨1, 2⟩, 1⟩ (.createFunction 2), .change ⟨⟨1, 2⟩, 1⟩ (.createFunction 1),
      .change ⟨⟨1, 2⟩, 1⟩ (.createFunction 3), .change ⟨⟨1, 2⟩, 1⟩ (.requestRange 3 4 none),
      .change ⟨⟨1, 2⟩, 1⟩ (.requestRange 2 1 none), .change ⟨⟨1, 2⟩, 1⟩ (.destroyFunction 3),
      .change ⟨⟨1, 2⟩, 1⟩ (.updateFunction 2 3 (some 4)),
      .change ⟨⟨1, 2⟩, 1⟩ (.requestRange 1 2 (some 1))] =
        .ok (⟨.transactional, [_, g'], 2⟩, _) := rfl
  have hswap : g.functions.Perm g'.functions := .swap _ _ _
  have hheld : ∀ q, g.Held q ↔ g'.Held q := fun q =>
    ⟨fun ⟨f, hf, hq⟩ => ⟨f, hswap.mem_iff.1 hf, hq⟩, fun ⟨f, hf, hq⟩ => ⟨f, hswap.mem_iff.2 hf, hq⟩⟩
  have hentries : ∀ id, g.find? id = g'.find? id := by
    intro id
    by_cases h1 : id = 1
    · subst h1
      rfl
    · by_cases h2 : id = 2
      · subst h2
        rfl
      · have hnot1 : (1 == id) = false := beq_false_of_ne (Ne.symm h1)
        have hnot2 : (2 == id) = false := beq_false_of_ne (Ne.symm h2)
        simp [Group.find?, g, g', one, two, hnot1, hnot2]
  have hfind : (⟨.releaseFirst, [g], 1⟩ : Registry).find? ⟨⟨1, 2⟩, 0⟩ = some g := rfl
  have hfind' : Registry.find? ⟨.transactional, [⟨⟨3, 4⟩, 0, ⟨0, 4⟩, ⟨[⟨0, 4⟩]⟩, [], 0⟩, g'], 2⟩
      ⟨⟨1, 2⟩, 1⟩ = some g' := rfl
  obtain ⟨hfree, -, -, -, hlater⟩ := free_list_canonical hrun hrun' hfind hfind' rfl hheld
  exact ⟨_, _, g, g', _, _, hrun, hrun', hfind, hfind', by decide, hfree, rfl, hlater hentries _⟩

end Registry

end DmaQueues
