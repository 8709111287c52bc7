import DmaQueues.Proofs.Allocation.Active

/-!
# Overflows

Two additions of a registry can leave the word: the index after that of a new group, and the
count that `incrementActive` compares with the range, where a function has as many active
queues as a group can have ids. No call ends in a fault otherwise (`Valid.step_fault_iff`), so
a run does so exactly where it comes to one of the two (`run_fault_iff`). Calls that count
queues lead to the latter (`full_count_faults`).
-/

namespace DmaQueues

open QueueRange

/-- The function holds every id that a group can have, and all its queues are active. -/
def FunctionEntry.Saturated (e : FunctionEntry) : Prop :=
  e.range = some ⟨0, wordLimit - 1⟩ ∧ e.active.sum + 1 = wordLimit

namespace Group

variable {g : Group} {id : UInt16} {e : FunctionEntry} {fault : Fault}

/-- The space of a group is just large enough for a count that fills the word. -/
theorem Valid.saturated (h : g.Valid) (he : g.find? id = some e)
    (hword : e.active.sum + 1 = wordLimit) : e.Saturated := by
  obtain ⟨hmem, -⟩ := find?_eq_some he
  have hgate := h.gate e hmem
  cases hr : e.range with
  | none =>
    have hsize : e.size = 0 := by simp [FunctionEntry.size, hr]
    have : 1 < wordLimit := by decide
    omega
  | some r =>
    have hsize : e.size = r.count := by simp [FunctionEntry.size, hr]
    have hbounded : r.base + r.count < wordLimit := h.limit.mono (h.range_covered hmem hr)
    obtain ⟨base, count⟩ := r
    simp only at hsize hbounded
    obtain rfl : base = 0 := by omega
    obtain rfl : count = wordLimit - 1 := by omega
    exact ⟨hr, hword⟩

theorem incrementActive_fault_iff (h : g.Valid) (id : UInt16) (type : QueueType) :
    g.incrementActive id type = .error fault ↔
      fault = .addOverflow ∧ ∃ e, g.find? id = some e ∧ e.Saturated := by
  constructor
  · intro hfault
    rcases incrementActive_spec h id type with ⟨e, he, hword, hf⟩ | ⟨reply, hr, -⟩
    · cases hf.symm.trans hfault
      exact ⟨rfl, e, he, h.saturated he hword⟩
    · cases hr.symm.trans hfault
  · rintro ⟨rfl, e, he, -, hword⟩
    exact incrementActive_overflow type h he hword

/-- The call counts another queue of a function that has no other. -/
def Overflows (g : Group) : Call → Prop
  | .incrementActive id _ => ∃ e, g.find? id = some e ∧ e.Saturated
  | _ => False

theorem map_ne_fault {α : Type} {op : Checked (Reply Group ResourceError α)} (f : α → Answer)
    (h : ∃ reply, op = .ok reply ∧ g.Move id reply.state) :
    Reply.map f <$> op ≠ .error fault := by
  obtain ⟨reply, rfl, -⟩ := h
  nofun

theorem apply_fault_iff (h : g.Valid) (policy : RequestPolicy) (c : Call) :
    g.apply policy c = .error fault ↔ fault = .addOverflow ∧ g.Overflows c := by
  cases c with
  | createFunction id =>
    exact iff_of_false (map_ne_fault _ (createFunction_move g id)) And.right
  | destroyFunction id =>
    exact iff_of_false (map_ne_fault _ (destroyFunction_move h id)) And.right
  | requestRange id count hint =>
    exact iff_of_false (map_ne_fault _ (requestRange_move h id count hint policy)) And.right
  | updateFunction id count hint =>
    exact iff_of_false (map_ne_fault _ (requestRange_move h id count hint policy)) And.right
  | incrementActive id type =>
    refine Iff.trans ⟨Checked.map_eq_error, fun hf => ?_⟩ (incrementActive_fault_iff h id type)
    rw [apply, hf]
    rfl
  | decrementActive id type =>
    exact iff_of_false (map_ne_fault _ (decrementActive_move h id type)) And.right

end Group

namespace Registry

variable {r r' : Registry} {h : GroupHandle} {id : UInt16} {e : FunctionEntry} {fault : Fault}

/-! ## One call -/

/-- The call takes an addition out of the word: the index after the last, or a count of queues. -/
def Overflows (r : Registry) : Call → Prop
  | .createGroup key base total => r.Accepts key base total ∧ wordLimit ≤ r.next + 1
  | .change h c => ∃ g, r.find? h = some g ∧ g.Overflows c
  | _ => False

theorem createGroup_fault_iff {key : GroupKey} {base total : Nat} :
    r.createGroup key base total = .error fault ↔
      fault = .addOverflow ∧ r.Accepts key base total ∧ wordLimit ≤ r.next + 1 := by
  by_cases h : r.Accepts key base total
  · rw [createGroup_accepted h]
    by_cases hnext : r.next + 1 < wordLimit
    · rw [Checked.add_eq hnext]
      refine iff_of_false (by simp) fun hf => ?_
      have := hf.2.2
      omega
    · rw [Checked.add, if_neg hnext]
      constructor
      · rintro ⟨⟩
        exact ⟨rfl, h, by omega⟩
      · rintro ⟨rfl, -⟩
        rfl
  · obtain ⟨error, hr⟩ := createGroup_refused h
    rw [hr]
    exact iff_of_false (by simp) fun hf => h hf.2.1

theorem Valid.change_fault_iff (hv : r.Valid) {c : Group.Call} :
    r.change h c = .error fault ↔
      fault = .addOverflow ∧ ∃ g, r.find? h = some g ∧ g.Overflows c := by
  rw [change_eq]
  cases hf : r.find? h with
  | none =>
    rw [update_none hf]
    exact iff_of_false nofun (by simp)
  | some g =>
    have hg := hv.find? hf
    simp only [Option.some.injEq, exists_eq_left']
    rw [← Group.apply_fault_iff hg r.policy c]
    cases ha : g.apply r.policy c with
    | error _ =>
      rw [update_fault hf ha]
      simp
    | ok inner =>
      have hmove := Checked.of_fault_or_exists (Group.apply_spec hg r.policy c) ha
      rw [update_some hf ha (hmove.valid hg)]
      exact iff_of_false nofun nofun

/-- A call ends in a fault exactly if it overflows. -/
theorem Valid.step_fault_iff (hv : r.Valid) {c : Call} :
    r.step c = .error fault ↔ fault = .addOverflow ∧ r.Overflows c := by
  cases c with
  | createGroup key base total =>
    refine Iff.trans ⟨Checked.map_eq_error, fun hf => ?_⟩ createGroup_fault_iff
    rw [step, hf]
    rfl
  | destroyGroup h => exact iff_of_false (by simp [step]) And.right
  | change h c => exact hv.change_fault_iff
  | ask q =>
    obtain ⟨result, hq⟩ := hv.answer_ok q
    rw [step, hq]
    exact iff_of_false (by simp) And.right

/-! ## Groups created -/

def Call.creates : Call → Bool
  | .createGroup .. => true
  | _ => false

/-- How many groups some calls with these results created. -/
def groupsCreated (calls : List Call) (results : List (Except ResourceError Answer)) : Nat :=
  (calls.zip results).countP fun p => p.1.creates && p.2.isOk

theorem groupsCreated_cons (c : Call) (calls : List Call) (result : Except ResourceError Answer)
    (results : List (Except ResourceError Answer)) :
    groupsCreated (c :: calls) (result :: results) =
      groupsCreated [c] [result] + groupsCreated calls results := by
  simp only [groupsCreated, List.zip_cons_cons, List.zip_nil_left, List.countP_cons,
    List.countP_nil, Nat.zero_add, Nat.add_comm]

theorem Valid.step_next (hv : r.Valid) {c : Call} {reply : Reply Registry ResourceError Answer}
    (hr : r.step c = .ok reply) :
    reply.state.next = r.next + groupsCreated [c] [reply.result] := by
  cases c with
  | createGroup key base total =>
    obtain ⟨inner, hop, rfl⟩ := Checked.map_eq_ok hr
    rcases Checked.of_fault_or_exists (createGroup_spec r key base total) hop with
      ⟨error, hs, hresult⟩ | ⟨-, -, hs, hresult⟩
    · simp only [Reply.map, hs, hresult]
      rfl
    · simp only [Reply.map, hs, hresult]
      rfl
  | destroyGroup h =>
    cases hr
    exact (destroyGroup_frame r h).2
  | change h c =>
    have hchange : r.change h c = .ok reply := hr
    rcases hv.change_inv hchange with ⟨-, rfl⟩ | ⟨g, inner, -, -, -, rfl⟩ <;> rfl
  | ask q =>
    rw [step_ask hr]
    rfl

/-- The next index is the number of groups created so far. -/
theorem Valid.run_next (hv : r.Valid) {calls : List Call}
    {results : List (Except ResourceError Answer)} (hr : r.run calls = .ok (r', results)) :
    r'.next = r.next + groupsCreated calls results := by
  induction calls generalizing r results with
  | nil =>
    cases hr
    rfl
  | cons c cs ih =>
    obtain ⟨reply, hstep, hrest⟩ := Checked.bind_eq_ok hr
    obtain ⟨⟨_, later⟩, hlater, hres⟩ := Checked.bind_eq_ok hrest
    cases hres
    have hv' := (Checked.of_fault_or_exists (hv.step_spec c) hstep).1
    rw [ih hv' hlater, hv.step_next hstep, groupsCreated_cons c cs, Nat.add_assoc]

/-! ## Runs -/

theorem run_append (r : Registry) (first second : List Call) :
    r.run (first ++ second) = r.run first >>= fun p =>
      p.1.run second >>= fun q => return (q.1, p.2 ++ q.2) := by
  induction first generalizing r with
  | nil =>
    show r.run second = r.run second >>= fun q => return (q.1, q.2)
    cases r.run second <;> rfl
  | cons c cs ih =>
    rw [List.cons_append, run, run]
    cases r.step c with
    | error _ => rfl
    | ok reply =>
      rw [Checked.ok_bind, Checked.ok_bind, ih]
      cases reply.state.run cs with
      | error _ => rfl
      | ok p =>
        simp only [Checked.ok_bind, Checked.pure_eq]
        cases p.1.run second <;> rfl

/-- A run that ends in a fault comes to a call that does. -/
theorem exists_step_of_run {calls : List Call} (hf : r.run calls = .error fault) :
    ∃ earlier c later r' results, calls = earlier ++ c :: later ∧
      r.run earlier = .ok (r', results) ∧ r'.step c = .error fault := by
  induction calls generalizing r with
  | nil => cases hf
  | cons c cs ih =>
    rw [run] at hf
    cases hstep : r.step c with
    | error _ =>
      rw [hstep] at hf
      cases hf
      exact ⟨[], c, cs, r, [], rfl, rfl, hstep⟩
    | ok reply =>
      rw [hstep, Checked.ok_bind] at hf
      cases hrest : reply.state.run cs with
      | ok p =>
        rw [hrest] at hf
        cases hf
      | error _ =>
        rw [hrest] at hf
        cases hf
        obtain ⟨earlier, c', later, r', results, rfl, hrun, hstep'⟩ := ih hrest
        refine ⟨c :: earlier, c', later, r', reply.result :: results, rfl, ?_, hstep'⟩
        rw [run, hstep, Checked.ok_bind, hrun]
        rfl

theorem run_append_ok {r'' : Registry} {first second : List Call}
    {results results' : List (Except ResourceError Answer)}
    (hfirst : r.run first = .ok (r', results)) (hsecond : r'.run second = .ok (r'', results')) :
    r.run (first ++ second) = .ok (r'', results ++ results') := by
  rw [run_append, hfirst, Checked.ok_bind, hsecond]
  rfl

theorem run_fault {earlier later : List Call} {c : Call}
    {results : List (Except ResourceError Answer)} (hrun : r.run earlier = .ok (r', results))
    (hstep : r'.step c = .error fault) : r.run (earlier ++ c :: later) = .error fault := by
  rw [run_append, hrun, Checked.ok_bind, run, hstep]
  rfl

/-- A run ends in a fault exactly if it comes to a call that overflows: one that creates another
group when there were as many as a word can count, or that counts a queue of a function that has
as many active queues as a group can have ids. -/
theorem run_fault_iff {policy : RequestPolicy} {calls : List Call} :
    (fresh policy).run calls = .error fault ↔
      fault = .addOverflow ∧ ∃ earlier c later r results, calls = earlier ++ c :: later ∧
        (fresh policy).run earlier = .ok (r, results) ∧
        r.next = groupsCreated earlier results ∧ r.Overflows c := by
  constructor
  · intro hf
    obtain ⟨earlier, c, later, r, results, rfl, hrun, hstep⟩ := exists_step_of_run hf
    obtain ⟨rfl, hover⟩ := (valid_of_run hrun).1.step_fault_iff.1 hstep
    have hnext := (valid_fresh policy).run_next hrun
    exact ⟨rfl, earlier, c, later, r, results, rfl, hrun, by simpa [fresh] using hnext, hover⟩
  · rintro ⟨rfl, earlier, c, later, r, results, rfl, hrun, -, hover⟩
    exact run_fault hrun ((valid_of_run hrun).1.step_fault_iff.2 ⟨rfl, hover⟩)

/-! ## A count that fills the word -/

/-- As many queues as there is room for can be counted. -/
theorem Valid.run_increments (hv : r.Valid) {range : QueueRange} {n : Nat}
    (he : r.lookup? h id = some e) (type : QueueType) (hrange : e.range = some range)
    (hroom : e.active.sum + n ≤ range.count) :
    ∃ r' results e', r.run (List.replicate n (.change h (.incrementActive id type))) =
        .ok (r', results) ∧ r'.Valid ∧ r'.lookup? h id = some e' ∧ e'.range = some range ∧
      e'.active.sum = e.active.sum + n := by
  -- each call moves one of the `n` queues into the sum, so the bound on both carries over
  induction n generalizing r e with
  | zero => exact ⟨r, [], e, rfl, hv, he, hrange, rfl⟩
  | succ n ih =>
    obtain ⟨g, hf, hge⟩ := lookup?_eq_some he
    have hinc := hv.incrementActive_eq hf hge type hrange (by omega)
    have hstep : r.step (.change h (.incrementActive id type)) = .ok ⟨_, _, _⟩ :=
      congrArg (Reply.map (fun _ => Answer.done) <$> ·) hinc
    have hv' := (hv.incrementActive_kept hinc).valid
    obtain ⟨e₀, he₀, he'⟩ := hv.incremented hinc
    cases he.symm.trans he₀
    have hsum : (e.recount type (e.active.get type + 1)).active.sum = e.active.sum + 1 := by
      have := e.active.sum_set type (e.active.get type + 1)
      rw [FunctionEntry.recount_active]
      omega
    obtain ⟨r', results, e'', hrun, hvalid, hlookup, hrange', hsum'⟩ :=
      ih hv' he' hrange (by omega)
    refine ⟨r', .ok .done :: results, e'', ?_, hvalid, hlookup, hrange', by omega⟩
    rw [List.replicate_succ, run, hstep, Checked.ok_bind]
    simp only [hrun]
    rfl

/-- One group, and one function that holds all of it: every queue can be counted active, and
instead of being refused the next one takes the count out of the word. -/
theorem full_count_faults :
    ∃ r results, (fresh .transactional).run ([.createGroup ⟨0, 0⟩ 0 (wordLimit - 1),
        .change ⟨⟨0, 0⟩, 0⟩ (.createFunction 0),
        .change ⟨⟨0, 0⟩, 0⟩ (.requestRange 0 (wordLimit - 1) none)] ++
        List.replicate (wordLimit - 1) (.change ⟨⟨0, 0⟩, 0⟩ (.incrementActive 0 .h2c))) =
          .ok (r, results) ∧
      r.functionActive ⟨⟨0, 0⟩, 0⟩ 0 = .ok (.ok (wordLimit - 1)) ∧
      r.step (.change ⟨⟨0, 0⟩, 0⟩ (.incrementActive 0 .h2c)) = .error .addOverflow := by
  let whole : QueueRange := ⟨0, wordLimit - 1⟩
  let g : Group := ⟨⟨0, 0⟩, 0, whole, ⟨[]⟩, [⟨0, some whole, {}⟩], 0⟩
  have hstart : (fresh .transactional).run [.createGroup ⟨0, 0⟩ 0 (wordLimit - 1),
      .change ⟨⟨0, 0⟩, 0⟩ (.createFunction 0),
      .change ⟨⟨0, 0⟩, 0⟩ (.requestRange 0 (wordLimit - 1) none)] =
        .ok (⟨.transactional, [g], 1⟩, _) := rfl
  have hentry : (⟨.transactional, [g], 1⟩ : Registry).lookup? ⟨⟨0, 0⟩, 0⟩ 0 =
      some ⟨0, some whole, {}⟩ := rfl
  have hroom : (⟨0, some whole, {}⟩ : FunctionEntry).active.sum + (wordLimit - 1) ≤ whole.count :=
    Nat.le_of_eq (Nat.zero_add _)
  -- there are too many increments to evaluate the rest of the run
  obtain ⟨r, results, e, hrun, hv, he, hrange, hsum⟩ :=
    (valid_of_run hstart).1.run_increments hentry .h2c rfl hroom
  have hcount : e.active.sum = wordLimit - 1 := hsum.trans (Nat.zero_add _)
  obtain ⟨g', hf, hge⟩ := lookup?_eq_some he
  have hover : r.Overflows (.change ⟨⟨0, 0⟩, 0⟩ (.incrementActive 0 .h2c)) :=
    ⟨g', hf, e, hge, hrange, by rw [hcount]; rfl⟩
  exact ⟨r, _, run_append_ok hstart hrun, hcount ▸ hv.functionActive_eq he,
    hv.step_fault_iff.2 ⟨rfl, hover⟩⟩

end Registry

end DmaQueues
