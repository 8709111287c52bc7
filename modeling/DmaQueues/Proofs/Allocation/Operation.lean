import DmaQueues.Proofs.Allocation.BestFit
import DmaQueues.Proofs.Allocation.Valid

/-!
# What the operations of a group do

Each operation of a valid group is refused and leaves the group as it is, or makes one of
the changes of a group under the condition that keeps it valid. The only fault is the
overflow of `incrementActive` at a function with as many active queues as a word can count.

Both request policies give the same group and the same result (`requestRange_spec`).
-/

namespace DmaQueues.Group

open QueueRange

variable {g : Group} {id : UInt16} {e : FunctionEntry}

/-! ## Swapping ranges -/

/-- The free list with the range of a function returned. -/
def returned (free : FreeList) : Option QueueRange → Checked FreeList
  | some range => free.insert range
  | none => return free

theorem Valid.returned_spec (h : g.Valid) (he : g.find? id = some e) :
    ∃ plan, returned g.free e.range = .ok plan ∧ g.Swap e plan none := by
  obtain ⟨hmem, -⟩ := find?_eq_some he
  cases hr : e.range with
  | none =>
    refine ⟨g.free, rfl, h.free, nofun, nofun, fun q => ?_⟩
    simp [FunctionEntry.Holds, hr]
  | some r =>
    obtain ⟨plan, hp, hwf, hm⟩ := FreeList.insert_spec h.free (h.nonempty e hmem r hr)
      (fun q hq => h.apart e hmem q ⟨r, hr, hq⟩)
      (fun q hq => hq.elim h.free_lt fun hq => h.held_lt hmem ⟨r, hr, hq⟩)
    refine ⟨plan, hp, hwf, nofun, nofun, fun q => ?_⟩
    simp [hm, FunctionEntry.Holds, hr]

theorem Swap.lt (h : g.Valid) (he : g.find? id = some e) {plan : FreeList}
    (hs : g.Swap e plan none) {q : Nat} (hq : plan.Mem q) : q + 1 < wordLimit :=
  (hs.mem_none.1 hq).elim h.free_lt (h.held_lt (find?_eq_some he).1)

/-- A range that the returned free list covers can be taken from it. -/
theorem Swap.take (h : g.Valid) (he : g.find? id = some e) {plan : FreeList}
    (hs : g.Swap e plan none) {want : QueueRange} (hpos : 0 < want.count)
    (hex : ∃ r ∈ plan.ranges, r.Covers want) :
    ∃ free, plan.take want = .ok (.ok free) ∧ g.Swap e free (some want) := by
  obtain ⟨free, ht, hwf, hm⟩ := FreeList.take_spec hs.wellFormed (fun q => hs.lt h he) hpos hex
  refine ⟨free, ht, hwf, ?_, ?_, fun q => ?_⟩
  · rintro r ⟨⟩
    exact hpos
  · rintro r q ⟨⟩ hq
    obtain ⟨s, hsm, hsc⟩ := hex
    exact hs.mem_none.1 ⟨s, hsm, hsc.holds hq⟩
  · rw [hm, hs.mem_none]
    simp

/-- The range of the function can be taken back, which restores the free list. -/
theorem Swap.takeBack (h : g.Valid) (he : g.find? id = some e) {plan : FreeList}
    (hs : g.Swap e plan none) {r : QueueRange} (hr : e.range = some r) :
    plan.take r = .ok (.ok g.free) := by
  obtain ⟨hmem, -⟩ := find?_eq_some he
  have hpos := h.nonempty e hmem r hr
  have hsub : ∀ q, r.Holds q → plan.Mem q := fun q hq => hs.mem_none.2 (.inr ⟨r, hr, hq⟩)
  obtain ⟨free, ht, hwf, hm⟩ := FreeList.take_spec hs.wellFormed (fun q => hs.lt h he) hpos
    (FreeList.exists_covers hs.wellFormed hpos hsub)
  have hfree : free = g.free := by
    refine FreeList.WellFormed.ext hwf h.free fun q => ?_
    have hheld : e.Holds q ↔ r.Holds q := by simp [FunctionEntry.Holds, hr]
    rw [hm, hs.mem_none, hheld]
    have := h.apart e hmem q
    rw [hheld] at this
    by_cases hq : r.Holds q <;> simp_all
  rw [ht, hfree]

/-! ## Changes that cancel -/

theorem modify_self (h : g.Valid) (he : g.find? id = some e) {f : FunctionEntry → FunctionEntry}
    (hf : f e = e) : g.modify id f = g := by
  have : g.functions.map (fun x => if x.id = id then f x else x) = g.functions := by
    refine (List.map_congr_left fun x hx => ?_).trans (List.map_id _)
    by_cases hid : x.id = id
    · rw [if_pos hid, h.eq_of_id hx he hid, hf]
      rfl
    · exact if_neg hid
  unfold modify
  rw [this]

theorem assign_self (h : g.Valid) (he : g.find? id = some e) :
    g.assign id g.free e.range = g :=
  modify_self h he rfl

theorem assign_assign (g : Group) (id : UInt16) (free free' : FreeList)
    (range range' : Option QueueRange) :
    (g.assign id free range).assign id free' range' = g.assign id free' range' := by
  simp only [assign, setRange, modify, List.map_map, Group.mk.injEq, true_and, and_true]
  refine List.map_congr_left fun x _ => ?_
  by_cases hid : x.id = id <;> simp [hid]

/-! ## Requests -/

/-- What a request of an idle function comes to. -/
inductive Requested (g : Group) (id : UInt16) (e : FunctionEntry) (count : Nat) :
    Group → Except ResourceError (Option QueueRange) → Prop where
  | freed {free : FreeList} : count = 0 → g.Swap e free none →
      Requested g id e count (g.assign id free none) (.ok none)
  | given {free : FreeList} {want : QueueRange} : want.count = count →
      g.Swap e free (some want) →
      Requested g id e count (g.assign id free (some want)) (.ok (some want))
  | refused : count ≠ 0 → Requested g id e count g (.error .noQueuesLeft)

theorem requestTransactional_eq (g : Group) (id : UInt16) (old : Option QueueRange)
    (count : Nat) (hint : Option Nat) :
    g.requestTransactional id old count hint = returned g.free old >>= fun plan =>
      if count = 0 then return ⟨g.assign id plan none, .ok none, []⟩
      else do
        match ← plan.find count hint with
        | (none, notices) => return g.refuse .noQueuesLeft (notices ++ [.noRoom id count])
        | (some want, notices) =>
          match ← plan.take want with
          | .error error => return g.refuse error notices
          | .ok free => return ⟨g.assign id free (some want), .ok (some want), notices⟩ := by
  cases old <;> rfl

/-- The part of a releasing request that follows the release. -/
def seek (g : Group) (id : UInt16) (old : Option QueueRange) (count : Nat) (hint : Option Nat) :
    Checked (Reply Group ResourceError (Option QueueRange)) :=
  if count = 0 then return ⟨g, .ok none, []⟩
  else do
    match ← g.free.find count hint with
    | (none, notices) => g.takeBack id old notices
    | (some want, notices) =>
      match ← g.free.take want with
      | .ok free => return ⟨g.assign id free (some want), .ok (some want), notices⟩
      | .error _ => g.takeBack id old notices

theorem requestReleaseFirst_eq (h : g.Valid) (he : g.find? id = some e) (count : Nat)
    (hint : Option Nat) :
    g.requestReleaseFirst id e.range count hint = returned g.free e.range >>= fun plan =>
      (g.assign id plan none).seek id e.range count hint := by
  cases hr : e.range with
  | none =>
    have hself := assign_self h he
    rw [hr] at hself
    simp only [returned, Checked.pure_eq, Checked.ok_bind, hself]
    rfl
  | some r =>
    unfold requestReleaseFirst returned
    cases g.free.insert r <;> rfl

/-- A failed search after the release ends in the group before it. -/
theorem takeBack_eq (h : g.Valid) (he : g.find? id = some e) {plan : FreeList}
    (hs : g.Swap e plan none) (hp : returned g.free e.range = .ok plan) (notices : List Notice) :
    (g.assign id plan none).takeBack id e.range notices =
      .ok (g.refuse .noQueuesLeft notices) := by
  have hself := assign_self h he
  cases hr : e.range with
  | none =>
    rw [hr] at hself hp
    cases hp
    rw [hself]
    rfl
  | some r =>
    rw [hr] at hself
    unfold takeBack
    simp only [assign_free, hs.takeBack h he hr, Checked.ok_bind, Checked.pure_eq]
    have hback := assign_assign g id plan g.free none (some r)
    rw [hself] at hback
    exact congrArg (fun s => Except.ok (refuse s .noQueuesLeft notices)) hback

/-- Both policies come to the same, and the old range is never lost. -/
theorem request_spec (h : g.Valid) (he : g.find? id = some e) (count : Nat) (hint : Option Nat) :
    ∃ state result ns ns', Requested g id e count state result ∧
      g.requestTransactional id e.range count hint = .ok ⟨state, result, ns⟩ ∧
      g.requestReleaseFirst id e.range count hint = .ok ⟨state, result, ns'⟩ ∧
      (∀ i r, .restoreImpossible i r ∉ ns) ∧ ∀ i r, .restoreImpossible i r ∉ ns' := by
  obtain ⟨plan, hp, hs⟩ := h.returned_spec he
  rw [requestTransactional_eq, requestReleaseFirst_eq h he, hp]
  simp only [Checked.ok_bind, seek]
  by_cases hzero : count = 0
  · simp only [if_pos hzero]
    exact ⟨_, _, _, _, .freed hzero hs, rfl, rfl, by simp, by simp⟩
  · obtain ⟨found, notices, hf, hn, hw⟩ :=
      FreeList.find_spec hs.wellFormed (fun q hq => hs.lt h he hq) (Nat.pos_of_ne_zero hzero) hint
    have hnot : ∀ i r, .restoreImpossible i r ∉ notices := fun i r hm => by
      obtain ⟨base, hb⟩ := hn _ hm
      cases hb
    simp only [if_neg hzero, assign_free, hf, Checked.ok_bind]
    cases found with
    | none =>
      simp only [takeBack_eq h he hs hp]
      exact ⟨_, _, _, _, .refused hzero, rfl, rfl, by simpa using hnot, hnot⟩
    | some want =>
      obtain ⟨hcount, hex⟩ := hw want rfl
      obtain ⟨free, ht, hs'⟩ := hs.take h he (by omega) hex
      simp only [ht, Checked.ok_bind, assign_assign]
      exact ⟨_, _, _, _, .given hcount hs', rfl, rfl, hnot, hnot⟩

/-! ## Asking for a range by name -/

theorem requestRange_idle (h : g.Valid) (he : g.find? id = some e) (hidle : e.active.sum = 0)
    (count : Nat) (hint : Option Nat) (policy : RequestPolicy) :
    g.requestRange id count hint policy =
      match policy with
      | .transactional => g.requestTransactional id e.range count hint
      | .releaseFirst => g.requestReleaseFirst id e.range count hint := by
  unfold requestRange
  simp only [he, h.total_eq (find?_eq_some he).1, Checked.ok_bind]
  refine (if_neg (by simpa using hidle)).trans ?_
  cases policy <;> rfl

/-- Both policies answer an idle function alike. -/
theorem requestRange_result (h : g.Valid) (he : g.find? id = some e) (hidle : e.active.sum = 0)
    {count : Nat} {hint : Option Nat} {state : Group}
    {result : Except ResourceError (Option QueueRange)} {ns : List Notice}
    (ht : g.requestTransactional id e.range count hint = .ok ⟨state, result, ns⟩)
    (policy : RequestPolicy) :
    ∃ reply, g.requestRange id count hint policy = .ok reply ∧ reply.result = result := by
  obtain ⟨state', result', ns', ns'', -, ht', hr, -⟩ := request_spec h he count hint
  cases ht.symm.trans ht'
  rw [requestRange_idle h he hidle]
  cases policy with
  | transactional => exact ⟨_, ht, rfl⟩
  | releaseFirst => exact ⟨_, hr, rfl⟩

/-- Ids that are free or its own a function is given as it names them. -/
theorem requestRange_named (h : g.Valid) (he : g.find? id = some e) (hidle : e.active.sum = 0)
    {want : QueueRange} (hpos : 0 < want.count)
    (hsub : ∀ q, want.Holds q → g.free.Mem q ∨ e.Holds q) (policy : RequestPolicy) :
    ∃ reply, g.requestRange id want.count (some want.base) policy = .ok reply ∧
      reply.result = .ok (some want) := by
  obtain ⟨plan, hp, hs⟩ := h.returned_spec he
  have hcovers := FreeList.exists_covers hs.wellFormed hpos fun q hq => hs.mem_none.2 (hsub q hq)
  have hfind := FreeList.find_hint hs.wellFormed (fun q => hs.lt h he) hcovers
  obtain ⟨free, htake, -⟩ := hs.take h he hpos hcovers
  have ht : g.requestTransactional id e.range want.count (some want.base) =
      .ok ⟨g.assign id free (some want), .ok (some want), []⟩ := by
    rw [requestTransactional_eq, hp]
    simp only [Checked.ok_bind, if_neg (Nat.ne_of_gt hpos), hfind, htake]
    rfl
  exact requestRange_result h he hidle ht policy

/-- Nothing is what a function that asks for nothing is given. -/
theorem requestRange_none (h : g.Valid) (he : g.find? id = some e) (hidle : e.active.sum = 0)
    (hint : Option Nat) (policy : RequestPolicy) :
    ∃ reply, g.requestRange id 0 hint policy = .ok reply ∧ reply.result = .ok none := by
  obtain ⟨plan, hp, -⟩ := h.returned_spec he
  have ht : g.requestTransactional id e.range 0 hint =
      .ok ⟨g.assign id plan none, .ok none, []⟩ := by
    rw [requestTransactional_eq, hp]
    rfl
  exact requestRange_result h he hidle ht policy

/-! ## The operations -/

theorem createFunction_eq (g : Group) (id : UInt16) :
    g.createFunction id = .ok
      (if (g.find? id).isSome then g.refuse .alreadyExists else ⟨g.attach id, .ok (), []⟩) := by
  unfold createFunction
  split <;> rfl

theorem destroyFunction_spec (h : g.Valid) (id : UInt16) :
    ∃ reply, g.destroyFunction id = .ok reply ∧
      ((∃ error, reply.state = g ∧ reply.result = .error error) ∨
        ∃ e free, g.find? id = some e ∧ e.active.sum = 0 ∧ g.Swap e free none ∧
          reply = ⟨g.detach id free, .ok (), []⟩) := by
  unfold destroyFunction
  cases he : g.find? id with
  | none => exact ⟨_, rfl, .inl ⟨_, rfl, rfl⟩⟩
  | some e =>
    simp only [h.total_eq (find?_eq_some he).1, Checked.ok_bind]
    by_cases hidle : e.active.sum = 0
    · obtain ⟨free, hp, hs⟩ := h.returned_spec he
      rw [if_neg (by simpa using hidle)]
      refine ⟨_, ?_, .inr ⟨e, free, rfl, hidle, hs, rfl⟩⟩
      cases hr : e.range with
      | none =>
        rw [hr] at hp
        cases hp
        rfl
      | some r =>
        rw [hr] at hp
        simp only [returned] at hp
        simp only [hp]
        rfl
    · rw [if_pos (by simpa using hidle)]
      exact ⟨_, rfl, .inl ⟨_, rfl, rfl⟩⟩

theorem requestRange_spec (h : g.Valid) (id : UInt16) (count : Nat) (hint : Option Nat)
    (policy : RequestPolicy) :
    ∃ reply, g.requestRange id count hint policy = .ok reply ∧
      ((∃ error, reply.state = g ∧ reply.result = .error error) ∨
        ∃ e, g.find? id = some e ∧ e.active.sum = 0 ∧
          Requested g id e count reply.state reply.result) := by
  unfold requestRange
  cases he : g.find? id with
  | none => exact ⟨_, rfl, .inl ⟨_, rfl, rfl⟩⟩
  | some e =>
    simp only [h.total_eq (find?_eq_some he).1, Checked.ok_bind]
    by_cases hidle : e.active.sum = 0
    · obtain ⟨state, result, ns, ns', hreq, ht, hr, -⟩ := request_spec h he count hint
      rw [if_neg (by simpa using hidle)]
      cases policy with
      | transactional => exact ⟨_, ht, .inr ⟨e, rfl, hidle, hreq⟩⟩
      | releaseFirst => exact ⟨_, hr, .inr ⟨e, rfl, hidle, hreq⟩⟩
    · rw [if_pos (by simpa using hidle)]
      exact ⟨_, rfl, .inl ⟨_, rfl, rfl⟩⟩

section

variable {r : QueueRange} (type : QueueType)

/-- A function that holds a range looks at its count of active queues first. -/
theorem incrementActive_eq (h : g.Valid) (he : g.find? id = some e) (hr : e.range = some r) :
    g.incrementActive id type = Checked.add e.active.sum 1 >>= fun wanted =>
      if wanted > r.count then return g.refuse .noQueuesLeft
      else do
        let count ← Checked.add (e.active.get type) 1
        let active ← Checked.add g.active 1
        return ⟨g.recount id type count active, .ok (), []⟩ := by
  unfold incrementActive
  simp only [he, hr, h.total_eq (find?_eq_some he).1, Checked.ok_bind]
  rfl

/-- While its range is not full, a function may have another active queue. -/
theorem incrementActive_room (h : g.Valid) (he : g.find? id = some e) (hr : e.range = some r)
    (hroom : e.active.sum < r.count) :
    g.incrementActive id type =
      .ok ⟨g.recount id type (e.active.get type + 1) (g.active + 1), .ok (), []⟩ := by
  obtain ⟨hmem, -⟩ := find?_eq_some he
  have hsize : e.size = r.count := by simp [FunctionEntry.size, hr]
  have hlt := h.size_lt hmem
  have hget := e.active.get_le_sum type
  have hcap : g.active + 1 < wordLimit := by
    have := h.active_lt_whole hmem (hsize ▸ hroom)
    have := h.whole_lt
    omega
  rw [incrementActive_eq type h he hr, Checked.add_eq (by omega), Checked.ok_bind,
    if_neg (by omega), Checked.add_eq (by omega), Checked.add_eq hcap]
  rfl

theorem incrementActive_full (h : g.Valid) (he : g.find? id = some e) (hr : e.range = some r)
    (hfull : r.count ≤ e.active.sum) (hlt : e.active.sum + 1 < wordLimit) :
    g.incrementActive id type = .ok (g.refuse .noQueuesLeft) := by
  rw [incrementActive_eq type h he hr, Checked.add_eq hlt, Checked.ok_bind, if_pos (by omega)]
  rfl

/-- The count of wanted queues leaves the word before it is compared with the range. -/
theorem incrementActive_overflow (h : g.Valid) (he : g.find? id = some e)
    (hword : e.active.sum + 1 = wordLimit) :
    g.incrementActive id type = .error .addOverflow := by
  have hgate := h.gate e (find?_eq_some he).1
  cases hr : e.range with
  | none =>
    have hsize : e.size = 0 := by simp [FunctionEntry.size, hr]
    have : 1 < wordLimit := by decide
    omega
  | some r =>
    rw [incrementActive_eq type h he hr, Checked.add, if_neg (by omega)]
    rfl

end

/-- One more active queue, unless the range is full. Only a function with as many active queues as
a word can count is a fault. -/
theorem incrementActive_spec (h : g.Valid) (id : UInt16) (type : QueueType) :
    (∃ e, g.find? id = some e ∧ e.active.sum + 1 = wordLimit ∧
      g.incrementActive id type = .error .addOverflow) ∨
    ∃ reply, g.incrementActive id type = .ok reply ∧
      ((∃ error, reply.state = g ∧ reply.result = .error error) ∨
        ∃ e r, g.find? id = some e ∧ e.range = some r ∧ e.active.sum < r.count ∧
          reply = ⟨g.recount id type (e.active.get type + 1) (g.active + 1), .ok (), []⟩) := by
  cases he : g.find? id with
  | none => exact .inr ⟨g.refuse .notFound, by simp [incrementActive, he], .inl ⟨_, rfl, rfl⟩⟩
  | some e =>
    cases hr : e.range with
    | none =>
      exact .inr ⟨g.refuse .notFound, by simp [incrementActive, he, hr], .inl ⟨_, rfl, rfl⟩⟩
    | some r =>
      have hgate := h.gate e (find?_eq_some he).1
      have hlt := h.size_lt (find?_eq_some he).1
      by_cases hroom : e.active.sum < r.count
      · exact .inr ⟨_, incrementActive_room type h he hr hroom, .inr ⟨e, r, rfl, hr, hroom, rfl⟩⟩
      · by_cases hword : e.active.sum + 1 < wordLimit
        · have hfull := incrementActive_full type h he hr (by omega) hword
          exact .inr ⟨_, hfull, .inl ⟨_, rfl, rfl⟩⟩
        · exact .inl ⟨e, rfl, by omega, incrementActive_overflow type h he (by omega)⟩

theorem decrementActive_spec (h : g.Valid) (id : UInt16) (type : QueueType) :
    ∃ reply, g.decrementActive id type = .ok reply ∧
      ((g.find? id = none ∧ reply = g.refuse .notFound) ∨
        (∃ e, g.find? id = some e ∧ e.active.get type = 0 ∧ reply = ⟨g, .ok (), []⟩) ∨
        ∃ e, g.find? id = some e ∧ 0 < e.active.get type ∧ 0 < g.active ∧
          reply = ⟨g.recount id type (e.active.get type - 1) (g.active - 1), .ok (), []⟩) := by
  unfold decrementActive
  cases he : g.find? id with
  | none => exact ⟨_, rfl, .inl ⟨rfl, rfl⟩⟩
  | some e =>
    by_cases hzero : e.active.get type = 0
    · simp only [if_pos hzero]
      exact ⟨_, rfl, .inr (.inl ⟨e, rfl, hzero, rfl⟩)⟩
    · simp only [if_neg hzero]
      refine ⟨_, rfl, .inr (.inr ⟨e, rfl, by omega, ?_, rfl⟩)⟩
      have := e.active.get_le_sum type
      have := h.le_active (find?_eq_some he).1
      omega

end DmaQueues.Group
