import DmaQueues.Proofs.Allocation.FreeList

/-!
# The choice of a range

A hole is a maximal run of consecutive ids of a set; the ranges of a well-formed free list
are the holes of its ids (`mem_ranges_iff`). `find` is specified on the set: a hint that is
free decides, else the shortest hole that is large enough and the highest of equally short
ones, and nothing is found exactly if no run of ids is long enough (`find_chosen`).
-/

namespace DmaQueues

namespace QueueRange

/-- All ids of the range belong to a set. -/
def Within (r : QueueRange) (ids : Nat → Prop) : Prop :=
  ∀ q, r.Holds q → ids q

/-- Shorter than `s`, or as long and not lower. -/
def Tighter (r s : QueueRange) : Prop :=
  r.count < s.count ∨ r.count = s.count ∧ s.base ≤ r.base

theorem Within.covered {r s : QueueRange} {ids : Nat → Prop} (h : r.Within ids)
    (hc : r.Covers s) : s.Within ids :=
  fun q hq => h q (hc.holds hq)

end QueueRange

open QueueRange

variable {ids : Nat → Prop} {count : Nat} {hint : Option Nat}

/-- A maximal run of consecutive ids of a set. -/
structure Hole (ids : Nat → Prop) (r : QueueRange) : Prop where
  pos : 0 < r.count
  within : r.Within ids
  below : ∀ q, q + 1 = r.base → ¬ ids q
  above : ¬ ids (r.base + r.count)

/-- The shortest hole of at least `count` ids, and the highest of equally short ones. -/
structure BestHole (ids : Nat → Prop) (count : Nat) (r : QueueRange) : Prop where
  hole : Hole ids r
  large : count ≤ r.count
  least : ∀ s, Hole ids s → count ≤ s.count → r.Tighter s

/-- The place for `count` ids of a set: at the hint if it is met, else at the start of the best
hole, and nowhere if no run of ids is long enough. -/
inductive Chosen (ids : Nat → Prop) (count : Nat) (hint : Option Nat) :
    Option QueueRange → Prop where
  | hinted {base : Nat} : hint = some base → base + count < wordLimit →
      (⟨base, count⟩ : QueueRange).Within ids → Chosen ids count hint (some ⟨base, count⟩)
  | fitted {hole : QueueRange} :
      (∀ base, hint = some base →
        ¬ (base + count < wordLimit ∧ (⟨base, count⟩ : QueueRange).Within ids)) →
      BestHole ids count hole → Chosen ids count hint (some ⟨hole.base, count⟩)
  | nowhere : (∀ base, ¬ (⟨base, count⟩ : QueueRange).Within ids) → Chosen ids count hint none

theorem BestHole.within {hole : QueueRange} (h : BestHole ids count hole) :
    (⟨hole.base, count⟩ : QueueRange).Within ids :=
  h.hole.within.covered ⟨Nat.le_refl _, Nat.add_le_add_left h.large _⟩

theorem BestHole.unique {r s : QueueRange} (hr : BestHole ids count r)
    (hs : BestHole ids count s) : r = s := by
  have hrs := hr.least s hs.hole hs.large
  have hsr := hs.least r hr.hole hr.large
  cases r; cases s
  simp only [Tighter, QueueRange.mk.injEq] at hrs hsr ⊢
  omega

theorem Chosen.none_iff {found : Option QueueRange} (h : Chosen ids count hint found) :
    found = none ↔ ∀ base, ¬ (⟨base, count⟩ : QueueRange).Within ids := by
  cases h with
  | hinted _ _ hw => exact ⟨nofun, fun hno => absurd hw (hno _)⟩
  | fitted _ hbest => exact ⟨nofun, fun hno => absurd hbest.within (hno _)⟩
  | nowhere hno => exact ⟨fun _ => hno, fun _ => rfl⟩

theorem Chosen.within {want : QueueRange} (h : Chosen ids count hint (some want)) :
    want.count = count ∧ want.Within ids := by
  cases h with
  | hinted _ _ hw => exact ⟨rfl, hw⟩
  | fitted _ hbest => exact ⟨rfl, hbest.within⟩

/-- There is one choice. -/
theorem Chosen.unique {a b : Option QueueRange} (ha : Chosen ids count hint a)
    (hb : Chosen ids count hint b) : a = b := by
  have hnone := hb.none_iff.trans ha.none_iff.symm
  cases ha with
  | nowhere hno => exact (hnone.2 rfl).symm
  | hinted hbase hlim hw =>
    cases hb with
    | hinted hbase' _ _ =>
      cases hbase.symm.trans hbase'
      rfl
    | fitted hnot _ => exact absurd ⟨hlim, hw⟩ (hnot _ hbase)
    | nowhere hno => exact absurd hw (hno _)
  | fitted hnot hbest =>
    cases hb with
    | hinted hbase hlim hw => exact absurd ⟨hlim, hw⟩ (hnot _ hbase)
    | fitted _ hbest' => rw [hbest.unique hbest']
    | nowhere hno => exact absurd hbest.within (hno _)

namespace FreeList

/-! ## Holes -/

/-- The ranges of a well-formed list are the holes of its ids. -/
theorem Spread.mem_iff_hole {rs : List QueueRange} (h : Spread rs) (r : QueueRange) :
    r ∈ rs ↔ Hole (AnyHolds rs) r := by
  constructor
  · intro hr
    refine ⟨h.1 r hr, fun q hq => ⟨r, hr, hq⟩, ?_, ?_⟩
    · rintro q hbase ⟨s, hs, hq⟩
      simp only [Holds] at hq
      rcases h.eq_or_apart hr hs with rfl | hapart | hapart
      · omega
      · unfold Apart at hapart; omega
      · unfold Apart at hapart; omega
    · rintro ⟨s, hs, hq⟩
      simp only [Holds] at hq
      rcases h.eq_or_apart hr hs with rfl | hapart | hapart
      · omega
      · unfold Apart at hapart; omega
      · unfold Apart at hapart; omega
  · intro hr
    obtain ⟨s, hs, hlo, hhi⟩ := exists_covers (l := ⟨rs⟩) h hr.pos hr.within
    -- an id of `s` next to `r` would belong to the set
    have hbase : s.base = r.base := by
      by_contra hne
      exact hr.below (r.base - 1) (by omega) ⟨s, hs, by omega, by have := hr.pos; omega⟩
    have hcount : s.count = r.count := by
      by_contra hne
      exact hr.above ⟨s, hs, by omega, by omega⟩
    have hsame : s = r := by
      cases r; cases s; simp_all
    exact hsame ▸ hs

theorem mem_ranges_iff {l : FreeList} (hl : l.WellFormed) (r : QueueRange) :
    r ∈ l.ranges ↔ Hole l.Mem r :=
  Spread.mem_iff_hole hl r

/-! ## The scans -/

theorem indexCovering_spec {want : QueueRange} {rs : List QueueRange}
    (hb : ∀ r ∈ rs, r.Bounded) (hw : want.Bounded) :
    ∃ i, indexCovering want rs = .ok i ∧ (i.isSome ↔ ∃ r ∈ rs, r.Covers want) := by
  induction rs with
  | nil => exact ⟨none, rfl, by simp⟩
  | cons a rest ih =>
    unfold indexCovering
    rw [covers_eq (hb a List.mem_cons_self) hw, Checked.ok_bind]
    by_cases hc : a.Covers want
    · rw [if_pos (decide_eq_true hc)]
      exact ⟨some 0, rfl, by simp [hc]⟩
    · obtain ⟨i, hi, hiff⟩ := ih fun r hr => hb r (List.mem_cons_of_mem _ hr)
      rw [if_neg (by simpa using hc), hi]
      exact ⟨i.map (· + 1), rfl, by simp [hc, hiff]⟩

/-- One round of the search for the best fit. -/
def better (count : Nat) (best : Option (QueueRange × Nat)) (entry : QueueRange × Nat) :
    Option (QueueRange × Nat) :=
  if entry.1.count < count then best
  else match best with
    | some b => if b.1.count < entry.1.count then best else some entry
    | none => some entry

/-- `best` is the tightest of the ranges that have at least `count` ids. -/
def Best (count : Nat) (rs : List QueueRange) (best : Option QueueRange) : Prop :=
  match best with
  | none => ∀ s ∈ rs, s.count < count
  | some b => b ∈ rs ∧ count ≤ b.count ∧ ∀ s ∈ rs, count ≤ s.count → Tighter b s

/-- A range that lies above those seen so far wins unless it is too small or longer. -/
theorem Best.better {count : Nat} {seen : List QueueRange} {best : Option (QueueRange × Nat)}
    {entry : QueueRange × Nat} (h : Best count seen (best.map Prod.fst))
    (hlast : ∀ s ∈ seen, s.base ≤ entry.1.base) :
    Best count (seen ++ [entry.1]) ((better count best entry).map Prod.fst) := by
  unfold FreeList.better
  by_cases hsmall : entry.1.count < count
  · rw [if_pos hsmall]
    cases best with
    | none =>
      intro s hs
      rcases List.mem_append.1 hs with hs | hs
      · exact h s hs
      · rw [List.mem_singleton.1 hs]
        exact hsmall
    | some b =>
      obtain ⟨hmem, hlarge, hleast⟩ := h
      refine ⟨List.mem_append_left _ hmem, hlarge, fun s hs hcount => ?_⟩
      rcases List.mem_append.1 hs with hs | hs
      · exact hleast s hs hcount
      · rw [List.mem_singleton.1 hs] at hcount
        omega
  · rw [if_neg hsmall]
    have hself : entry.1 ∈ seen ++ [entry.1] := by simp
    cases best with
    | none =>
      refine ⟨hself, by omega, fun s hs hcount => ?_⟩
      rcases List.mem_append.1 hs with hs | hs
      · have := h s hs
        omega
      · rw [List.mem_singleton.1 hs]
        exact .inr ⟨rfl, Nat.le_refl _⟩
    | some b =>
      obtain ⟨hmem, hlarge, hleast⟩ := h
      by_cases hlonger : b.1.count < entry.1.count
      · simp only [if_pos hlonger]
        refine ⟨List.mem_append_left _ hmem, hlarge, fun s hs hcount => ?_⟩
        rcases List.mem_append.1 hs with hs | hs
        · exact hleast s hs hcount
        · rw [List.mem_singleton.1 hs]
          exact .inl hlonger
      · simp only [if_neg hlonger]
        refine ⟨hself, by omega, fun s hs hcount => ?_⟩
        rcases List.mem_append.1 hs with hs | hs
        · have hbest := hleast s hs hcount
          have hbase := hlast s hs
          unfold Tighter at hbest ⊢
          omega
        · rw [List.mem_singleton.1 hs]
          exact .inr ⟨rfl, Nat.le_refl _⟩

theorem Best.foldl {count : Nat} {entries : List (QueueRange × Nat)} {seen : List QueueRange}
    {best : Option (QueueRange × Nat)} (h : Best count seen (best.map Prod.fst))
    (hsorted : (seen ++ entries.map Prod.fst).Pairwise fun r s => r.base ≤ s.base) :
    Best count (seen ++ entries.map Prod.fst)
      ((entries.foldl (FreeList.better count) best).map Prod.fst) := by
  induction entries generalizing seen best with
  | nil => simpa using h
  | cons entry rest ih =>
    have hlast : ∀ s ∈ seen, s.base ≤ entry.1.base := fun s hs =>
      (List.pairwise_append.1 hsorted).2.2 s hs entry.1 (by simp)
    have hassoc : seen ++ (entry :: rest).map Prod.fst =
        (seen ++ [entry.1]) ++ rest.map Prod.fst := by simp
    rw [hassoc] at hsorted ⊢
    exact ih (h.better hlast) hsorted

theorem bestFit_best {l : FreeList} (hl : l.WellFormed) (count : Nat) :
    Best count l.ranges ((l.bestFit count).map Prod.fst) := by
  have hsorted : (l.ranges.zipIdx.map Prod.fst).Pairwise fun r s => r.base ≤ s.base := by
    rw [List.zipIdx_map_fst]
    exact hl.2.imp fun h => by omega
  have hfold := @Best.foldl count l.ranges.zipIdx [] none (by simp [Best]) hsorted
  rwa [List.nil_append, List.zipIdx_map_fst] at hfold

/-! ## The search -/

/-- Without a hint that is met, the best fit decides. Only the hint is noticed. -/
theorem find_unhinted {l : FreeList} (hl : l.WellFormed) (hb : ∀ q, l.Mem q → q + 1 < wordLimit)
    {count : Nat} {hint : Option Nat}
    (hnot : ∀ base, hint = some base → ¬ ∃ r ∈ l.ranges, r.Covers ⟨base, count⟩) :
    ∃ notices, l.find count hint =
        .ok ((l.bestFit count).map fun best => ⟨best.1.base, count⟩, notices) ∧
      ∀ n ∈ notices, ∃ base, n = .hintNotFree base count := by
  unfold find
  cases hint with
  | none => exact ⟨_, rfl, by simp⟩
  | some base =>
    by_cases hlim : base + count < wordLimit
    · have hwant : (⟨base, count⟩ : QueueRange).Bounded := hlim
      obtain ⟨i, hi, hiff⟩ :=
        indexCovering_spec (fun r hr => Below.bounded hb hr (hl.1 r hr)) hwant
      simp only [findContaining, if_pos hlim, hi, Checked.ok_bind]
      rw [if_neg fun hsome => hnot base rfl (hiff.1 hsome)]
      exact ⟨_, rfl, by simp⟩
    · simp only [findContaining, if_neg hlim]
      exact ⟨_, rfl, by simp⟩

/-- A hint is met if it is free there. -/
theorem find_hint {l : FreeList} {want : QueueRange} (hl : l.WellFormed)
    (hb : ∀ q, l.Mem q → q + 1 < wordLimit) (hex : ∃ r ∈ l.ranges, r.Covers want) :
    l.find want.count (some want.base) = .ok (some want, []) := by
  obtain ⟨r, hr, hc⟩ := hex
  have hwant : want.Bounded := (Below.bounded hb hr (hl.1 r hr)).mono hc
  obtain ⟨i, hi, hiff⟩ := indexCovering_spec (fun r hr => Below.bounded hb hr (hl.1 r hr)) hwant
  have hlim : want.base + want.count < wordLimit := hwant
  simp only [find, findContaining, if_pos hlim, hi, Checked.ok_bind]
  rw [if_pos (hiff.2 ⟨r, hr, hc⟩)]
  rfl

/-- `find` makes the choice among the free ids. -/
theorem find_chosen {l : FreeList} (hl : l.WellFormed) (hb : ∀ q, l.Mem q → q + 1 < wordLimit)
    (hpos : 0 < count) (hint : Option Nat) :
    ∃ found notices, l.find count hint = .ok (found, notices) ∧
      (∀ n ∈ notices, ∃ base, n = .hintNotFree base count) ∧ Chosen l.Mem count hint found := by
  have hcovers : ∀ base, (⟨base, count⟩ : QueueRange).Within l.Mem ↔
      ∃ r ∈ l.ranges, r.Covers ⟨base, count⟩ := fun base =>
    ⟨exists_covers hl hpos, fun ⟨r, hr, hc⟩ q hq => ⟨r, hr, hc.holds hq⟩⟩
  by_cases hmet : ∃ base, hint = some base ∧ ∃ r ∈ l.ranges, r.Covers ⟨base, count⟩
  · obtain ⟨base, rfl, r, hr, hc⟩ := hmet
    have hlim : (⟨base, count⟩ : QueueRange).Bounded := (Below.bounded hb hr (hl.1 r hr)).mono hc
    have hfound : l.find count (some base) = .ok (some ⟨base, count⟩, []) :=
      find_hint hl hb ⟨r, hr, hc⟩
    exact ⟨_, _, hfound, by simp, .hinted rfl hlim ((hcovers base).2 ⟨r, hr, hc⟩)⟩
  · have hnot : ∀ base, hint = some base → ¬ ∃ r ∈ l.ranges, r.Covers ⟨base, count⟩ :=
      fun base hbase hex => hmet ⟨base, hbase, hex⟩
    obtain ⟨notices, hf, hnotices⟩ := find_unhinted hl hb hnot
    refine ⟨_, notices, hf, hnotices, ?_⟩
    have hbest := bestFit_best hl count
    cases hfit : l.bestFit count with
    | none =>
      rw [hfit] at hbest
      refine .nowhere fun base hw => ?_
      obtain ⟨r, hr, hc⟩ := (hcovers base).1 hw
      have hsmall := hbest r hr
      simp only [Covers] at hc
      omega
    | some e =>
      rw [hfit] at hbest
      obtain ⟨hmem, hlarge, hleast⟩ := hbest
      have hhole : BestHole l.Mem count e.1 :=
        ⟨(mem_ranges_iff hl e.1).1 hmem, hlarge,
          fun s hs => hleast s ((mem_ranges_iff hl s).2 hs)⟩
      exact .fitted (fun base hbase hw => hnot base hbase ((hcovers base).1 hw.2)) hhole

/-- What is found has the size asked for and lies in a free range. -/
theorem find_spec {l : FreeList} (hl : l.WellFormed) (hb : ∀ q, l.Mem q → q + 1 < wordLimit)
    (hpos : 0 < count) (hint : Option Nat) :
    ∃ found notices, l.find count hint = .ok (found, notices) ∧
      (∀ n ∈ notices, ∃ base, n = .hintNotFree base count) ∧
      ∀ want, found = some want → want.count = count ∧ ∃ r ∈ l.ranges, r.Covers want := by
  obtain ⟨found, notices, hf, hnotices, hchosen⟩ := find_chosen hl hb hpos hint
  refine ⟨found, notices, hf, hnotices, ?_⟩
  rintro want rfl
  obtain ⟨rfl, hwithin⟩ := hchosen.within
  exact ⟨rfl, exists_covers hl hpos hwithin⟩

end FreeList

end DmaQueues
