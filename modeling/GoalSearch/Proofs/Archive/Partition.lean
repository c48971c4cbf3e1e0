import GoalSearch.Archive
import GoalSearch.Proofs.Distinct
import Mathlib.Data.List.Perm.Basic

/-!
# Objectives are covered or uncovered

`Partitioned`: the covered and the uncovered goals of an archive have no repeats, share no goal, and together
are the objectives. A new archive is partitioned, and submissions, added goals and resets keep it so;
`submit_cases` says all that a submission can do. A snapshot of a partitioned archive lists every objective
once (`snapshot_perm`).
-/

namespace GoalSearch.Archive

variable {ι : Type} {a b : Archive ι} {l : List (Goal × ι)} {g h : Goal} {x : ι} {size : ι → Nat}

/-! ### Lookup and storage -/

theorem find?_put : (put g x l).find? (·.1 == h) = if h = g then some (g, x) else l.find? (·.1 == h) := by
  induction l with
  | nil =>
    by_cases hg : h = g
    · simp [put, hg]
    · simp [put, hg, Ne.symm hg]
  | cons p l ih =>
    obtain ⟨k, y⟩ := p
    by_cases hk : k = g
    · by_cases hg : h = g
      · simp [put, hk, hg]
      · simp [put, hk, hg, Ne.symm hg]
    · by_cases hh : k = h
      · subst hh; simp [put, hk]
      · simp [put, hk, ih, hh]

/-- A new goal comes last. -/
theorem keys_put : (put g x l).map (·.1) = Distinct.adjoin (l.map (·.1)) g := by
  unfold Distinct.adjoin
  induction l with
  | nil => rfl
  | cons p l ih =>
    by_cases hp : p.1 = g
    · simp [put, hp]
    · by_cases hg : g ∈ l.map (·.1) <;> simp_all [put, Ne.symm hp]

@[simp] theorem mem_keys_put : h ∈ (put g x l).map (·.1) ↔ h = g ∨ h ∈ l.map (·.1) := by
  rw [keys_put, Distinct.mem_adjoin, or_comm]

theorem nodup_keys_put (hl : (l.map (·.1)).Nodup) : ((put g x l).map (·.1)).Nodup :=
  keys_put ▸ Distinct.nodup_adjoin hl

theorem isSome_get?_iff : (a.get? g).isSome ↔ g ∈ a.coveredGoals := by
  simp [get?, coveredGoals, List.find?_isSome]

theorem mem_covered_iff (hnodup : a.coveredGoals.Nodup) : (g, x) ∈ a.covered ↔ a.get? g = some x := by
  unfold coveredGoals at hnodup
  unfold get?
  revert hnodup
  induction a.covered with
  | nil => simp
  | cons p l ih =>
    intro hnodup
    rw [List.map_cons, List.nodup_cons] at hnodup
    rw [List.mem_cons, ih hnodup.2, List.find?_cons]
    by_cases hp : p.1 = g
    · have hnone : l.find? (·.1 == g) = none := by
        refine List.find?_eq_none.2 fun q hq hg => hnodup.1 ?_
        rw [hp, ← beq_iff_eq.1 hg]
        exact List.mem_map_of_mem hq
      simp [hp, hnone, Prod.ext_iff, eq_comm]
    · have hne : (g, x) ≠ p := fun e => hp (by rw [← e])
      have hkey : (p.1 == g) = false := by simpa using hp
      simp [hkey, hne]

/-! ### Submissions -/

/-- All that a submission can do. -/
theorem submit_cases (a : Archive ι) (size : ι → Nat) (x : ι) (g : Goal) :
    (g ∉ a.objectives ∧ a.submit size x g = (a, .unknown)) ∨
    (g ∈ a.objectives ∧ (∃ y, a.get? g = some y ∧ size y ≤ size x) ∧ a.submit size x g = (a, .kept)) ∨
    (g ∈ a.objectives ∧ (∀ y, a.get? g = some y → size x < size y) ∧
      ((g ∈ a.uncovered ∧
        a.submit size x g = ({ a with
          covered := put g x a.covered
          uncovered := a.uncovered.erase g
          announced := a.announced ++ [⟨g, a.uncovered.erase g⟩] }, .newlyCovered)) ∨
      (g ∉ a.uncovered ∧ a.submit size x g = ({ a with covered := put g x a.covered }, .replaced)))) := by
  unfold submit
  by_cases hg : g ∈ a.objectives
  · by_cases hy : (a.get? g).any fun y => decide (size y ≤ size x)
    · have hkept : ∃ y, a.get? g = some y ∧ size y ≤ size x := by
        simpa [Option.any_eq_true_iff_get, Option.eq_some_iff_get_eq] using hy
      exact .inr (.inl ⟨hg, hkept, by simp [hg, hy]⟩)
    · have hless : ∀ y, a.get? g = some y → size x < size y := by
        intro y e
        simpa [e] using hy
      by_cases hu : g ∈ a.uncovered
      · exact .inr (.inr ⟨hg, hless, .inl ⟨hu, by simp [hg, hy, hu]⟩⟩)
      · exact .inr (.inr ⟨hg, hless, .inr ⟨hu, by simp [hg, hy, hu]⟩⟩)
  · exact .inl ⟨hg, by simp [hg]⟩

@[simp] theorem objectives_submit : (a.submit size x g).1.objectives = a.objectives := by
  rcases a.submit_cases size x g with ⟨-, h⟩ | ⟨-, -, h⟩ | ⟨-, -, ⟨-, h⟩ | ⟨-, h⟩⟩ <;> rw [h]

theorem coveredGoals_subset_submit : a.coveredGoals ⊆ (a.submit size x g).1.coveredGoals := by
  intro h hh
  rcases a.submit_cases size x g with ⟨-, e⟩ | ⟨-, -, e⟩ | ⟨-, -, ⟨-, e⟩ | ⟨-, e⟩⟩ <;> rw [e]
  · exact hh
  · exact hh
  · exact mem_keys_put.2 (.inr hh)
  · exact mem_keys_put.2 (.inr hh)

/-- A goal keeps its individual unless the new one is smaller. -/
theorem get?_submit : (a.submit size x g).1.get? h =
    if h = g ∧ g ∈ a.objectives then
      match a.get? g with
      | some y => if size x < size y then some x else some y
      | none => some x
    else a.get? h := by
  have hput (b : Archive ι) (hb : b.covered = put g x a.covered) (hg : g ∈ a.objectives)
      (hless : ∀ y, a.get? g = some y → size x < size y) : b.get? h =
        if h = g ∧ g ∈ a.objectives then
          match a.get? g with
          | some y => if size x < size y then some x else some y
          | none => some x
        else a.get? h := by
    by_cases hh : h = g
    · have hx : b.get? h = some x := by simp [get?, hb, find?_put, hh]
      rw [hx, ite_eq_left_iff.2 fun hn => absurd ⟨hh, hg⟩ hn]
      cases e : a.get? g with
      | none => rfl
      | some y => simp [hless y e]
    · simp [get?, hb, find?_put, hh]
  rcases a.submit_cases size x g with ⟨hg, e⟩ | ⟨hg, ⟨y, hy, hle⟩, e⟩ | ⟨hg, hless, ⟨-, e⟩ | ⟨-, e⟩⟩ <;> rw [e]
  · simp [hg]
  · by_cases hh : h = g
    · simp [hh, hg, hy, Nat.not_lt.2 hle]
    · simp [hh]
  · exact hput _ rfl hg hless
  · exact hput _ rfl hg hless

theorem mem_coveredGoals_submit (hg : g ∈ a.objectives) : g ∈ (a.submit size x g).1.coveredGoals := by
  rw [← isSome_get?_iff, get?_submit, if_pos ⟨rfl, hg⟩]
  cases a.get? g with
  | none => rfl
  | some y =>
    dsimp only
    split <;> rfl

/-! ### The partition -/

/-- Every objective is either covered or uncovered, nothing else is, and nothing is listed twice. -/
structure Partitioned (a : Archive ι) : Prop where
  objectives_nodup : a.objectives.Nodup
  covered_nodup : a.coveredGoals.Nodup
  uncovered_nodup : a.uncovered.Nodup
  disjoint : ∀ g ∈ a.coveredGoals, g ∉ a.uncovered
  mem_objectives : ∀ g, g ∈ a.objectives ↔ g ∈ a.coveredGoals ∨ g ∈ a.uncovered

theorem partitioned_ofGoals (goals : List Goal) : (ofGoals goals : Archive ι).Partitioned where
  objectives_nodup := Distinct.nodup_ofList
  covered_nodup := List.nodup_nil
  uncovered_nodup := Distinct.nodup_ofList
  disjoint g hg := by simp [ofGoals, coveredGoals] at hg
  mem_objectives g := by simp [ofGoals, coveredGoals]

namespace Partitioned

theorem coveredGoals_subset (ha : a.Partitioned) : a.coveredGoals ⊆ a.objectives :=
  fun g hg => (ha.mem_objectives g).2 (.inl hg)

theorem uncovered_subset (ha : a.Partitioned) : a.uncovered ⊆ a.objectives :=
  fun g hg => (ha.mem_objectives g).2 (.inr hg)

theorem submit (ha : a.Partitioned) : (a.submit size x g).1.Partitioned := by
  rcases a.submit_cases size x g with ⟨-, e⟩ | ⟨-, -, e⟩ | ⟨hg, -, ⟨hu, e⟩ | ⟨hu, e⟩⟩ <;> rw [e]
  · exact ha
  · exact ha
  · refine ⟨ha.objectives_nodup, nodup_keys_put ha.covered_nodup, ha.uncovered_nodup.erase g, ?_, ?_⟩
    · intro h hh hh'
      obtain ⟨hne, hh'⟩ := ha.uncovered_nodup.mem_erase_iff.1 hh'
      exact ha.disjoint h ((mem_keys_put.1 hh).resolve_left hne) hh'
    · intro h
      show h ∈ a.objectives ↔ h ∈ (put g x a.covered).map (·.1) ∨ h ∈ a.uncovered.erase g
      rw [mem_keys_put, ha.uncovered_nodup.mem_erase_iff, ha.mem_objectives]
      by_cases hh : h = g
      · simp [hh, hu]
      · simp [hh, coveredGoals]
  · -- the goal is covered already, so only its individual changes
    have hc : g ∈ a.coveredGoals := ((ha.mem_objectives g).1 hg).resolve_right hu
    refine ⟨ha.objectives_nodup, nodup_keys_put ha.covered_nodup, ha.uncovered_nodup, ?_, ?_⟩
    · intro h hh
      rcases mem_keys_put.1 hh with rfl | hh
      · exact hu
      · exact ha.disjoint h hh
    · intro h
      show h ∈ a.objectives ↔ h ∈ (put g x a.covered).map (·.1) ∨ h ∈ a.uncovered
      rw [mem_keys_put, ha.mem_objectives]
      by_cases hh : h = g
      · simp [hh, hc]
      · simp [hh, coveredGoals]

theorem addGoal (ha : a.Partitioned) (g : Goal) : (a.addGoal g).Partitioned := by
  unfold Archive.addGoal
  split
  · exact ha
  · rename_i hg
    have hc : g ∉ a.coveredGoals := fun h => hg (ha.coveredGoals_subset h)
    refine ⟨List.nodup_append'.2 ⟨ha.objectives_nodup, List.nodup_singleton g, by simpa using hg⟩,
      ha.covered_nodup, Distinct.nodup_adjoin ha.uncovered_nodup, ?_, ?_⟩
    · intro h hh hh'
      rcases Distinct.mem_adjoin.1 hh' with hh' | rfl
      · exact ha.disjoint h hh hh'
      · exact hc hh
    · intro h
      show h ∈ a.objectives ++ [g] ↔ h ∈ a.coveredGoals ∨ h ∈ Distinct.adjoin a.uncovered g
      rw [List.mem_append, List.mem_singleton, Distinct.mem_adjoin, ha.mem_objectives, or_assoc]

theorem reset (ha : a.Partitioned) : a.reset.Partitioned where
  objectives_nodup := ha.objectives_nodup
  covered_nodup := List.nodup_nil
  uncovered_nodup := Distinct.nodup_foldl_adjoin ha.uncovered_nodup
  disjoint g hg := by simp [Archive.reset, coveredGoals] at hg
  mem_objectives g := by
    show g ∈ a.objectives ↔ g ∈ ([] : List Goal) ∨ g ∈ a.objectives.foldl Distinct.adjoin a.uncovered
    rw [Distinct.mem_foldl_adjoin]
    exact ⟨fun h => .inr (.inr h), fun h => h.elim (by simp) fun h => h.elim (ha.uncovered_subset ·) id⟩

/-! ### Snapshots -/

variable [DecidableEq ι]

theorem snapshot_covered : (a.snapshot size).covered = a.objectives.filter (· ∈ a.coveredGoals) := by
  refine List.filter_congr fun g _ => ?_
  rw [Bool.eq_iff_iff, isSome_get?_iff, decide_eq_true_iff]

theorem snapshot_perm (ha : a.Partitioned) :
    ((a.snapshot size).covered ++ (a.snapshot size).uncovered).Perm a.objectives := by
  rw [snapshot_covered]
  show (_ ++ a.uncovered).Perm _
  refine (List.perm_ext_iff_of_nodup ?_ ha.objectives_nodup).2 fun g => ?_
  · refine List.nodup_append'.2 ⟨ha.objectives_nodup.filter _, ha.uncovered_nodup, ?_⟩
    exact fun g hg => ha.disjoint g (by simpa using (List.mem_filter.1 hg).2)
  · simp only [List.mem_append, List.mem_filter, decide_eq_true_eq]
    rw [ha.mem_objectives]
    tauto

theorem length_snapshot_covered (ha : a.Partitioned) :
    (a.snapshot size).covered.length = a.coveredGoals.length := by
  rw [snapshot_covered]
  refine ((List.perm_ext_iff_of_nodup (ha.objectives_nodup.filter _) ha.covered_nodup).2 fun g => ?_).length_eq
  simpa using fun hg => ha.coveredGoals_subset hg

theorem snapshot_coverage (ha : a.Partitioned) :
    (a.snapshot size).coverage = coverageRatio a.coveredGoals.length a.objectives.length := by
  unfold Snapshot.coverage
  rw [← List.length_append, ha.snapshot_perm.length_eq, ha.length_snapshot_covered]

end Partitioned

end GoalSearch.Archive
