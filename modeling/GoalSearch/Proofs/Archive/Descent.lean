import GoalSearch.Proofs.Archive.Partition
import GoalSearch.Proofs.Dependency

/-!
# Coverings that descend

Coverings descend from parents to children as long as no goal is handed in before its parent is covered
(`Descends.submit`). Then whatever was covered at some moment was covered with all its ancestors: moments are the
beginnings of the list of covered goals, and each but the first was announced (`Descends.upward`).
-/

namespace GoalSearch.Archive

variable {ι : Type} {parent : Goal → Option Goal} {a : Archive ι} {goals : List Goal} {size : ι → Nat} {x : ι}
  {g p : Goal}

/-- Every covered goal was covered after its parent. All coverings were announced, with the goals left uncovered. -/
structure Descends (parent : Goal → Option Goal) (a : Archive ι) : Prop where
  partitioned : a.Partitioned
  covered : ParentsFirst parent a.coveredGoals
  announced_goals : a.announced.map (·.goal) = a.coveredGoals
  announced : ∀ n ∈ a.announced, ∃ past, past <+: a.coveredGoals ∧ ∀ g ∈ a.objectives, g ∈ n.uncovered ↔ g ∉ past

/-- Now and behind every covering before, all ancestors of the covered goals are covered. The goals were covered in the
order in which they are listed and announced. -/
structure Upward (parent : Goal → Option Goal) (a : Archive ι) : Prop where
  announced_goals : a.announced.map (·.goal) = a.coveredGoals
  covered : ∀ past, past <+: a.coveredGoals → ∀ g ∈ past, ∀ k, IsAncestor parent k g → k ∈ past
  announced : ∀ n ∈ a.announced, ∀ g ∈ a.objectives, g ∉ n.uncovered → ∀ k, IsAncestor parent k g →
    k ∈ a.objectives ∧ k ∉ n.uncovered

theorem descends_ofGoals : (ofGoals goals : Archive ι).Descends parent where
  partitioned := partitioned_ofGoals goals
  covered := .nil
  announced_goals := rfl
  announced n hn := by cases hn

namespace Descends

theorem upward (h : a.Descends parent) : a.Upward parent where
  announced_goals := h.announced_goals
  covered past hpast g hg k hk := (h.covered.of_prefix hpast).mem_of_isAncestor hg hk
  announced n hn g hg hcovered k hk := by
    obtain ⟨past, hpast, hall⟩ := h.announced n hn
    have hgpast : g ∈ past := not_not.1 fun hg' => hcovered ((hall g hg).2 hg')
    have hkpast := (h.covered.of_prefix hpast).mem_of_isAncestor hgpast hk
    have hkobjective := h.partitioned.coveredGoals_subset (hpast.subset hkpast)
    exact ⟨hkobjective, fun hk' => (hall k hkobjective).1 hk' hkpast⟩

/-- Coverings descend if the parent of the goal is covered before it. -/
theorem submit (h : a.Descends parent) (hg : ∀ p, parent g = some p → p ∈ a.coveredGoals) :
    (a.submit size x g).1.Descends parent := by
  have hpartitioned : (a.submit size x g).1.Partitioned := h.partitioned.submit
  revert hpartitioned
  rcases a.submit_cases size x g with ⟨-, e⟩ | ⟨-, -, e⟩ | ⟨hmem, -, ⟨hu, e⟩ | ⟨hu, e⟩⟩
  all_goals
    rw [e]
    intro hpartitioned
  · exact h
  · exact h
  · have hnew : g ∉ a.coveredGoals := fun hc => h.partitioned.disjoint g hc hu
    have hkeys : (put g x a.covered).map (·.1) = a.coveredGoals ++ [g] := keys_put.trans (if_neg hnew)
    refine ⟨hpartitioned, ?_, ?_, fun n hn => ?_⟩
    · show ParentsFirst parent ((put g x a.covered).map (·.1))
      rw [hkeys]
      exact h.covered.concat hg
    · show (a.announced ++ [_]).map Announcement.goal = (put g x a.covered).map (·.1)
      rw [hkeys, List.map_append, h.announced_goals]
      rfl
    · show ∃ past, past <+: (put g x a.covered).map (·.1) ∧ _
      rw [hkeys]
      rcases List.mem_append.1 hn with hn | hn
      · obtain ⟨past, hpast, hall⟩ := h.announced n hn
        exact ⟨past, hpast.trans (List.prefix_append _ _), hall⟩
      · obtain rfl := List.mem_singleton.1 hn
        refine ⟨_, List.prefix_refl _, fun k hk => ?_⟩
        rw [h.partitioned.uncovered_nodup.mem_erase_iff, List.mem_append, List.mem_singleton, not_or]
        have hcovered : k ∈ a.uncovered ↔ k ∉ a.coveredGoals :=
          ⟨fun hu hc => h.partitioned.disjoint k hc hu, ((h.partitioned.mem_objectives k).1 hk).resolve_left⟩
        rw [hcovered, and_comm]
  · -- the goal is covered already, and keeps its place
    have hold : g ∈ a.coveredGoals := ((h.partitioned.mem_objectives g).1 hmem).resolve_right hu
    have hkeys : (put g x a.covered).map (·.1) = a.coveredGoals := keys_put.trans (if_pos hold)
    refine ⟨hpartitioned, ?_, h.announced_goals.trans hkeys.symm, ?_⟩
    · show ParentsFirst parent ((put g x a.covered).map (·.1))
      rw [hkeys]
      exact h.covered
    · show ∀ n ∈ a.announced, ∃ past, past <+: (put g x a.covered).map (·.1) ∧ _
      rw [hkeys]
      exact h.announced

end Descends

end GoalSearch.Archive
