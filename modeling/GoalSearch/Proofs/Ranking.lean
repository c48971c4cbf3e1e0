import GoalSearch.Proofs.Dominance
import GoalSearch.Ranking

/-!
# Fronts over fixed values

The members that nobody dominates are as good as all the members together: whatever some member attains for a goal,
one of them attains, as long as what is not worse than attaining attains (`nonDominated_attains`).
-/

namespace GoalSearch.Ranking

variable {ι α : Type} [DecidableEq ι] [LT α] [DecidableLT α] {value : Goal → ι → α} {goals : List Goal}
  {front members : List ι} {x y : ι}

omit [DecidableEq ι] in
theorem standing_eq : Id.run (standing value goals x front) =
    (front.any fun y => Id.run (Dominance.compare value goals x y) == .gt,
      front.filter fun y => Id.run (Dominance.compare value goals x y) == .lt) := by
  induction front with
  | nil => rfl
  | cons y front ih =>
    unfold standing
    simp only [Id.run_bind, Id.run_pure, ih, List.any_cons, List.filter_cons, Bool.or_comm]

theorem mem_foldl_erase {zs : List ι} (hx : x ∉ zs) : x ∈ zs.foldl List.erase front ↔ x ∈ front := by
  induction zs generalizing front with
  | nil => exact Iff.rfl
  | cons z zs ih =>
    rw [List.mem_cons, not_or] at hx
    rw [List.foldl_cons, ih hx.2, List.mem_erase_of_ne hx.1]

theorem foldl_erase_subset {zs : List ι} : zs.foldl List.erase front ⊆ front := by
  induction zs generalizing front with
  | nil => exact List.Subset.refl _
  | cons z zs ih => exact List.Subset.trans ih List.erase_subset

section
variable {kept : List ι}
omit [DecidableEq ι]

theorem challenger_subset : x :: front ⊆ front ++ x :: members :=
  List.cons_subset.2 ⟨List.mem_append_right _ List.mem_cons_self, List.subset_append_left _ _⟩

theorem others_subset : x :: front ⊆ x :: y :: front := List.cons_subset_cons _ (List.subset_cons_self _ _)

/-- Whoever is kept in the front when a member has joined it was there, or is that member. -/
theorem joined_subset (hkept : kept ⊆ front ++ [x]) : kept ++ members ⊆ front ++ x :: members := by
  rw [List.append_cons]
  exact List.append_subset.2 ⟨List.subset_append_of_subset_left _ hkept, List.subset_append_right _ _⟩

theorem passed_subset : front ++ members ⊆ front ++ x :: members := joined_subset (List.subset_append_left _ _)

theorem filter_joined_subset {p : ι → Bool} : front.filter p ++ [x] ⊆ front ++ [x] :=
  List.append_subset.2 ⟨List.subset_append_of_subset_left _ (List.filter_subset_self _), List.subset_append_right _ _⟩

end

/-- The first front after one more member has been looked at. -/
theorem nonDominated_cons : Id.run (nonDominated value goals front (x :: members)) =
    if ∃ y ∈ front, Id.run (Dominance.compare value goals x y) = .gt then
      Id.run (nonDominated value goals front members)
    else
      Id.run (nonDominated value goals
        ((front.filter fun y => Id.run (Dominance.compare value goals x y) == .lt).foldl List.erase (front ++ [x]))
        members) := by
  rw [nonDominated, Id.run_bind, standing_eq]
  simp only [List.any_eq_true, beq_iff_eq]
  split <;> rfl

theorem nonDominated_subset : Id.run (nonDominated value goals front members) ⊆ front ++ members := by
  induction members generalizing front with
  | nil => exact List.subset_append_left _ _
  | cons x rest ih =>
    rw [nonDominated_cons]
    split
    · exact List.Subset.trans ih passed_subset
    · exact List.Subset.trans ih (joined_subset foldl_erase_subset)

/-- The members that nobody dominates attain what any member attains. -/
theorem nonDominated_attains (attains : α → Prop) {all : List ι} (hirrefl : ∀ a : α, ¬ a < a)
    (hup : ∀ x ∈ all, ∀ y ∈ all, ∀ g ∈ goals,
      attains (value g x) → ¬ value g x < value g y → attains (value g y))
    (hall : front ++ members ⊆ all) {g : Goal} (hg : g ∈ goals) (hx : x ∈ front ++ members)
    (hat : attains (value g x)) :
    ∃ y ∈ Id.run (nonDominated value goals front members), attains (value g y) := by
  induction members generalizing front x with
  | nil => exact ⟨x, by simpa [nonDominated] using hx, hat⟩
  | cons z rest ih =>
    have hz : z ∈ all := hall (by simp)
    have hfront : ∀ y ∈ front, y ∈ all := fun y hy => hall (by simp [hy])
    rw [nonDominated_cons]
    split
    · -- what the dominated member attains, the member that dominates it attains
      rename_i hdom
      obtain ⟨y, hy, hgt⟩ := hdom
      have hsub : front ++ rest ⊆ all := List.Subset.trans passed_subset hall
      by_cases hxz : x = z
      · subst hxz
        refine ih hsub (List.mem_append_left _ hy) ?_
        exact hup x hz y (hfront y hy) g hg hat ((Dominance.compare_eq_gt_iff.1 hgt).2 g hg)
      · exact ih hsub (by simp [hxz] at hx ⊢; exact hx) hat
    · have hmem : ∀ w, Id.run (Dominance.compare value goals z w) ≠ .lt →
          (w ∈ (front.filter fun y => Id.run (Dominance.compare value goals z y) == .lt).foldl List.erase
            (front ++ [z]) ↔ w ∈ front ++ [z]) := by
        intro w hw
        exact mem_foldl_erase (by simp [hw])
      have hself : Id.run (Dominance.compare value goals z z) ≠ .lt := by
        rw [Dominance.compare_self hirrefl]; decide
      have hsub : (front.filter fun y => Id.run (Dominance.compare value goals z y) == .lt).foldl List.erase
          (front ++ [z]) ++ rest ⊆ all := List.Subset.trans (joined_subset foldl_erase_subset) hall
      by_cases hlt : Id.run (Dominance.compare value goals z x) = .lt ∧ x ∈ front
      · -- the new member stands in for those it beats
        refine ih hsub (List.mem_append_left _ ((hmem z hself).2 (by simp))) ?_
        exact hup x (hfront x hlt.2) z hz g hg hat ((Dominance.compare_eq_lt_iff.1 hlt.1).2 g hg)
      · refine ih hsub ?_ hat
        rw [List.mem_append, List.mem_cons] at hx
        rcases hx with hx | rfl | hx
        · exact List.mem_append_left _ ((hmem x fun h => hlt ⟨h, hx⟩).2 (by simp [hx]))
        · exact List.mem_append_left _ ((hmem x hself).2 (by simp))
        · exact List.mem_append_right _ hx

end GoalSearch.Ranking
