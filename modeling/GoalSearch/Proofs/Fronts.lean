import GoalSearch.Proofs.Peeling
import GoalSearch.Proofs.Ranking

/-!
# Ranking peels

Over values on which dominance is a strict order, one pass over the members gives those that nobody dominates
(`nonDominatedFrom_eq`), so ranking peels front after front off the members (`peels_rank`).
-/

namespace GoalSearch.Ranking

open Dominance Peeling

variable {ι α : Type} [DecidableEq ι] [LT α] [DecidableLT α] {value : Goal → ι → α} {goals : List Goal}
  {front members passed rest : List ι} {x : ι}

omit [DecidableEq ι] in
theorem challenge_eq : Id.run (challenge value goals x front) =
    if ∃ y ∈ front, Dominates value goals y x then none
    else some (front.filter fun y => Dominates value goals x y) := by
  induction front with
  | nil => rfl
  | cons y front ih =>
    unfold challenge
    rw [Id.run_bind]
    cases h : Id.run (compare value goals x y) with
    | gt => simp [compare_eq_gt_iff.1 h]
    | lt =>
      have hxy := compare_eq_lt_iff.1 h
      have hyx : ¬ Dominates value goals y x := fun hyx => by rw [compare_eq_gt_iff.2 hyx] at h; cases h
      simp only [Id.run_bind, ih, List.exists_mem_cons_iff, hyx, false_or]
      split <;> simp [hxy]
    | eq =>
      have hxy : ¬ Dominates value goals x y := fun hxy => by rw [compare_eq_lt_iff.2 hxy] at h; cases h
      have hyx : ¬ Dominates value goals y x := fun hyx => by rw [compare_eq_gt_iff.2 hyx] at h; cases h
      simp [ih, hyx, hxy]

/-- The front after one more member has been passed. -/
theorem nonDominatedFrom_cons : Id.run (nonDominatedFrom value goals (fun _ => ()) front (x :: rest)) =
    if ∃ y ∈ front, Dominates value goals y x then
      Id.run (nonDominatedFrom value goals (fun _ => ()) front rest)
    else
      Id.run (nonDominatedFrom value goals (fun _ => ()) (front.filter (¬ Dominates value goals x ·) ++ [x])
        rest) := by
  have hfilter : front.filter (· ∉ front.filter fun y => Dominates value goals x y) =
      front.filter (¬ Dominates value goals x ·) := List.filter_congr fun y hy => by simp [hy]
  rw [nonDominatedFrom, Id.run_bind, challenge_eq]
  by_cases hdom : ∃ y ∈ front, Dominates value goals y x
  · rw [if_pos hdom, if_pos hdom]
  · rw [if_neg hdom, if_neg hdom, ← hfilter]
    rfl

/-- The front holds those of the members passed so far that none of them dominates. -/
theorem nonDominatedFrom_eq (h : Strict (Dominates value goals) (passed ++ rest)) :
    Id.run (nonDominatedFrom value goals (fun _ => ()) (undominated (Dominates value goals) passed) rest) =
      undominated (Dominates value goals) (passed ++ rest) := by
  induction rest generalizing passed with
  | nil => rw [List.append_nil]; rfl
  | cons x rest ih =>
    have happend : passed ++ x :: rest = (passed ++ [x]) ++ rest := by simp
    rw [happend] at h ⊢
    rw [← ih h, (h.mono (List.subset_append_left _ _)).undominated_concat, nonDominatedFrom_cons]
    split <;> rfl

/-! ### Front after front -/

theorem fronts_nil {fuel rank : Nat} : Id.run (fronts value goals (fun _ _ => ()) fuel rank []) = [] := by
  cases fuel <;> rfl

theorem fronts_succ {fuel rank : Nat} (hne : members ≠ [])
    (hfront : Id.run (nonDominatedFrom value goals (fun _ => ()) [] members) = front) :
    Id.run (fronts value goals (fun _ _ => ()) (fuel + 1) rank members) =
      front :: Id.run (fronts value goals (fun _ _ => ()) fuel (rank + 1) (members.filter (· ∉ front))) := by
  rw [fronts, if_neg (by simpa using hne), Id.run_bind, Id.run_bind, Id.run_pure, hfront]

/-- Fewer are left when a front with somebody in it has been taken away. -/
theorem length_filter_lt (hne : front ≠ []) (hsub : front ⊆ members) :
    (members.filter (· ∉ front)).length < members.length := by
  obtain ⟨x, hx⟩ := List.exists_mem_of_ne_nil front hne
  exact List.length_filter_lt_length_iff_exists.2 ⟨x, hsub hx, by simpa using hx⟩

/-- Ranking peels front after front off the members. -/
theorem peels_fronts {fuel rank : Nat} (h : Strict (Dominates value goals) members) (hfuel : members.length ≤ fuel) :
    Peels (Dominates value goals) (Id.run (fronts value goals (fun _ _ => ()) fuel rank members)) members := by
  induction fuel generalizing rank members with
  | zero =>
    rw [List.length_eq_zero_iff.1 (Nat.le_zero.1 hfuel)]
    exact .nil
  | succ fuel ih =>
    rcases eq_or_ne members [] with rfl | hne
    · rw [fronts_nil]
      exact .nil
    · rw [fronts_succ hne (nonDominatedFrom_eq (show Strict _ ([] ++ members) from h))]
      have hlt := length_filter_lt (h.undominated_ne_nil hne) (List.filter_subset_self _)
      exact .cons hne (ih (h.mono (List.filter_subset_self _)) (Nat.le_of_lt_succ (Nat.lt_of_lt_of_le hlt hfuel)))

theorem peels_rank (h : Strict (Dominates value goals) members) :
    Peels (Dominates value goals) (Id.run (rank value goals (fun _ _ => ()) members)) members :=
  peels_fronts h le_rfl

end GoalSearch.Ranking
