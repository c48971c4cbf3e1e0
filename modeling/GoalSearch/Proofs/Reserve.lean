import GoalSearch.Proofs.Fitness
import GoalSearch.Proofs.Survival

/-!
# The best performers survive

For every goal some reserved member is as good as any member of the union, also where the best performer was
reserved for another goal before (`bestPerGoal_attains`). So if nobody has to give up the place, the best fitness
for each goal among the survivors is the best in the union (`least_survivors`).
-/

namespace GoalSearch.Survival

variable {ι : Type} [DecidableEq ι] {value : Goal → ι → Float} {dist : ι → Float}
  {members union reserved : List ι} {goals : List Goal}

omit [DecidableEq ι] in
/-- Somebody is the best. -/
theorem exists_best {v : ι → Float} (hne : members ≠ []) (hv : ∀ x ∈ members, ¬ Binary64.isNaN (v x) = true) :
    ∃ x ∈ members, ∀ y ∈ members, ¬ v y < v x := by
  have hvalues : ∀ w ∈ members.map v, ¬ Binary64.isNaN w = true := by simpa using hv
  obtain ⟨x, hx, hleast⟩ := List.mem_map.1
    (Fitness.least_mem (fun h => hne (List.map_eq_nil_iff.1 h)) hvalues Fitness.worst)
  exact ⟨x, hx, fun y hy => hleast ▸ Fitness.not_lt_least hvalues _ _ (List.mem_map_of_mem hy)⟩

theorem best_eq_none {v : ι → Float} {found : Option (ι × Float)}
    (h : Id.run (best v reserved found members) = none) : found = none ∧ members ⊆ reserved := by
  induction members generalizing found with
  | nil => exact ⟨h, List.nil_subset _⟩
  | cons y rest ih =>
    unfold best at h
    split at h
    · exact (ih h).imp_right fun hrest => List.cons_subset.2 ⟨‹_›, hrest⟩
    · rw [Id.run_bind] at h
      split at h
      · have hfound := (ih h).1
        split at hfound <;> cases hfound
      · cases (ih h).1

theorem best_value {v : ι → Float} {z : ι} {u : Float} :
    (Id.run (best v reserved (some (z, u)) members)).map (·.2) =
      some (((members.filter (· ∉ reserved)).map v).foldl (fun a b => if b < a then b else a) u) := by
  induction members generalizing z u with
  | nil => rfl
  | cons y rest ih =>
    unfold best
    split
    · rw [List.filter_cons_of_neg (by simpa using ‹y ∈ reserved›)]
      exact ih
    · rw [List.filter_cons_of_pos (by simpa using ‹y ∉ reserved›), List.map_cons, List.foldl_cons, Id.run_bind]
      show Option.map _ (Id.run (best v reserved (if v y < u then some (y, v y) else some (z, u)) rest)) = _
      split <;> exact ih

/-- The best has the least value of those who are not taken. -/
theorem best_eq_least {v : ι → Float} {x : ι} {w : Float} (h : Id.run (best v reserved none members) = some (x, w)) :
    w = Fitness.least Fitness.worst ((members.filter (· ∉ reserved)).map v) := by
  induction members with
  | nil => cases h
  | cons y rest ih =>
    unfold best at h
    split at h
    · rw [List.filter_cons_of_neg (by simpa using ‹y ∈ reserved›)]
      exact ih h
    · rw [List.filter_cons_of_pos (by simpa using ‹y ∉ reserved›)]
      have hvalue : (Id.run (best v reserved (some (y, v y)) rest)).map (·.2) = some w := congrArg _ h
      rw [best_value] at hvalue
      exact (Option.some.inj hvalue).symm

theorem not_lt_best {v : ι → Float} {x : ι} {w : Float} (hv : ∀ y ∈ members, ¬ Binary64.isNaN (v y) = true)
    (h : Id.run (best v reserved none members) = some (x, w)) : ∀ y ∈ members, y ∉ reserved → ¬ v y < w := by
  intro y hy hfree
  rw [best_eq_least h]
  refine Fitness.not_lt_least (fun w hw => ?_) _ _ (List.mem_map_of_mem (by simpa using ⟨hy, hfree⟩))
  obtain ⟨z, hz, rfl⟩ := List.mem_map.1 hw
  exact hv z (List.mem_filter.1 hz).1

/-! ### Every goal has its best performer -/

omit [DecidableEq ι] in
/-- Among those of whom nobody outside is better, somebody is the best of all. -/
theorem exists_best_of_subset {v : ι → Float} (hv : ∀ x ∈ union, ¬ Binary64.isNaN (v x) = true) (hne : members ≠ [])
    (hsub : members ⊆ union) (hrest : ∀ y ∈ union, y ∉ members → ∃ x ∈ members, ¬ v y < v x) :
    ∃ x ∈ members, ∀ y ∈ union, ¬ v y < v x := by
  obtain ⟨x, hx, hbest⟩ := exists_best hne fun y hy => hv y (hsub hy)
  refine ⟨x, hx, fun y hy hlt => ?_⟩
  by_cases hy' : y ∈ members
  · exact hbest y hy' hlt
  · obtain ⟨z, hz, hyz⟩ := hrest y hy hy'
    exact hyz (Binary64.lt_of_lt_of_not_lt (hv z (hsub hz)) hlt (hbest z hz))

theorem subset_bestPerGoal : reserved ⊆ Id.run (bestPerGoal value union reserved goals) := by
  induction goals generalizing reserved with
  | nil => exact List.Subset.refl _
  | cons g goals ih =>
    unfold bestPerGoal
    rw [Id.run_bind]
    split
    · exact List.Subset.trans (List.subset_append_left _ _) ih
    · exact List.Subset.refl _

theorem length_bestPerGoal_le :
    (Id.run (bestPerGoal value union reserved goals)).length ≤ reserved.length + goals.length := by
  induction goals generalizing reserved with
  | nil => exact le_rfl
  | cons g goals ih =>
    unfold bestPerGoal
    rw [Id.run_bind]
    split
    · refine ih.trans ?_
      rw [List.length_append, List.length_singleton, List.length_cons]
      omega
    · exact Nat.le_add_right _ _

/-- For every goal somebody is reserved who is as good as anybody in the union. -/
theorem bestPerGoal_attains (hvalue : ∀ g ∈ goals, ∀ x ∈ union, ¬ Binary64.isNaN (value g x) = true)
    (hne : union ≠ []) (hsub : reserved ⊆ union) :
    ∀ g ∈ goals, ∃ x ∈ Id.run (bestPerGoal value union reserved goals), ∀ y ∈ union, ¬ value g y < value g x := by
  induction goals generalizing reserved with
  | nil => simp
  | cons g goals ih =>
    have hg : ∀ x ∈ union, ¬ Binary64.isNaN (value g x) = true := hvalue g (by simp)
    unfold bestPerGoal
    rw [Id.run_bind]
    split
    · rename_i x w hbest
      obtain ⟨hx, -, rfl⟩ := (best_eq_some hbest).resolve_right (by rintro ⟨⟩)
      have hsub : reserved ++ [x] ⊆ union := List.append_subset.2 ⟨hsub, by simpa using hx⟩
      refine List.forall_mem_cons.2 ⟨?_, ih (fun h hh => hvalue h (by simp [hh])) hsub⟩
      -- whoever beats the new one is reserved already
      obtain ⟨m, hm, hmin⟩ := exists_best_of_subset hg (by simp) hsub fun y hy hfree =>
        ⟨x, by simp, not_lt_best hg hbest y hy fun hy' => hfree (by simp [hy'])⟩
      exact ⟨m, subset_bestPerGoal hm, hmin⟩
    · -- all of the union is reserved
      rename_i hbest
      have hall : union ⊆ reserved := (best_eq_none hbest).2
      intro k hk
      obtain ⟨x, hx, hmin⟩ := exists_best hne (hvalue k hk)
      exact ⟨x, hall hx, hmin⟩

/-! ### The best survive -/

omit [DecidableEq ι] in
/-- If some of the members are as good as any of the union, their least value is that of the union. -/
theorem least_beq {v : ι → Float} (hv : ∀ x ∈ union, ¬ Binary64.isNaN (v x) = true) (hsub : members ⊆ union)
    (hattain : union ≠ [] → ∃ x ∈ members, ∀ y ∈ union, ¬ v y < v x) :
    (Fitness.least Fitness.worst (members.map v) == Fitness.least Fitness.worst (union.map v)) = true := by
  by_cases hne : union = []
  · subst hne
    rw [List.subset_nil.1 hsub]
    show (Fitness.worst == Fitness.worst) = true
    decide +kernel
  · obtain ⟨x, hx, hmin⟩ := hattain hne
    have hunion : ∀ w ∈ union.map v, ¬ Binary64.isNaN w = true := by simpa using hv
    have hmembers : ∀ w ∈ members.map v, ¬ Binary64.isNaN w = true := fun w hw => hunion w (List.map_subset v hsub hw)
    have hin := Fitness.least_mem (fun h => List.ne_nil_of_mem hx (List.map_eq_nil_iff.1 h)) hmembers Fitness.worst
    have hin' := Fitness.least_mem (fun h => hne (List.map_eq_nil_iff.1 h)) hunion Fitness.worst
    have hle := Fitness.not_lt_least hunion Fitness.worst _ (List.map_subset v hsub hin)
    have hle' := Fitness.not_lt_least hmembers Fitness.worst _ (List.mem_map_of_mem hx)
    refine Binary64.beq_of_not_lt (hmembers _ hin) (hunion _ hin') hle fun hlt => ?_
    obtain ⟨y, hy, hleast⟩ := List.mem_map.1 hin'
    exact hmin y hy (hleast ▸ Binary64.lt_of_lt_of_not_lt (hv x (hsub hx)) hlt hle')

/-- If all who are reserved keep their places, the best fitness for each goal survives. -/
theorem least_survivors (hvalue : ∀ g ∈ goals, ∀ x ∈ union, ¬ Binary64.isNaN (value g x) = true) {capacity : Int}
    {fronts : List (List ι)} (hcapacity : (goals.length : Int) ≤ capacity) (hfronts : fronts.flatten ⊆ union) :
    ∀ g ∈ goals,
      (Fitness.least Fitness.worst
          ((Id.run (survivors value dist true capacity union fronts goals)).map (value g)) ==
        Fitness.least Fitness.worst (union.map (value g))) = true := by
  intro g hg
  have hlength : (Id.run (bestPerGoal value union [] goals)).length ≤ [].length + goals.length :=
    length_bestPerGoal_le
  have hreserved : Id.run (bestPerGoal value union [] goals) ⊆
      Id.run (survivors value dist true capacity union fronts goals) := by
    rw [survivors_eq]
    refine List.subset_append_of_subset_left _ ?_
    show _ ⊆ Id.run (reserve value dist union goals capacity)
    unfold reserve
    rw [Id.run_bind, if_neg (by simp at hlength; omega)]
    exact List.Subset.refl _
  refine least_beq (hvalue g hg) ?_ fun hne => ?_
  · exact List.Subset.trans survivors_subset (List.append_subset.2 ⟨List.Subset.refl _, hfronts⟩)
  · obtain ⟨x, hx, hmin⟩ := bestPerGoal_attains hvalue hne (List.nil_subset _) g hg
    exact ⟨x, hreserved hx, hmin⟩

end GoalSearch.Survival
