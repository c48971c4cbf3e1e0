import GoalSearch.Proofs.Sorting
import GoalSearch.Survival
import Mathlib.Data.List.Nodup
import Mathlib.Data.List.Perm.Subperm

/-!
# Survivors over fixed values

With fixed fitness values and distances the survivors are members of the union or of the fronts
(`survivors_subset`). If the fronts partition a union without repeats, nobody survives twice (`nodup_survivors`), and
as many survive as there are places, or all if there are places enough (`length_survivors`).
-/

namespace GoalSearch.Survival

variable {ι α : Type} [DecidableEq ι] [LT α] [DecidableLT α] {value : Goal → ι → α} {dist : ι → α}
  {members union reserved : List ι} {goals : List Goal}

omit [DecidableEq ι] in
theorem byDistance_eq : Id.run (byDistance dist members) =
    (Sorting.sortDescending (fun a b => decide (a.2 < b.2)) (members.map fun x => (x, dist x))).map (·.1) := by
  have hscored : Id.run (members.mapM fun x => (do return (x, ← dist x) : Id (ι × α))) =
      members.map fun x => (x, dist x) := by
    rw [List.idRun_mapM]; rfl
  unfold byDistance
  rw [Id.run_bind, hscored, Id.run_pure]

omit [DecidableEq ι] in
theorem byDistance_perm : (Id.run (byDistance dist members)).Perm members := by
  rw [byDistance_eq]
  have hperm := (Sorting.sortDescending_perm (fun a b : ι × α => decide (a.2 < b.2))
    (members.map fun x => (x, dist x))).map (·.1)
  simpa [Function.comp_def] using hperm

omit [DecidableEq ι] in
theorem first_subset {count : Int} : first count members ⊆ members := by
  unfold first
  split <;> exact List.take_subset _ _

/-- The best member is one that is not taken, with its value, or the one found before. -/
theorem best_eq_some {v : ι → α} {found : Option (ι × α)} {x : ι} {w : α}
    (h : Id.run (best v reserved found members) = some (x, w)) :
    x ∈ members ∧ x ∉ reserved ∧ w = v x ∨ found = some (x, w) := by
  induction members generalizing found with
  | nil => exact .inr h
  | cons y rest ih =>
    unfold best at h
    split at h
    · exact (ih h).imp_left fun ⟨hx, hr⟩ => ⟨List.mem_cons_of_mem y hx, hr⟩
    · rename_i hy
      have hself : some (y, v y) = some (x, w) → x ∈ y :: rest ∧ x ∉ reserved ∧ w = v x := by
        rintro ⟨⟩
        exact ⟨List.mem_cons_self, hy, rfl⟩
      have hrest : x ∈ rest ∧ x ∉ reserved ∧ w = v x → x ∈ y :: rest ∧ x ∉ reserved ∧ w = v x :=
        fun ⟨hx, hr⟩ => ⟨List.mem_cons_of_mem y hx, hr⟩
      rw [Id.run_bind] at h
      split at h
      · rcases ih h with h | h
        · exact .inl (hrest h)
        · split at h
          · exact .inl (hself h)
          · exact .inr h
      · exact .inl ((ih h).elim hrest hself)

theorem bestPerGoal_subset : Id.run (bestPerGoal value union reserved goals) ⊆ reserved ++ union := by
  induction goals generalizing reserved with
  | nil => exact List.subset_append_left _ _
  | cons g goals ih =>
    unfold bestPerGoal
    rw [Id.run_bind]
    split
    · rename_i x w hbest
      have hx : x ∈ union := ((best_eq_some hbest).resolve_right (by rintro ⟨⟩)).1
      refine List.Subset.trans ih fun y hy => ?_
      simp only [List.mem_append, List.mem_singleton] at hy ⊢
      rcases hy with (hy | rfl) | hy
      · exact .inl hy
      · exact .inr hx
      · exact .inr hy
    · exact List.subset_append_left _ _

theorem reserve_subset {capacity : Int} : Id.run (reserve value dist union goals capacity) ⊆ union := by
  unfold reserve
  rw [Id.run_bind]
  have h : Id.run (bestPerGoal value union [] goals) ⊆ union := bestPerGoal_subset
  split
  · rw [Id.run_bind, Id.run_pure]
    exact List.Subset.trans first_subset (List.Subset.trans byDistance_perm.subset h)
  · exact h

theorem fill_subset {places : Nat} {fronts : List (List ι)} :
    Id.run (fill dist reserved places fronts) ⊆ fronts.flatten := by
  induction fronts generalizing places with
  | nil => cases places <;> exact List.Subset.refl _
  | cons front fronts ih =>
    cases places with
    | zero => exact List.nil_subset _
    | succ places =>
      have hfront : front.filter (· ∉ reserved) ⊆ front := fun y hy => (List.mem_filter.1 hy).1
      unfold fill
      dsimp only
      split
      · rw [Id.run_bind, Id.run_pure]
        intro y hy
        rw [List.flatten_cons, List.mem_append]
        exact (List.mem_append.1 hy).imp (hfront ·) (ih ·)
      · rw [Id.run_bind, Id.run_pure]
        intro y hy
        rw [List.flatten_cons, List.mem_append]
        exact .inl (hfront (byDistance_perm.subset (List.take_subset _ _ hy)))

/-! ### How many survive -/

theorem nodup_bestPerGoal (h : reserved.Nodup) : (Id.run (bestPerGoal value union reserved goals)).Nodup := by
  induction goals generalizing reserved with
  | nil => exact h
  | cons g goals ih =>
    unfold bestPerGoal
    rw [Id.run_bind]
    split
    · rename_i x w hbest
      have hx : x ∉ reserved := ((best_eq_some hbest).resolve_right (by rintro ⟨⟩)).2.1
      exact ih (List.nodup_append'.2 ⟨h, List.nodup_singleton x, by simpa using hx⟩)
    · exact h

theorem nodup_reserve {capacity : Int} : (Id.run (reserve value dist union goals capacity)).Nodup := by
  have h : (Id.run (bestPerGoal value union [] goals)).Nodup := nodup_bestPerGoal List.nodup_nil
  unfold reserve
  rw [Id.run_bind]
  split
  · rw [Id.run_bind, Id.run_pure]
    unfold first
    have hsorted : (Id.run (byDistance dist (Id.run (bestPerGoal value union [] goals)))).Nodup :=
      byDistance_perm.nodup_iff.2 h
    split <;> exact hsorted.sublist (List.take_sublist _ _)
  · exact h

theorem length_reserve_le {capacity : Int} (h : 0 ≤ capacity) :
    ((Id.run (reserve value dist union goals capacity)).length : Int) ≤ capacity := by
  unfold reserve
  rw [Id.run_bind]
  split
  · rw [Id.run_bind, Id.run_pure, first, if_pos h]
    have hle := List.length_take_le capacity.toNat
      (Id.run (byDistance dist (Id.run (bestPerGoal value union [] goals))))
    omega
  · exact Int.not_lt.1 ‹_›

/-- The places are filled with members of the fronts who have none yet, each as often as it occurs there. -/
theorem fill_subperm {places : Nat} {fronts : List (List ι)} :
    (Id.run (fill dist reserved places fronts)).Subperm (fronts.flatten.filter (· ∉ reserved)) := by
  induction fronts generalizing places with
  | nil => cases places <;> exact List.nil_subperm
  | cons front fronts ih =>
    cases places with
    | zero => exact List.nil_subperm
    | succ places =>
      unfold fill
      rw [List.flatten_cons, List.filter_append]
      dsimp only
      split
      · rw [Id.run_bind, Id.run_pure]
        exact (List.Subperm.refl _).append ih
      · rw [Id.run_bind, Id.run_pure]
        exact (List.take_sublist _ _).subperm.trans
          (byDistance_perm.subperm.trans (List.sublist_append_left _ _).subperm)

/-- No place stays free as long as there is a member without one. -/
theorem length_fill {places : Nat} {fronts : List (List ι)} :
    (Id.run (fill dist reserved places fronts)).length =
      min places (fronts.flatten.filter (· ∉ reserved)).length := by
  induction fronts generalizing places with
  | nil => cases places <;> simp [fill]
  | cons front fronts ih =>
    cases places with
    | zero => simp [fill]
    | succ places =>
      unfold fill
      rw [List.flatten_cons, List.filter_append, List.length_append]
      dsimp only
      split
      · rw [Id.run_bind, Id.run_pure, List.length_append, ih]
        omega
      · rw [Id.run_bind, Id.run_pure, List.length_take, byDistance_perm.length_eq]
        omega

section Filled
variable {places : Nat} {fronts : List (List ι)}

theorem nodup_append_fill (hreserved : reserved.Nodup) (hunion : union.Nodup)
    (hfronts : fronts.flatten.Perm union) : (reserved ++ Id.run (fill dist reserved places fronts)).Nodup := by
  have hrest : (fronts.flatten.filter (· ∉ reserved)).Nodup := (hfronts.nodup_iff.2 hunion).filter _
  obtain ⟨l, hl, hsub⟩ : (Id.run (fill dist reserved places fronts)).Subperm _ := fill_subperm
  refine List.nodup_append'.2 ⟨hreserved, hl.nodup_iff.1 (hrest.sublist hsub), fun x hx hx' => ?_⟩
  simpa [hx] using hsub.subset (hl.mem_iff.2 hx')

theorem length_append_fill (hreserved : reserved.Nodup) (hsub : reserved ⊆ union) (hunion : union.Nodup)
    (hfronts : fronts.flatten.Perm union) :
    (reserved ++ Id.run (fill dist reserved places fronts)).length = min (reserved.length + places) union.length := by
  -- those with a place and those without are all of the union
  have hwith : (union.filter (· ∈ reserved)).Perm reserved :=
    (List.perm_ext_iff_of_nodup (hunion.filter _) hreserved).2 fun x => by simpa using fun hx => hsub hx
  have hwithout : (fronts.flatten.filter (· ∉ reserved)).Perm (union.filter fun x => !decide (x ∈ reserved)) := by
    simpa using hfronts.filter (· ∉ reserved)
  have hall := (List.filter_append_perm (· ∈ reserved) union).length_eq
  rw [List.length_append, hwith.length_eq, ← hwithout.length_eq] at hall
  rw [List.length_append, length_fill]
  omega

end Filled

section Survivors
variable {reserving : Bool} {capacity : Int} {fronts : List (List ι)}

/-- Those who are reserved a place. -/
def privileged (value : Goal → ι → α) (dist : ι → α) (reserving : Bool) (capacity : Int) (union : List ι)
    (goals : List Goal) : List ι :=
  if reserving then Id.run (reserve value dist union goals capacity) else []

theorem survivors_eq : Id.run (survivors value dist reserving capacity union fronts goals) =
    privileged value dist reserving capacity union goals ++
      Id.run (fill dist (privileged value dist reserving capacity union goals)
        (capacity - (privileged value dist reserving capacity union goals).length).toNat fronts) := by
  cases reserving <;> rfl

theorem privileged_subset : privileged value dist reserving capacity union goals ⊆ union := by
  unfold privileged
  split
  · exact reserve_subset
  · exact List.nil_subset _

theorem nodup_privileged : (privileged value dist reserving capacity union goals).Nodup := by
  unfold privileged
  split
  · exact nodup_reserve
  · exact List.nodup_nil

theorem length_privileged_le (h : 0 ≤ capacity) :
    ((privileged value dist reserving capacity union goals).length : Int) ≤ capacity := by
  unfold privileged
  split
  · exact length_reserve_le h
  · exact h

/-- Nobody survives twice. -/
theorem nodup_survivors (hunion : union.Nodup) (hfronts : fronts.flatten.Perm union) :
    (Id.run (survivors value dist reserving capacity union fronts goals)).Nodup := by
  rw [survivors_eq]
  exact nodup_append_fill nodup_privileged hunion hfronts

/-- All places are filled if there are members enough. -/
theorem length_survivors (hcapacity : 0 ≤ capacity) (hunion : union.Nodup) (hfronts : fronts.flatten.Perm union) :
    ((Id.run (survivors value dist reserving capacity union fronts goals)).length : Int) =
      min capacity union.length := by
  have hle : ((privileged value dist reserving capacity union goals).length : Int) ≤ capacity :=
    length_privileged_le hcapacity
  rw [survivors_eq, length_append_fill nodup_privileged privileged_subset hunion hfronts]
  omega

end Survivors

/-- Nobody survives who is neither in the union nor in a front. -/
theorem survivors_subset {reserving : Bool} {capacity : Int} {fronts : List (List ι)} :
    Id.run (survivors value dist reserving capacity union fronts goals) ⊆ union ++ fronts.flatten := by
  rw [survivors_eq]
  exact List.append_subset.2 ⟨List.subset_append_of_subset_left _ privileged_subset,
    List.subset_append_of_subset_right _ fill_subset⟩

end GoalSearch.Survival
