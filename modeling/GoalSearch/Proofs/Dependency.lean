import GoalSearch.Dependency
import GoalSearch.Proofs.Distinct
import Mathlib.Logic.Relation

/-!
# What dependencies know

The dependencies gathered from some goals know all of them, with a link from a goal's parent to the goal and no other
links. So of uncovered goals among them those are free whose parents are not uncovered (`free_ofGoals_of_subset`), and
unless none is free the dependencies tell just those to be pursued, in their order (`independent_ofGoals`). A parent
from outside is known as well, but without its own parent (`mem_parents_ofGoals`).

A list with the parents first has, with every goal, all ancestors of the goal (`ParentsFirst.mem_of_isAncestor`).
-/

namespace GoalSearch

/-! ### Ancestors -/

/-- In the list every goal stands behind its parent. -/
def ParentsFirst (parent : Goal → Option Goal) (goals : List Goal) : Prop :=
  ∀ done g rest, goals = done ++ g :: rest → ∀ p, parent g = some p → p ∈ done

/-- The parent of a goal, or an ancestor of the parent. -/
def IsAncestor (parent : Goal → Option Goal) : Goal → Goal → Prop := Relation.TransGen fun p g => parent g = some p

namespace ParentsFirst
variable {parent : Goal → Option Goal} {goals past : List Goal} {g p k : Goal}

theorem nil : ParentsFirst parent [] := fun done g rest h => by simp at h

theorem concat (h : ParentsFirst parent goals) (hg : ∀ p, parent g = some p → p ∈ goals) :
    ParentsFirst parent (goals ++ [g]) := by
  intro done k rest hsplit p hp
  rcases List.eq_nil_or_concat rest with rfl | ⟨rest, last, rfl⟩
  · obtain ⟨rfl, hk⟩ := List.append_inj' hsplit rfl
    exact hg p (List.singleton_inj.1 hk ▸ hp)
  · rw [List.concat_eq_append, ← List.cons_append, ← List.append_assoc] at hsplit
    exact h done k rest (List.append_inj' hsplit rfl).1 p hp

theorem of_prefix (h : ParentsFirst parent goals) (hpast : past <+: goals) : ParentsFirst parent past := by
  rintro done g rest rfl
  obtain ⟨later, rfl⟩ := hpast
  exact h done g (rest ++ later) (by simp)

theorem mem_parent (h : ParentsFirst parent goals) (hg : g ∈ goals) (hp : parent g = some p) : p ∈ goals := by
  obtain ⟨done, rest, rfl⟩ := List.append_of_mem hg
  exact List.mem_append_left _ (h done g rest rfl p hp)

theorem mem_of_isAncestor (h : ParentsFirst parent goals) (hg : g ∈ goals) (hk : IsAncestor parent k g) :
    k ∈ goals := by
  induction hk with
  | single hp => exact h.mem_parent hg hp
  | tail _ hp ih => exact ih (h.mem_parent hg hp)

end ParentsFirst

namespace Dependencies

variable {parent : Goal → Option Goal} {goals uncovered : List Goal} {d : Dependencies} {g p : Goal}

theorem ofGoals_fst : (ofGoals parent goals).1 =
    goals.foldl (fun d g => d.link g (parent g)) ⟨Distinct.ofList goals, [], []⟩ :=
  (List.foldl_hom Prod.fst fun _ _ => rfl).symm

theorem mem_goals_link : p ∈ (d.link g (parent g)).goals ↔ p ∈ d.goals ∨ parent g = some p := by
  cases parent g with
  | none => simp [link]
  | some q => simp [link, eq_comm]

theorem mem_links_link {h : Goal} : (p, h) ∈ (d.link g (parent g)).links ↔
    (p, h) ∈ d.links ∨ h = g ∧ parent g = some p := by
  cases parent g with
  | none => simp [link]
  | some q => simp [link, and_comm, eq_comm]

/-- Known are the goals themselves and their parents. -/
theorem mem_goals_ofGoals :
    g ∈ (ofGoals parent goals).1.goals ↔ g ∈ goals ∨ ∃ c ∈ goals, parent c = some g := by
  rw [ofGoals_fst]
  have hfold : ∀ (l : List Goal) (d : Dependencies), g ∈ (l.foldl (fun d g => d.link g (parent g)) d).goals ↔
      g ∈ d.goals ∨ ∃ c ∈ l, parent c = some g := by
    intro l
    induction l with
    | nil => simp
    | cons k l ih => exact fun d => by rw [List.foldl_cons, ih, mem_goals_link, or_assoc, List.exists_mem_cons_iff]
  simpa using hfold goals ⟨Distinct.ofList goals, [], []⟩

theorem mem_links_ofGoals : (p, g) ∈ (ofGoals parent goals).1.links ↔ g ∈ goals ∧ parent g = some p := by
  rw [ofGoals_fst]
  have hfold : ∀ (l : List Goal) (d : Dependencies), (p, g) ∈ (l.foldl (fun d g => d.link g (parent g)) d).links ↔
      (p, g) ∈ d.links ∨ g ∈ l ∧ parent g = some p := by
    intro l
    induction l with
    | nil => simp
    | cons k l ih =>
      intro d
      rw [List.foldl_cons, ih, mem_links_link, List.mem_cons, or_assoc, or_and_right]
      refine or_congr_right (or_congr_left (and_congr_right fun hk => ?_))
      rw [hk]
  simpa using hfold goals ⟨Distinct.ofList goals, [], []⟩

/-- A goal known only as the parent of another: the dependencies were not gathered from it. -/
def OnlyParent (parent : Goal → Option Goal) (goals : List Goal) (g : Goal) : Prop :=
  g ∉ goals ∧ ∃ c ∈ goals, parent c = some g

instance : DecidablePred (OnlyParent parent goals) := fun _ => inferInstanceAs (Decidable (_ ∧ _))

/-- The parent that a goal names is its only one. A goal known only as a parent has none. -/
theorem mem_parents_ofGoals :
    p ∈ (ofGoals parent goals).1.parents parent g ↔ parent g = some p ∧ ¬ OnlyParent parent goals g := by
  unfold parents
  by_cases hknown : g ∈ (ofGoals parent goals).1.goals
  · have hgoal : ¬ OnlyParent parent goals g ↔ g ∈ goals :=
      ⟨fun h => (mem_goals_ofGoals.1 hknown).elim id fun hc => by_contra fun hg => h ⟨hg, hc⟩, fun hg h => h.1 hg⟩
    rw [if_pos hknown, hgoal, and_comm, ← mem_links_ofGoals]
    simp [List.mem_map, List.mem_filter]
  · rw [if_neg hknown, Option.mem_toList]
    exact ⟨fun h => ⟨h, fun hg => hknown (mem_goals_ofGoals.2 (.inr hg.2))⟩, fun h => h.1⟩

/-- The goal has no parent among the uncovered goals. -/
def IsFree (parent : Goal → Option Goal) (uncovered : List Goal) (g : Goal) : Prop :=
  ∀ p, parent g = some p → p ∉ uncovered

instance : DecidablePred (IsFree parent uncovered) := fun g =>
  decidable_of_iff ((parent g).all (· ∉ uncovered) = true) (by cases h : parent g <;> simp [IsFree, h])

theorem mem_free_ofGoals : g ∈ (ofGoals parent goals).1.free parent uncovered ↔
    g ∈ uncovered ∧ (IsFree parent uncovered g ∨ OnlyParent parent goals g) := by
  simp only [free, List.mem_filter, Distinct.mem_ofList, List.all_eq_true, mem_parents_ofGoals, decide_eq_true_eq]
  refine and_congr_right fun _ => ?_
  by_cases hg : OnlyParent parent goals g
  · simp [hg]
  · simp [hg, IsFree]

theorem free_ofGoals_eq : (ofGoals parent goals).1.free parent uncovered =
    (Distinct.ofList uncovered).filter fun g => IsFree parent uncovered g ∨ OnlyParent parent goals g := by
  refine List.filter_congr fun g hg => Bool.eq_iff_iff.2 ?_
  have hmem : g ∈ uncovered := Distinct.mem_ofList.1 hg
  simpa [free, hmem] using @mem_free_ofGoals parent goals uncovered g

/-- Goals among those gathered are not known only as parents. -/
theorem free_ofGoals_of_subset (hsub : uncovered ⊆ goals) : (ofGoals parent goals).1.free parent uncovered =
    (Distinct.ofList uncovered).filter (IsFree parent uncovered ·) := by
  rw [free_ofGoals_eq]
  refine List.filter_congr fun g hg => decide_eq_decide.2 (or_iff_left fun h => h.1 ?_)
  exact hsub (Distinct.mem_ofList.1 hg)

theorem independent_subset (d : Dependencies) (parent : Goal → Option Goal) (uncovered : List Goal) :
    (d.independent parent uncovered).1 ⊆ uncovered := by
  unfold independent
  dsimp only
  split
  · exact fun g hg => Distinct.mem_ofList.1 hg
  · exact fun g hg => Distinct.mem_ofList.1 (List.mem_filter.1 hg).1

theorem independent_ofGoals (hsub : uncovered ⊆ goals) (hnodup : uncovered.Nodup)
    (hfree : uncovered ≠ [] → ∃ g ∈ uncovered, IsFree parent uncovered g) :
    (ofGoals parent goals).1.independent parent uncovered =
      (uncovered.filter (IsFree parent uncovered ·), false) := by
  unfold independent
  rw [free_ofGoals_of_subset hsub, Distinct.ofList_of_nodup hnodup]
  refine if_neg fun h => ?_
  simp only [Bool.and_eq_true, List.isEmpty_iff, Bool.not_eq_true', List.isEmpty_eq_false_iff] at h
  obtain ⟨g, hg, hfree⟩ := hfree h.2
  exact List.filter_eq_nil_iff.1 h.1 g hg (decide_eq_true hfree)

/-- With the parents first, the first uncovered goal is free. -/
theorem exists_free (h : ParentsFirst parent goals) (hsub : uncovered ⊆ goals) (hne : uncovered ≠ []) :
    ∃ g ∈ uncovered, IsFree parent uncovered g := by
  obtain ⟨k, hk⟩ := List.exists_mem_of_ne_nil uncovered hne
  obtain ⟨g, hg⟩ : ∃ g, goals.find? (· ∈ uncovered) = some g :=
    Option.isSome_iff_exists.1 (List.find?_isSome.2 ⟨k, hsub hk, by simpa using hk⟩)
  obtain ⟨hmem, done, rest, hsplit, hdone⟩ := List.find?_eq_some_iff_append.1 hg
  refine ⟨g, by simpa using hmem, fun p hp => ?_⟩
  simpa using hdone p (h done g rest hsplit p hp)

end Dependencies

end GoalSearch
