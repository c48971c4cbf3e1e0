import GoalSearch.Proofs.Variation

/-!
# Selection among evaluated individuals

Individuals are selected by the fitness values that they know (`Scene.known`). To select them changes nothing, and what
comes out is what the algorithms give on the known values.
-/

namespace GoalSearch

variable {σ ω : Type} {subject : Subject σ ω} {s t : Scene σ ω} {goals : List Goal} {members : List Nat}

/-- The fitness that an individual of the scene knows for a goal. -/
def Scene.known (s : Scene σ ω) (g : Goal) (i : Nat) : Float := (s.individual i).knownFitness g

namespace Scene

theorem run_survivors {reserving : Bool} {capacity : Int} {fronts : List (List Nat)}
    (hm : ∀ i ∈ members, (s.individual i).Informed goals) :
    (Survival.survivors (fitness subject) Individual.distanceOf reserving capacity members fronts goals).run s =
      (.ok (Id.run (Survival.survivors s.known (fun i => (s.individual i).distance) reserving capacity members
        fronts goals)), s) := by
  refine (Survival.yields_survivors (fun g hg i hi => ?_) fun i _ => ?_).run_eq
  · exact .of_run_eq ((hm i hi).run_fitness hg)
  · rintro _ rfl
    exact ⟨rfl, rfl⟩

theorem run_nonDominated (hm : ∀ i ∈ members, (s.individual i).Evaluated goals) :
    (Ranking.nonDominated (fitness subject) goals [] members).run s =
      (.ok (Id.run (Ranking.nonDominated s.known goals [] members)), s) :=
  (Ranking.yields_nonDominated fun _ hg i hi => .of_run_eq ((hm i hi).run_fitness hg)).run_eq

/-- Leaving out dominated members loses no goal: what some member covers, one that is left covers. -/
theorem nonDominated_covers (hm : ∀ i ∈ members, (s.individual i).Evaluated goals) {g : Goal} (hg : g ∈ goals)
    {i : Nat} (hi : i ∈ members) (hcover : (s.individual i).knownToCover g = true) :
    ∃ j ∈ Id.run (Ranking.nonDominated s.known goals [] members), (s.individual j).knownToCover g = true := by
  -- one that is not dominated is nowhere above one it dominates, and nothing is below zero
  have hup : ∀ x ∈ members, ∀ y ∈ members, ∀ h ∈ goals,
      (s.known h x == 0.0) = true → ¬ s.known h x < s.known h y → (s.known h y == 0.0) = true :=
    fun _ _ y hy _ hh hzero hle => ((hm y hy).inRange hh).beq_zero hzero hle
  exact Ranking.nonDominated_attains (fun v => (v == 0.0) = true) Binary64.lt_irrefl hup
    (List.Subset.refl _) hg hi hcover

end Scene

end GoalSearch
