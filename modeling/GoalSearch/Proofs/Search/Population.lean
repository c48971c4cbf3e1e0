import GoalSearch.Proofs.Search.Course

/-!
# The population of a run

At every boundary of a run the population consists of distinct individuals that are evaluated for all goals, no more
of them than it has places. A generation fills the places as far as parents and offspring suffice, so the population
never shrinks (`population_of_boundary`).
-/

namespace GoalSearch

variable {σ ω : Type} {setup : Setup σ ω} {goals : List Goal} {start s t u : Search σ ω}

namespace Boundary

theorem length_population_le (hcapacity : 0 ≤ setup.options.population)
    (ht : Boundary setup goals start t) : (t.population.length : Int) ≤ setup.options.population := by
  cases ht with
  | first hs h =>
    have hfirst := post_of_run_eq (Settled.wp_initialise hs.tracked) h
    have hlength := hfirst.2.1
    omega
  | next hs h =>
    obtain ⟨active, offspring, hgeneration⟩ := hs.exists_generation h
    have hlength := hgeneration.length_population hcapacity
    omega

theorem evaluated (hs : Boundary setup goals start s) {i : Nat} (hi : i ∈ s.population) :
    (s.scene.individual i).Evaluated s.archive.objectives := by
  have hsettled := hs.settled
  rw [hsettled.objectives]
  exact hsettled.evaluated_of_kept hi

/-- One generation after the other, nobody's place gets lost. -/
theorem length_population_mono (hcapacity : 0 ≤ setup.options.population)
    (hs : Boundary setup goals start s) (h : Relation.ReflTransGen (Advances setup) s t) :
    s.population.length ≤ t.population.length := by
  induction h with
  | refl => exact le_rfl
  | @tail t u hst hlast ih =>
    have ht := hs.later hst
    obtain ⟨active, offspring, hgeneration⟩ := ht.exists_generation hlast
    have hle := ht.length_population_le hcapacity
    have hlength := hgeneration.length_population hcapacity
    dsimp only at hlength
    omega

end Boundary

/-- At every boundary of a run the members of the population are distinct, no more than the population has places,
not empty, unchanged since they were evaluated, and know their fitness for every objective. A generation leaves as
many of parents and offspring as there are places. So the population never shrinks, and once full stays full. No
valid configuration has a negative number of places. -/
theorem population_of_boundary (hgoals : goals ≠ []) (hcapacity : 0 ≤ setup.options.population)
    (hs : Boundary setup goals start s) :
    s.population.Nodup ∧ (s.population.length : Int) ≤ setup.options.population ∧
    (∀ i ∈ s.population, 0 < (s.scene.individual i).size ∧ (s.scene.individual i).changed = false ∧
      ∀ g ∈ s.archive.objectives, ((s.scene.individual i).cache.get? g).isSome) ∧
    (∀ t, Advances setup s t → ∃ active s₁ offspring s₂,
      (SearchM.activeGoals setup).run { s with phase := .evolving } = (.ok active, s₁) ∧
      (SearchM.breed setup).run s₁ = (.ok offspring, s₂) ∧
      (t.population.length : Int) =
        min setup.options.population (s.population.length + offspring.length)) ∧
    ∀ t, Relation.ReflTransGen (Advances setup) s t → s.population.length ≤ t.population.length ∧
      ((s.population.length : Int) = setup.options.population →
        (t.population.length : Int) = setup.options.population) := by
  have hle := hs.length_population_le hcapacity
  refine ⟨hs.settled.kept_nodup, hle, fun i hi => ?_, fun t h => ?_, fun t h => ?_⟩
  · have heval := hs.evaluated hi
    refine ⟨heval.nonempty, heval.unchanged (hs.settled.objectives ▸ ofList_ne_nil hgoals), fun g hg => ?_⟩
    obtain ⟨v, hv, -⟩ := heval.known g hg
    rw [hv]
    rfl
  · obtain ⟨active, offspring, hgeneration⟩ := hs.exists_generation h
    obtain ⟨s₁, s₂, hactive, hoffspring⟩ := hgeneration.bred
    exact ⟨active, s₁, offspring, s₂, hactive, hoffspring, hgeneration.length_population hcapacity⟩
  · have hmono := hs.length_population_mono hcapacity h
    have hle' := (hs.later h).length_population_le hcapacity
    exact ⟨hmono, by omega⟩

/-- Two parents make way for their offspring. -/
theorem population_of_boundary_growing : ∃ s t, Boundary Sample.growing [.atom 0, .atom 1] Sample.unborn s ∧
    Advances Sample.growing s t ∧ s.population = [0, 1] ∧ t.population = [2, 3] ∧
    (t.population.length : Int) = Sample.growing.options.population ∧
    ∃ active s₁ offspring s₂,
      (SearchM.activeGoals Sample.growing).run { s with phase := .evolving } = (.ok active, s₁) ∧
      (SearchM.breed Sample.growing).run s₁ = (.ok offspring, s₂) ∧
      (t.population.length : Int) = min (2 : Int) (s.population.length + offspring.length) := by
  have hs : Boundary Sample.growing [.atom 0, .atom 1] Sample.unborn _ :=
    .first (.new rfl) (run_eq_of_toOption (by decide +kernel))
  have ht : Advances Sample.growing ((SearchM.initialise Sample.growing).run Sample.unborn).2 _ :=
    run_eq_of_toOption (by decide +kernel)
  obtain ⟨-, -, -, hgeneration, hlater⟩ := population_of_boundary (by decide) (by decide) hs
  exact ⟨_, _, hs, ht, by decide +kernel, by decide +kernel, (hlater _ (.single ht)).2 (by decide +kernel),
    hgeneration _ ht⟩

end GoalSearch
