import GoalSearch.Proofs.Reserve
import GoalSearch.Proofs.Search.Course

/-!
# The best fitness of a run

While places are reserved and there are enough of them for all active goals, the next population is as good for every
active goal as parents and offspring together (`Generation.best_eq`), so the best fitness never gets worse. A run
whose active goals are all uncovered goals reports for each of them values that never increase while it stays
uncovered (`best_of_generation`).
-/

namespace GoalSearch

variable {σ ω : Type} {setup : Setup σ ω} {goals : List Goal} {start s t : Search σ ω} {g : Goal}

/-- The best of parents and offspring survive. -/
theorem Generation.best_eq {active : List Goal} {n : Nat} {offspring : List Nat}
    (h : Generation goals n setup active offspring s t) (hreserve : setup.options.reserveBestPerGoal = true)
    (hcapacity : (active.length : Int) ≤ setup.options.population) (hg : g ∈ active) :
    (t.best t.population g == t.best (s.population ++ offspring) g) = true := by
  obtain ⟨fronts, hfronts, hselected⟩ := h.selected
  have hvalue : ∀ g ∈ active, ∀ i ∈ s.population ++ offspring, ¬ Binary64.isNaN (t.scene.known g i) = true :=
    fun g hg i hi => ((h.tracked.evaluated_of_kept hi).inRange (h.active_subset hg)).not_nan
  unfold Search.best
  rw [hselected, hreserve]
  exact Survival.least_survivors hvalue hcapacity hfronts.subset g hg

theorem SearchM.run_activeGoals_static (hstatic : setup.strategy = .static) :
    (activeGoals setup).run s = (.ok s.archive.uncovered, s) := by
  refine run_eq_of_wp ?_
  unfold activeGoals
  rw [wp_bind, wp_get, hstatic]
  exact ⟨rfl, rfl⟩

theorem Search.mem_snapshot_best {v : Float} :
    (g, v) ∈ s.snapshot.best ↔ g ∈ s.archive.uncovered ∧ v = s.best s.population g := by
  simp only [snapshot, List.mem_map, Prod.mk.injEq]
  constructor
  · rintro ⟨_, hg, rfl, rfl⟩
    exact ⟨hg, rfl⟩
  · rintro ⟨hg, rfl⟩
    exact ⟨g, hg, rfl, rfl⟩

namespace Boundary

theorem inRange_known (hs : Boundary setup goals start s) (hg : g ∈ Distinct.ofList goals) :
    ∀ v ∈ s.population.map (s.scene.known g ·), Fitness.InRange v := by
  intro v hv
  obtain ⟨i, hi, rfl⟩ := List.mem_map.1 hv
  exact (hs.settled.evaluated_of_kept hi).inRange hg

/-- With the parents among those who are selected from, the best fitness does not get worse. -/
theorem not_best_lt (hs : Boundary setup goals start s) (h : Advances setup s t)
    {active : List Goal} {offspring : List Nat}
    (hgeneration : Generation (Distinct.ofList goals) start.events.size setup active offspring
      { s with phase := .evolving } t)
    (hg : g ∈ active) (hbest : (t.best t.population g == t.best (s.population ++ offspring) g) = true) :
    ¬ s.best s.population g < t.best t.population g := by
  have hunion : ∀ v ∈ (s.population ++ offspring).map (t.scene.known g ·), Fitness.InRange v := by
    intro v hv
    obtain ⟨i, hi, rfl⟩ := List.mem_map.1 hv
    exact (hgeneration.tracked.evaluated_of_kept hi).inRange (hgeneration.active_subset hg)
  have hparents : s.best s.population g = t.best s.population g := by
    unfold Search.best
    rw [List.map_congr_left fun i hi => hs.known_eq (.single h) hi g]
  intro hlt
  rw [hparents] at hlt
  refine Fitness.not_least_lt_of_subset hunion ?_ (Binary64.lt_of_lt_of_beq hlt hbest)
  exact List.map_subset _ (List.subset_append_left _ _)

/-- While a goal stays uncovered, its best fitness does not get worse from generation to generation, if all uncovered
goals are active. -/
theorem not_best_lt_later (hreserve : setup.options.reserveBestPerGoal = true) (hstatic : setup.strategy = .static)
    (hs : Boundary setup goals start s)
    (hcapacity : (s.archive.uncovered.length : Int) ≤ setup.options.population)
    (h : Relation.ReflTransGen (Advances setup) s t) (hg : g ∈ t.archive.uncovered) :
    ¬ s.best s.population g < t.best t.population g := by
  induction h with
  | refl => exact Binary64.lt_irrefl _
  | @tail t u hst hlast ih =>
    have ht := hs.later hst
    have hg' : g ∈ t.archive.uncovered := ht.uncovered_subset (.single hlast) hg
    obtain ⟨active, offspring, hgeneration⟩ := ht.exists_generation hlast
    obtain rfl : active = t.archive.uncovered := by
      obtain ⟨s₁, s₂, hactive, -⟩ := hgeneration.bred
      rw [SearchM.run_activeGoals_static hstatic] at hactive
      exact (Except.ok.inj (Prod.mk.inj hactive).1).symm
    have hlength := hs.length_uncovered_le hst
    have hbest := hgeneration.best_eq hreserve (by omega) hg'
    have hlast' := ht.not_best_lt hlast hgeneration hg' hbest
    have hnan : ¬ Binary64.isNaN (t.best t.population g) = true :=
      (Fitness.inRange_least (ht.inRange_known (hgeneration.active_subset hg'))).not_nan
    exact fun hlt => ih hg' (Binary64.lt_of_lt_of_not_lt hnan hlt hlast')

end Boundary

/-- If places are reserved and there are enough of them for the active goals of a generation, the best fitness of the
next population for each of them is that of parents and offspring together, so it is no worse than before. If the
active goals are the uncovered ones, and there are enough places for them, then what later snapshots tell about a goal
that is uncovered still is nowhere above what is told now. A run goes on only while goals are uncovered. -/
theorem best_of_generation (hreserve : setup.options.reserveBestPerGoal = true)
    (hs : Boundary setup goals start s) (hopen : s.archive.uncovered ≠ []) :
    (∀ t, Advances setup s t → ∃ active s₁ offspring s₂,
      (SearchM.activeGoals setup).run { s with phase := .evolving } = (.ok active, s₁) ∧
      (SearchM.breed setup).run s₁ = (.ok offspring, s₂) ∧
      ((active.length : Int) ≤ setup.options.population → ∀ g ∈ active,
        (∀ i ∈ s.population ++ offspring,
          (fitness setup.subject g i).run t.scene = (.ok (t.scene.known g i), t.scene)) ∧
        (SearchM.bestFitness setup.subject g).run s = (.ok (s.best s.population g), s) ∧
        (SearchM.bestFitness setup.subject g).run t = (.ok (t.best t.population g), t) ∧
        (t.best t.population g == t.best (s.population ++ offspring) g) = true ∧
        ¬ s.best s.population g < t.best t.population g)) ∧
    (setup.strategy = .static → (s.archive.uncovered.length : Int) ≤ setup.options.population →
      ∀ t, Relation.ReflTransGen (Advances setup) s t →
        ∃ earlier later, s.lastReport = some earlier ∧ t.lastReport = some later ∧
          ∀ g w, (g, w) ∈ later.snapshot.best → (∃ v, (g, v) ∈ earlier.snapshot.best) ∧
            ∀ v, (g, v) ∈ earlier.snapshot.best → ¬ v < w) := by
  have hgoals := hs.goals_ne_nil hopen
  refine ⟨fun t h => ?_, fun hstatic hcapacity t h => ?_⟩
  · obtain ⟨active, offspring, hgeneration⟩ := hs.exists_generation h
    obtain ⟨s₁, s₂, hactive, hoffspring⟩ := hgeneration.bred
    refine ⟨active, s₁, offspring, s₂, hactive, hoffspring, fun hcapacity g hg => ?_⟩
    have hg' := hgeneration.active_subset hg
    have hbest := hgeneration.best_eq hreserve hcapacity hg
    exact ⟨fun i hi => (hgeneration.tracked.evaluated_of_kept hi).run_fitness hg',
      Tracked.run_bestFitness hs.settled hg', Tracked.run_bestFitness hgeneration.settled hg', hbest,
      hs.not_best_lt h hgeneration hg hbest⟩
  · obtain ⟨earlier, hearlier, hsnapshot⟩ := hs.reported
    obtain ⟨later, hlater, hsnapshot'⟩ := (hs.later h).reported
    refine ⟨earlier, later, hearlier, hlater, fun g w hw => ?_⟩
    rw [hsnapshot', Search.mem_snapshot_best] at hw
    obtain ⟨hg, rfl⟩ := hw
    rw [hsnapshot]
    refine ⟨⟨_, Search.mem_snapshot_best.2 ⟨hs.uncovered_subset h hg, rfl⟩⟩, fun v hv => ?_⟩
    obtain ⟨-, rfl⟩ := Search.mem_snapshot_best.1 hv
    exact hs.not_best_lt_later hreserve hstatic hcapacity h hg

namespace Sample

/-- Two goals for which the same test cases are best, the long ones. -/
def longAndLonger : Parts where
  goals := #[⟨"long", .sizeBelow (.int 4), none, false⟩, ⟨"longer", .sizeBelow (.int 5), none, false⟩]
  operators := #[.append (.int 0)]
  factory := .cycle #[.statements [.int 1]] (some 0)

def lengthening : Setup Statement World where
  subject := longAndLonger.subject
  strategy := .static
  options := { population := 2 }
  tournamentSize := 2
  trivial _ := false

/-- The search behind so many generations. -/
def lengthened : Nat → Search Statement World
  | 0 => ((SearchM.initialise lengthening).run unborn).2
  | n + 1 => ((SearchM.advance lengthening).run (lengthened n)).2

end Sample

/-- In two generations the test cases grow twice, and the best one for both goals keeps its place. -/
theorem best_of_generation_lengthening :
    Boundary Sample.lengthening [.atom 0, .atom 1] Sample.unborn (Sample.lengthened 0) ∧
    (∃ offspring, ((Sample.lengthened 1).best (Sample.lengthened 1).population (.atom 1) ==
      (Sample.lengthened 1).best ((Sample.lengthened 0).population ++ offspring) (.atom 1)) = true) ∧
    ((Sample.lengthened 2).best (Sample.lengthened 2).population (.atom 1) == 2.0) = true ∧
    ∃ earlier later, (Sample.lengthened 0).lastReport = some earlier ∧ (Sample.lengthened 2).lastReport = some later ∧
      ∀ g w, (g, w) ∈ later.snapshot.best → (∃ v, (g, v) ∈ earlier.snapshot.best) ∧
        ∀ v, (g, v) ∈ earlier.snapshot.best → ¬ v < w := by
  have hs : Boundary Sample.lengthening [.atom 0, .atom 1] Sample.unborn (Sample.lengthened 0) :=
    .first (.new rfl) (run_eq_of_toOption (by decide +kernel))
  have ht : Advances Sample.lengthening (Sample.lengthened 0) (Sample.lengthened 1) :=
    run_eq_of_toOption (by decide +kernel)
  have hu : Advances Sample.lengthening (Sample.lengthened 1) (Sample.lengthened 2) :=
    run_eq_of_toOption (by decide +kernel)
  obtain ⟨hgeneration, hreports⟩ := best_of_generation rfl hs (by decide +kernel)
  obtain ⟨active, s₁, offspring, s₂, hactive, -, hbest⟩ := hgeneration _ ht
  rw [SearchM.run_activeGoals_static rfl] at hactive
  obtain rfl : _ = active := Except.ok.inj (Prod.mk.inj hactive).1
  obtain ⟨-, -, -, hbest, -⟩ := hbest (by decide +kernel) (.atom 1) (by decide +kernel)
  exact ⟨hs, ⟨offspring, hbest⟩, by decide +kernel,
    hreports rfl (by decide +kernel) _ (.tail (.single ht) hu)⟩

end GoalSearch
