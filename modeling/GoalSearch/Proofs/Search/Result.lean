import GoalSearch.Proofs.Search.Run
import GoalSearch.Proofs.Suite

/-!
# What a search reports

The report of a finished run tells which goals were covered. Its solutions bear it out
(`coverage_of_generate`): a goal is reported as covered just if a solution has fitness zero for it, whether or not
dominated solutions were left out, and the suite made of the solutions has the reported coverage.
-/

namespace GoalSearch

variable {σ ω : Type} {setup : Setup σ ω} {goals : List Goal} {start s t : Search σ ω} {fuel : Nat}
  {result : SearchResult}

/-- A run that is finished ended in a settled search. -/
theorem Ready.settled_of_generate (hs : Ready setup goals start s)
    (h : (SearchM.generate setup fuel).run s = (.ok result, t)) :
    Settled (Distinct.ofList goals) start.events.size t ∧
      result.solutions = t.finalSolutions setup.options.filterDominatedSolutions ∧
      result.perGoal = (Distinct.ofList goals).map fun g => (g, (t.archive.get? g).isSome) := by
  have hrun : wp (SearchM.generate setup fuel) (fun r t => Settled (Distinct.ofList goals) start.events.size t ∧
      r.solutions = t.finalSolutions setup.options.filterDominatedSolutions ∧
      r.perGoal = (Distinct.ofList goals).map fun g => (g, (t.archive.get? g).isSome))
      (fun _ _ => True) s := by
    unfold SearchM.generate
    refine wp_seq (Settled.wp_initialise hs.tracked) fun _ t ht => ?_
    refine wp_seq (ht.1.wp_advanceAll fuel) fun _ t ht => ?_
    rw [wp_of_run_eq ht.run_finalise]
    exact ⟨ht.finished, rfl, rfl⟩
  have hpost := post_of_run_eq hrun h
  exact hpost

namespace Settled
variable {n : Nat} {g : Goal} {i : Nat} {filtering : Bool}

/-- If nothing is archived, the best individuals of the population are the final solutions. -/
theorem finalSolutions_of_nil (h : t.archive.solutions = []) :
    t.finalSolutions filtering = t.front t.population := by
  have hnil : t.archivedSolutions filtering = [] := List.subset_nil.1 (h ▸ archivedSolutions_subset)
  unfold Search.finalSolutions
  rw [hnil]
  rfl

/-- If something is archived, the final solutions are archived ones. -/
theorem finalSolutions_of_ne_nil (h : Settled goals n t) (hsol : t.archive.solutions ≠ []) :
    t.finalSolutions filtering ≠ [] ∧ t.finalSolutions filtering ⊆ t.archive.solutions := by
  obtain ⟨i, hi⟩ := List.exists_mem_of_ne_nil _ hsol
  obtain ⟨g, hg⟩ := h.exists_of_mem_solutions hi
  have hcovered : g ∈ t.archive.coveredGoals := Archive.isSome_get?_iff.1 (by rw [hg]; rfl)
  obtain ⟨j, hj, -⟩ := h.exists_archivedSolution hcovered filtering
  have hne : t.archivedSolutions filtering ≠ [] := List.ne_nil_of_mem hj
  have hfinal : t.finalSolutions filtering = t.archivedSolutions filtering := by
    unfold Search.finalSolutions
    rw [ite_eq_right_iff.2 fun he => absurd (List.isEmpty_iff.1 he) hne]
  exact ⟨hfinal ▸ hne, hfinal ▸ archivedSolutions_subset⟩

/-- The suite of the final solutions has the share of covered goals as its coverage, which asks no evaluator. -/
theorem coverage_toSuite (h : Settled goals n t) (hsolutions : result.solutions = t.finalSolutions filtering)
    (hperGoal : result.perGoal = goals.map fun g => (g, (t.archive.get? g).isSome)) :
    ∃ suite u v, (result.toSuite setup.subject).run t.scene = (.ok suite, u) ∧
      (Individual.coverage setup.subject suite).run u = (.ok result.coverage, v) ∧ v.outside = u.outside := by
  have hgoals : result.perGoal.map (·.1) = goals := by
    rw [hperGoal, List.map_map]
    exact List.map_id _
  have hevaluated : ∀ i ∈ result.solutions, (t.scene.individual i).Evaluated goals :=
    fun i hi => h.evaluated_of_mem_finalSolutions (hsolutions ▸ hi)
  obtain ⟨suite, u, hsuite, members, hgathers, hfunctions, hcovers⟩ :=
    exists_of_wp (SearchResult.wp_toSuite setup.subject hevaluated)
  rw [hgoals] at hfunctions
  obtain ⟨_, v, hcoverage, rfl, houtside⟩ :=
    exists_of_wp (hgathers.wp_coverage setup.subject (List.Subset.refl _) hfunctions)
  refine ⟨suite, u, v, hsuite, ?_, houtside⟩
  have hcovered : ∀ g ∈ goals,
      (members.any fun k => (u.individual k).knownToCover g) = (t.archive.get? g).isSome := by
    intro g hg
    rw [hcovers, hsolutions, Bool.eq_iff_iff, List.any_eq_true, h.covers_finalSolutions hg,
      Archive.isSome_get?_iff]
  have hcount : result.covered.length =
      goals.countP fun g => members.any fun k => (u.individual k).knownToCover g := by
    unfold SearchResult.covered
    rw [List.length_map, ← List.countP_eq_length_filter, hperGoal, List.countP_map]
    exact List.countP_congr fun g hg => by rw [hcovered g hg]; rfl
  rw [hcoverage, SearchResult.coverage, hcount, hperGoal, List.length_map]

end Settled

/-- Of every finished run, with or without dominated solutions: a goal is reported as covered just if some solution
has fitness zero for it. Dropping dominated solutions loses no goal that is covered, the best individuals stand in
only if nothing is covered, and the suite made of the result has the reported coverage. -/
theorem coverage_of_generate (hs : Ready setup goals start s)
    (h : (SearchM.generate setup fuel).run s = (.ok result, t)) :
    result.perGoal.map (·.1) = Distinct.ofList goals ∧
    (∀ g ∈ goals, ∀ i ∈ result.solutions,
      (fitness setup.subject g i).run t.scene = (.ok (t.scene.known g i), t.scene)) ∧
    (∀ g ∈ goals, (g, true) ∈ result.perGoal ↔ ∃ i ∈ result.solutions, (t.scene.known g i == 0.0) = true) ∧
    (∃ front, (SearchM.nonDominated setup.subject t.archive.solutions).run t = (.ok front, t) ∧
      front ⊆ t.archive.solutions ∧
      ∀ g ∈ goals, (∃ i ∈ t.archive.solutions, (t.scene.known g i == 0.0) = true) →
        ∃ i ∈ front, (t.scene.known g i == 0.0) = true) ∧
    (t.archive.solutions ≠ [] ∧ result.solutions ≠ [] ∧ result.solutions ⊆ t.archive.solutions ∨
      t.archive.solutions = [] ∧ (SearchM.bestIndividuals setup).run t = (.ok result.solutions, t) ∧
        ∀ g ∈ goals, ∀ i ∈ result.solutions, (t.scene.known g i == 0.0) = false) ∧
    ∃ suite u v, (result.toSuite setup.subject).run t.scene = (.ok suite, u) ∧
      (Individual.coverage setup.subject suite).run u = (.ok result.coverage, v) := by
  obtain ⟨ht, hsolutions, hperGoal⟩ := hs.settled_of_generate h
  have hevaluated : ∀ i ∈ result.solutions, (t.scene.individual i).Evaluated (Distinct.ofList goals) :=
    fun i hi => ht.evaluated_of_mem_finalSolutions (hsolutions ▸ hi)
  have hmem : ∀ g ∈ goals, g ∈ Distinct.ofList goals := fun g hg => Distinct.mem_ofList.2 hg
  -- the solutions cover what the archive has covered
  have hcovers : ∀ g ∈ goals, (∃ i ∈ result.solutions, (t.scene.known g i == 0.0) = true) ↔
      g ∈ t.archive.coveredGoals := fun g hg => hsolutions ▸ ht.covers_finalSolutions (hmem g hg) _
  obtain ⟨suite, u, v, hsuite, hcoverage, -⟩ := ht.coverage_toSuite hsolutions hperGoal
  refine ⟨?_, fun g hg i hi => (hevaluated i hi).run_fitness (hmem g hg), fun g hg => ?_, ?_, ?_,
    suite, u, v, hsuite, hcoverage⟩
  · rw [hperGoal, List.map_map]
    exact List.map_id _
  · rw [hcovers g hg, hperGoal, List.mem_map, ← Archive.isSome_get?_iff]
    constructor
    · rintro ⟨k, -, e⟩
      obtain ⟨rfl, hk⟩ := Prod.mk.inj e
      exact hk
    · intro hcovered
      exact ⟨g, hmem g hg, by rw [hcovered]⟩
  · refine ⟨t.front t.archive.solutions, ht.run_front fun i => ht.evaluated_of_mem_solutions,
      Settled.front_subset, ?_⟩
    rintro g hg ⟨i, hi, hcover⟩
    obtain ⟨k, hk⟩ := ht.exists_of_mem_solutions hi
    obtain ⟨-, ⟨x, hx⟩, -⟩ := ht.stored hk
    exact ht.exists_front (ht.mem_coveredGoals_of_mem hx (hmem g hg) hcover) hi hcover
  · by_cases hsol : t.archive.solutions = []
    · have hbest : result.solutions = t.front t.population :=
        hsolutions.trans (Settled.finalSolutions_of_nil hsol)
      refine .inr ⟨hsol, ?_, fun g hg i hi => Bool.eq_false_iff.2 fun hcover => ?_⟩
      · rw [hbest]
        exact ht.run_bestIndividuals
      · obtain ⟨j, hj, -⟩ := ht.exists_archivedSolution ((hcovers g hg).1 ⟨i, hi, hcover⟩) false
        have hj := Settled.archivedSolutions_subset hj
        rw [hsol] at hj
        cases hj
    · rw [hsolutions]
      exact .inl ⟨hsol, ht.finalSolutions_of_ne_nil hsol⟩

/-- Of the two goals of the small run each has a solution of its own, and the suite has them both. -/
theorem coverage_of_generate_growing : ∃ t suite u v,
    (SearchM.generate Sample.growing 3).run Sample.unborn =
      (.ok ⟨[0, 2], [(.atom 0, true), (.atom 1, true)], 1⟩, t) ∧
    (∃ i ∈ [0, 2], (t.scene.known (.atom 1) i == 0.0) = true) ∧
    (SearchResult.toSuite Sample.shortAndLong.subject ⟨[0, 2], [(.atom 0, true), (.atom 1, true)], 1⟩).run t.scene =
      (.ok suite, u) ∧
    (Individual.coverage Sample.shortAndLong.subject suite).run u = (.ok 1.0, v) := by
  have hs : Ready Sample.growing [.atom 0, .atom 1] Sample.unborn Sample.unborn := .new rfl
  have hrun := run_eq_of_toOption (x := SearchM.generate Sample.growing 3) (s := Sample.unborn)
    (a := ⟨[0, 2], [(.atom 0, true), (.atom 1, true)], 1⟩) (by decide +kernel)
  obtain ⟨-, -, hcovers, -, -, suite, u, v, hsuite, hcoverage⟩ := coverage_of_generate hs hrun
  have hone : SearchResult.coverage ⟨[0, 2], [(.atom 0, true), (.atom 1, true)], 1⟩ = 1.0 := by decide +kernel
  exact ⟨_, suite, u, v, hrun, (hcovers (.atom 1) (by decide)).1 (by decide), hsuite, hone ▸ hcoverage⟩

end GoalSearch
