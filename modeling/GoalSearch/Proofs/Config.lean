import GoalSearch.Proofs.Number.Finite
import GoalSearch.Proofs.Session

/-!
# What the check of a configuration is good for

A configuration passes its check just if each of its options is in range (`Config.validate_eq_ok_iff`). Then, if the size
of the population has a binary64 value, there is a number of individuals to inject.
-/

namespace GoalSearch.Config

variable {config : Config}

/-! ### The check -/

/-- In the range from zero to one. -/
def IsProbability (x : Float) : Prop := 0.0 ≤ x ∧ x ≤ 1.0

/-- Every option is in range. -/
structure Valid (config : Config) : Prop where
  population : 1 ≤ config.search.population
  chromosomeLength : 1 ≤ config.search.chromosomeLength
  numberOfMutations : 1 ≤ config.search.numberOfMutations
  tournamentSize : 1 ≤ config.search.tournamentSize
  testInsertion : IsProbability config.search.testInsertionProbability
  testDelete : IsProbability config.search.testDeleteProbability
  testChange : IsProbability config.search.testChangeProbability
  testInsert : IsProbability config.search.testInsertProbability
  statementInsertion : IsProbability config.search.statementInsertionProbability
  maximumCoverage : 0 ≤ config.stopping.maximumCoverage ∧ config.stopping.maximumCoverage ≤ 100
  searchTime : config.stopping.maximumSearchTime ≠ 0
  plateau : config.stopping.maximumCoveragePlateau ≠ 0
  minimumCoverage : config.stopping.minimumCoverage < 100 →
    0 < config.stopping.minimumCoverage ∧ 0 < config.stopping.minimumPlateauIterations
  nesting : 1 ≤ config.benchmark.depth ∧ 1 ≤ config.benchmark.width
  valueRange : 1 ≤ config.benchmark.valueRange

theorem bind_eq_ok_iff {ε α : Type} {x : Except ε Unit} {f : Unit → Except ε α} {a : α} :
    x >>= f = .ok a ↔ x = .ok () ∧ f () = .ok a := by
  constructor
  · intro h
    obtain ⟨_, hx, hf⟩ := exists_of_bind_eq_ok h
    exact ⟨hx, hf⟩
  · rintro ⟨rfl, h⟩
    exact h

theorem demand_eq_ok_iff {p : Bool} {cause : SetupFault} : demand p cause = .ok () ↔ p = true := by
  cases p with
  | false => exact ⟨nofun, nofun⟩
  | true => exact ⟨fun _ => rfl, fun _ => rfl⟩

theorem demandProbability_eq_ok_iff {name : String} {x : Float} :
    demandProbability name x = .ok () ↔ IsProbability x := by
  unfold demandProbability
  rw [demand_eq_ok_iff, Bool.and_eq_true, decide_eq_true_eq, decide_eq_true_eq]
  rfl

theorem demandPlateau_eq_ok_iff {stopping : StoppingOptions} : demandPlateau stopping = .ok () ↔
    (stopping.minimumCoverage < 100 → 0 < stopping.minimumCoverage ∧ 0 < stopping.minimumPlateauIterations) := by
  unfold demandPlateau
  split
  · rename_i h
    rw [bind_eq_ok_iff, demand_eq_ok_iff, demand_eq_ok_iff, decide_eq_true_eq, decide_eq_true_eq, forall_prop_of_true h]
  · rename_i h
    rw [forall_prop_of_false h]
    exact iff_of_true rfl trivial

theorem validate_eq_ok_iff : config.validate = .ok () ↔ config.Valid := by
  unfold validate
  simp only [bind_eq_ok_iff, demand_eq_ok_iff, demandProbability_eq_ok_iff, demandPlateau_eq_ok_iff,
    Bool.and_eq_true, decide_eq_true_eq, bne_iff_ne]
  constructor
  · rintro ⟨h₁, h₂, h₃, h₄, h₅, h₆, h₇, h₈, h₉, h₁₀, h₁₁, h₁₂, h₁₃, h₁₄, h₁₅⟩
    exact ⟨h₁, h₂, h₃, h₄, h₅, h₆, h₇, h₈, h₉, h₁₀, h₁₁, h₁₂, h₁₃, h₁₄, h₁₅⟩
  · intro h
    exact ⟨h.population, h.chromosomeLength, h.numberOfMutations, h.tournamentSize, h.testInsertion, h.testDelete,
      h.testChange, h.testInsert, h.statementInsertion, h.maximumCoverage, h.searchTime, h.plateau, h.minimumCoverage,
      h.nesting, h.valueRange⟩

namespace Valid

/-! ### Numbers of individuals -/

/-- A share of the population is a number of individuals. -/
theorem exists_injectionCount (h : config.Valid) (hpopulation : (Binary64.ofInt? config.search.population).isSome) :
    ∃ n, SearchM.injectionCount config.search = .ok n := by
  obtain ⟨x, hx⟩ := Option.isSome_iff_exists.1 hpopulation
  obtain ⟨hfinite, hnonneg⟩ := Binary64.ofRatio?_finite (Int.le_of_lt h.population) hx
  have hproduct := Binary64.isFinite_mul hnonneg (Binary64.lt_infinity_of_isFinite hnonneg hfinite)
    h.testInsertion.1 h.testInsertion.2
  have hfloat : (Number.int config.search.population).toFloat = .ok x := by
    unfold Number.toFloat Number.toFloat?
    dsimp only
    rw [hx]
  unfold SearchM.injectionCount
  rw [hfloat]
  simp only [bind, Except.bind, Binary64.truncate?, if_pos hproduct]
  exact ⟨_, rfl⟩

end Valid

end GoalSearch.Config
