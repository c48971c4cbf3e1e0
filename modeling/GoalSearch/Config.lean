import GoalSearch.Fault
import GoalSearch.Number.Shortest

/-!
# Configurations

The options of a search, with their defaults, and the check that they are consistent. Limits are
switched off by `-1`, coverages by `100`.
-/

namespace GoalSearch

inductive Strategy where
  /-- The uncovered goals whose parents are covered. -/
  | dynamic
  /-- All uncovered goals. -/
  | static
deriving Repr, DecidableEq

namespace Strategy

def name : Strategy → String
  | dynamic => "DYNAMOSA"
  | static => "MOSA"

def ofName? : String → Option Strategy
  | "DYNAMOSA" => some dynamic
  | "MOSA" => some static
  | _ => none

end Strategy

structure SearchOptions where
  population : Int := 50
  chromosomeLength : Int := 40
  numberOfMutations : Int := 1
  /-- The share of the population that is added as new or archived individuals. -/
  testInsertionProbability : Float := 0.1
  testDeleteProbability : Float := 1.0 / 3.0
  testChangeProbability : Float := 1.0 / 3.0
  testInsertProbability : Float := 1.0 / 3.0
  statementInsertionProbability : Float := 0.5
  tournamentSize : Int := 2
  reserveBestPerGoal : Bool := true
  filterDominatedSolutions : Bool := false

structure StoppingOptions where
  /-- In seconds. -/
  maximumSearchTime : Int := -1
  maximumIterations : Int := -1
  maximumFitnessEvaluations : Int := -1
  /-- In percent. -/
  maximumCoverage : Int := 100
  /-- In generations. -/
  maximumCoveragePlateau : Int := -1
  /-- In percent. -/
  minimumCoverage : Int := 100
  minimumPlateauIterations : Int := -1
  /-- In megabytes. -/
  maximumMemory : Int := -1

structure BenchmarkOptions where
  depth : Int := 4
  width : Int := 2
  valueRange : Int := 1000

/-- All options. A strategy that has no meaning is kept by its name. -/
structure Config where
  algorithm : String := Strategy.dynamic.name
  /-- The time is taken as seed if there is none. -/
  seed : Option Int := none
  search : SearchOptions := {}
  stopping : StoppingOptions := {}
  benchmark : BenchmarkOptions := {}

namespace Config

def demand (p : Bool) (cause : SetupFault) : Except SetupFault Unit :=
  if p then .ok () else .error cause

def demandProbability (name : String) (x : Float) : Except SetupFault Unit :=
  demand (0.0 ≤ x && x ≤ 1.0) (.probability name (Shortest.text x))

/-- The plateau that is tied to a minimum coverage is described in full. -/
def demandPlateau (stopping : StoppingOptions) : Except SetupFault Unit :=
  if stopping.minimumCoverage < 100 then do
    demand (0 < stopping.minimumCoverage) .minimumCoverage
    demand (0 < stopping.minimumPlateauIterations) .plateauIterations
  else .ok ()

def validate (config : Config) : Except SetupFault Unit := do
  let search := config.search
  demand (1 ≤ search.population) .population
  demand (1 ≤ search.chromosomeLength) .chromosomeLength
  demand (1 ≤ search.numberOfMutations) .numberOfMutations
  demand (1 ≤ search.tournamentSize) .tournamentSize
  demandProbability "test_insertion_probability" search.testInsertionProbability
  demandProbability "test_delete_probability" search.testDeleteProbability
  demandProbability "test_change_probability" search.testChangeProbability
  demandProbability "test_insert_probability" search.testInsertProbability
  demandProbability "statement_insertion_probability" search.statementInsertionProbability
  let stopping := config.stopping
  demand (0 ≤ stopping.maximumCoverage && stopping.maximumCoverage ≤ 100) .maximumCoverage
  demand (stopping.maximumSearchTime != 0) .searchTime
  demand (stopping.maximumCoveragePlateau != 0) .plateau
  demandPlateau stopping
  demand (1 ≤ config.benchmark.depth && 1 ≤ config.benchmark.width) .nesting
  demand (1 ≤ config.benchmark.valueRange) .valueRange

end Config

end GoalSearch
