import GoalSearch.Config

/-!
# The fields of a configuration

Every option of a configuration with its name, the group it belongs to, the sort of its values, and how
to read and to set it.
-/

namespace GoalSearch

inductive OptionValue where
  | integer (n : Int)
  | optional (n : Option Int)
  | real (x : Float)
  | flag (b : Bool)
  | name (s : String)

inductive OptionGroup where
  | general
  | search
  | stopping
  | benchmark
deriving Repr, DecidableEq

def OptionGroup.all : List OptionGroup := [general, search, stopping, benchmark]

def OptionGroup.name : OptionGroup → String
  | general => ""
  | search => "search_algorithm"
  | stopping => "stopping"
  | benchmark => "benchmark"

structure Field where
  name : String
  group : OptionGroup
  get : Config → OptionValue
  /-- Sets the option; a value of another sort changes nothing. -/
  set : OptionValue → Config → Config

namespace Field

def integer (name : String) (group : OptionGroup) (get : Config → Int)
    (set : Int → Config → Config) : Field where
  name := name
  group := group
  get c := .integer (get c)
  set
    | .integer n, c => set n c
    | _, c => c

def real (name : String) (group : OptionGroup) (get : Config → Float)
    (set : Float → Config → Config) : Field where
  name := name
  group := group
  get c := .real (get c)
  set
    | .real x, c => set x c
    | _, c => c

def flag (name : String) (group : OptionGroup) (get : Config → Bool)
    (set : Bool → Config → Config) : Field where
  name := name
  group := group
  get c := .flag (get c)
  set
    | .flag b, c => set b c
    | _, c => c

end Field

namespace Config

def algorithmField : Field where
  name := "algorithm"
  group := .general
  get c := .name c.algorithm
  set
    | .name s, c => { c with algorithm := s }
    | _, c => c

def seedField : Field where
  name := "seed"
  group := .general
  get c := .optional c.seed
  set
    | .optional n, c => { c with seed := n }
    | _, c => c

def searchFields : List Field :=
  [.integer "population" .search (·.search.population)
      fun n c => { c with search.population := n },
    .integer "chromosome_length" .search (·.search.chromosomeLength)
      fun n c => { c with search.chromosomeLength := n },
    .integer "number_of_mutations" .search (·.search.numberOfMutations)
      fun n c => { c with search.numberOfMutations := n },
    .real "test_insertion_probability" .search (·.search.testInsertionProbability)
      fun x c => { c with search.testInsertionProbability := x },
    .real "test_delete_probability" .search (·.search.testDeleteProbability)
      fun x c => { c with search.testDeleteProbability := x },
    .real "test_change_probability" .search (·.search.testChangeProbability)
      fun x c => { c with search.testChangeProbability := x },
    .real "test_insert_probability" .search (·.search.testInsertProbability)
      fun x c => { c with search.testInsertProbability := x },
    .real "statement_insertion_probability" .search (·.search.statementInsertionProbability)
      fun x c => { c with search.statementInsertionProbability := x },
    .integer "tournament_size" .search (·.search.tournamentSize)
      fun n c => { c with search.tournamentSize := n },
    .flag "reserve_best_per_goal" .search (·.search.reserveBestPerGoal)
      fun b c => { c with search.reserveBestPerGoal := b },
    .flag "filter_dominated_solutions" .search (·.search.filterDominatedSolutions)
      fun b c => { c with search.filterDominatedSolutions := b }]

def stoppingFields : List Field :=
  [.integer "maximum_search_time" .stopping (·.stopping.maximumSearchTime)
      fun n c => { c with stopping.maximumSearchTime := n },
    .integer "maximum_iterations" .stopping (·.stopping.maximumIterations)
      fun n c => { c with stopping.maximumIterations := n },
    .integer "maximum_fitness_evaluations" .stopping (·.stopping.maximumFitnessEvaluations)
      fun n c => { c with stopping.maximumFitnessEvaluations := n },
    .integer "maximum_coverage" .stopping (·.stopping.maximumCoverage)
      fun n c => { c with stopping.maximumCoverage := n },
    .integer "maximum_coverage_plateau" .stopping (·.stopping.maximumCoveragePlateau)
      fun n c => { c with stopping.maximumCoveragePlateau := n },
    .integer "minimum_coverage" .stopping (·.stopping.minimumCoverage)
      fun n c => { c with stopping.minimumCoverage := n },
    .integer "minimum_plateau_iterations" .stopping (·.stopping.minimumPlateauIterations)
      fun n c => { c with stopping.minimumPlateauIterations := n },
    .integer "maximum_memory" .stopping (·.stopping.maximumMemory)
      fun n c => { c with stopping.maximumMemory := n }]

def benchmarkFields : List Field :=
  [.integer "depth" .benchmark (·.benchmark.depth) fun n c => { c with benchmark.depth := n },
    .integer "width" .benchmark (·.benchmark.width) fun n c => { c with benchmark.width := n },
    .integer "value_range" .benchmark (·.benchmark.valueRange)
      fun n c => { c with benchmark.valueRange := n }]

def fieldsOf : OptionGroup → List Field
  | .general => [algorithmField, seedField]
  | .search => searchFields
  | .stopping => stoppingFields
  | .benchmark => benchmarkFields

def fields : List Field := OptionGroup.all.flatMap fieldsOf

end Config

end GoalSearch
