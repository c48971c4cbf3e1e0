import GoalSearch.Fault
import GoalSearch.Goal
import GoalSearch.Number.Fixed
import GoalSearch.Number.Shortest

/-!
# The log

What the search reports while it works. A notice is data; `Notice.level` tells how urgent it is and
`Notice.text` words it, given the names of the goals.
-/

namespace GoalSearch

inductive Level where
  | debug
  | info
  | warning
  | error
deriving Repr, DecidableEq

namespace Level

def name : Level → String
  | debug => "DEBUG"
  | info => "INFO"
  | warning => "WARNING"
  | error => "ERROR"

def all : List Level := [debug, info, warning, error]

def ofName? (name : String) : Option Level := all.find? (·.name == name)

def number : Level → Nat
  | debug => 10
  | info => 20
  | warning => 30
  | error => 40

end Level

inductive Notice where
  | evaluationFailed (goal : Goal)
  | invalidFitness (value : Float) (goal : Goal)
  | unknownGoal (goal : Goal)
  | goalCovered (goal : Goal)
  | goalAdded (goal : Goal)
  | archiveCovers (count : Nat)
  | nothingToRank
  | frontCount (count : Nat)
  | foreignParent (parent child : Goal)
  | cyclicGoals (count : Nat)
  | activeGoals (count : Nat)
  | constructionFailed
  | emptyIndividual
  | initialSize (count : Nat)
  | budgetUsedUp
  | offspringCount (count : Nat)
  | unionSize (count : Nat)
  | initialCoverage (coverage : Float)
  | iteration (generation : Int) (coverage : Float)
  | bestFitness (goal : Goal) (value : Float)
  | noCondition
  | fallbackTimeout (seconds : Nat)
  | strategy (name : String)
  | archiveOver (count : Nat)
  | rankingChosen
  | seed (value : Int)
  | searchStarted (goals : Nat)
  | resourcesLeft
  | conditionReached
  | condition (text : String)
  | searchStopped
  | covered (count total : Nat) (generations : Int)
  | benchmarkCreated (count : Nat) (depth width : Int)
  | memoryUnknown
  | invalidSetup (cause : SetupFault)
  | suiteFound (testCases statements : Nat)

namespace Notice

def level : Notice → Level
  | evaluationFailed _ | invalidFitness _ _ | cyclicGoals _ | memoryUnknown => .warning
  | invalidSetup _ => .error
  | initialCoverage _ | iteration _ _ | noCondition | fallbackTimeout _ | strategy _
  | archiveOver _ | rankingChosen | seed _ | searchStarted _ | resourcesLeft | conditionReached
  | condition _ | searchStopped | covered _ _ _ | benchmarkCreated _ _ _ | suiteFound _ _ => .info
  | _ => .debug

def text (label : Goal → String) : Notice → String
  | evaluationFailed g => s!"Computing fitness for {label g} failed, assuming worst fitness"
  | invalidFitness v g =>
    s!"Invalid fitness value {Shortest.text v} for {label g}, assuming worst fitness"
  | unknownGoal g => s!"Ignoring unknown goal: {label g}"
  | goalCovered g => s!"Target covered: {label g}"
  | goalAdded g => s!"Adding goal: {label g}"
  | archiveCovers n => s!"ArchiveCoverageGoals: {n}"
  | nothingToRank => "Solution is empty"
  | frontCount n => s!"Number of fronts = {n}"
  | foreignParent p g => s!"Parent {label p} of {label g} is not a goal of the search"
  | cyclicGoals n => s!"Goal dependencies are cyclic, considering all {n} uncovered goals"
  | activeGoals n => s!"Current goals: {n}"
  | constructionFailed => "Construction of a new chromosome failed."
  | emptyIndividual => "Skipping empty chromosome"
  | initialSize n => s!"Initial population size = {n}"
  | budgetUsedUp => "Budget used up while breeding"
  | offspringCount n => s!"Number of offsprings = {n}"
  | unionSize n => s!"Union Size = {n}"
  | initialCoverage c =>
    "Initial Population, Coverage: " ++ Fixed.padLeft 5 (Fixed.text 6 c)
  | iteration n c =>
    "Iteration: " ++ Fixed.padLeft 7 (toString n) ++ ", Coverage: "
      ++ Fixed.padLeft 5 (Fixed.text 6 c)
  | bestFitness g v => "Best fitness for uncovered " ++ label g ++ ": " ++ Fixed.text 6 v
  | noCondition => "No stopping condition configured!"
  | fallbackTimeout n => s!"Using fallback timeout of {n} seconds"
  | strategy name => "Using strategy: " ++ name
  | archiveOver n => s!"Using CoverageArchive with {n} goals"
  | rankingChosen => "Using ranking function: FastNonDominatedSorting"
  | seed n => s!"Using seed {n}"
  | searchStarted n => s!"Start generating test cases for {n} goals"
  | resourcesLeft => "Algorithm stopped before using all resources."
  | conditionReached => "Stopping condition reached"
  | condition text => text
  | searchStopped => "Stop generating test cases"
  | covered n total generations =>
    s!"Covered {n} of {total} goals after {generations} generations"
  | benchmarkCreated n depth width =>
    s!"Created {n} nested goals (depth {depth}, width {width})"
  | memoryUnknown => "Failed to get memory usage, assuming 0 bytes used."
  | invalidSetup cause => "Invalid configuration: " ++ cause.message
  | suiteFound n k => s!"Final test suite: {n} test cases, {k} statements"

/-- The notices of a log that are at least as urgent as a level, each with its level and its text. -/
def shown (label : Goal → String) (least : Level) (log : Array Notice) : List (Level × String) :=
  (log.toList.filter fun n => decide (least.number ≤ n.level.number)).map fun n =>
    (n.level, n.text label)

end Notice

end GoalSearch
