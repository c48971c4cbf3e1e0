/-!
# Faults

A computation that cannot go on ends with a `Fault`, which names the cause. Where a cause has a text
of its own, `Fault.message` gives it.
-/

namespace GoalSearch

inductive Requirement where
  | statementPosition
  | tournamentSize
  | conditionLimit
  | nestingShape
  | valueRange
  | testCaseGiven
  | operatorGiven
  | minimisation
  | archivedCover
  | searchStarted
deriving Repr, DecidableEq

/-- What makes a configuration unusable. A probability is reported with the text of its value. -/
inductive SetupFault where
  | population
  | chromosomeLength
  | numberOfMutations
  | tournamentSize
  | probability (name value : String)
  | maximumCoverage
  | searchTime
  | plateau
  | minimumCoverage
  | plateauIterations
  | nesting
  | valueRange
  | unknownStrategy
  /-- Raised by a component from outside, without a text. -/
  | foreign
deriving Repr, DecidableEq

inductive GenerationFault where
  | noGoals
  | noFactory
  /-- Raised by a component from outside, without a text. -/
  | foreign
deriving Repr, DecidableEq

inductive Fault where
  /-- An integer was asked for from an interval without integers. -/
  | emptyRange
  | emptyChoice
  | outOfBounds
  /-- An integer is too large for a binary64 value, or a power is. -/
  | tooLarge
  | notANumber
  | statementForm
  | contentForm
  /-- A suite contains itself. -/
  | endlessSuite
  | negativeValue
  /-- A factory failed in a way that the search does not know. -/
  | factoryBroken
  /-- A factory could not build an individual this time. -/
  | constructionFailed
  /-- A search was given fewer generations than it needs. -/
  | unfinished
  | generation (cause : GenerationFault)
  | setup (cause : SetupFault)
  | requirement (violated : Requirement)
deriving Repr, DecidableEq

def Requirement.message : Requirement → String
  | testCaseGiven => "Cannot create test case chromosome without test case"
  | operatorGiven => "Mutation requires a mutation operator"
  | minimisation => "Currently only minimization is supported"
  | archivedCover => "Some covered targets have a fitness != 0.0"
  | searchStarted => "Search has not been started"
  | _ => ""

def SetupFault.message : SetupFault → String
  | population => "Population size has to be at least 1"
  | chromosomeLength => "Chromosome length has to be at least 1"
  | numberOfMutations => "Number of mutations has to be at least 1"
  | tournamentSize => "Tournament size has to be at least 1"
  | probability name value => name ++ " has to be in [0, 1], got " ++ value
  | maximumCoverage => "Maximum coverage has to be in [0, 100]"
  | searchTime => "Maximum search time has to be positive or -1"
  | plateau => "Maximum coverage plateau has to be positive or -1"
  | minimumCoverage => "Coverage has to be larger 0 but less than 100%"
  | plateauIterations => "Minimum Plateau Iterations has to be larger 0"
  | nesting => "Benchmark depth and width have to be at least 1"
  | valueRange => "Benchmark value range has to be at least 1"
  | unknownStrategy => "No suitable generation strategy found."
  | foreign => ""

def GenerationFault.message : GenerationFault → String
  | noGoals => "Cannot search without goals"
  | noFactory => "Cannot search without a chromosome factory"
  | foreign => ""

def Fault.message : Fault → String
  | negativeValue => "Values to normalise cannot be negative"
  | generation cause => cause.message
  | setup cause => cause.message
  | requirement violated => violated.message
  | _ => ""

end GoalSearch
