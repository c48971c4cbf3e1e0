import GoalSearch.Search.Breeding
import GoalSearch.Survival

/-!
# Evolution

A search makes a population, then evolves it generation by generation until a stopping condition is
fulfilled or all goals are covered, and last picks the solutions from the archive.
-/

namespace GoalSearch

structure SearchResult where
  solutions : List Nat
  perGoal : List (Goal × Bool)
  generations : Int
deriving Repr, DecidableEq

namespace SearchM
variable {σ ω : Type} (setup : Setup σ ω)

def selectSurvivors (union : List Nat) (fronts : List (List Nat)) (goals : List Goal) :
    SearchM σ ω (List Nat) :=
  onScene (Survival.survivors (fitness setup.subject) Individual.distanceOf
    setup.options.reserveBestPerGoal setup.options.population union fronts goals)

/-- Breeds the population and selects the next one; gives the parents and the offspring together. -/
def renew : SearchM σ ω (List Nat) := do
  let goals ← activeGoals setup
  let offspring ← breed setup
  let union := (← get).population ++ offspring
  log (.unionSize union.length)
  let fronts ← computeDominance setup.subject union goals
  enter .filling
  let survivors ← selectSurvivors setup union fronts goals
  modify fun s => { s with population := survivors }
  return union

def evolve : SearchM σ ω Unit := do
  let union ← renew setup
  let _ ← updateArchive setup.subject union
  modify fun s => { s with generation := s.generation + 1 }

/-- Starts the search with a population of new individuals; gives its members. -/
def populate : SearchM σ ω (List Nat) := do
  modify fun s => { s with phase := .initializing, generation := 0 }
  onStart setup.subject
  gatherDependencies setup
  let members ← randomPopulation setup
  modify fun s => { s with population := members }
  return members

def initialise : SearchM σ ω Unit := do
  let members ← populate setup
  let _ ← updateArchive setup.subject members
  let _ ← computeDominance setup.subject members (← activeGoals setup)
  onFirst (← snapshot setup.subject)

def goesOn : SearchM σ ω Bool := do
  return (← resourcesLeft setup.subject) && !(← get).archive.uncovered.isEmpty

def advance : SearchM σ ω Unit := do
  enter .evolving
  evolve setup
  onIteration setup.subject (← get).generation (← snapshot setup.subject)

def advanceAll : Nat → SearchM σ ω Unit
  | 0 => do
    if ← goesOn setup then throw .unfinished
  | fuel + 1 => do
    if ← goesOn setup then
      advance setup
      advanceAll fuel

def bestIndividuals : SearchM σ ω (List Nat) := do
  nonDominated setup.subject (← get).population

def archivedSolutions : SearchM σ ω (List Nat) := do
  let archived ← solutions setup.subject
  if !archived.isEmpty && setup.options.filterDominatedSolutions then
    nonDominated setup.subject archived
  else return archived

def finalSolutions : SearchM σ ω (List Nat) := do
  let archived ← archivedSolutions setup
  if archived.isEmpty then bestIndividuals setup else return archived

def finalise : SearchM σ ω SearchResult := do
  enter .done
  onFinish
  let solutions ← finalSolutions setup
  let s ← get
  return ⟨solutions, s.archive.objectives.map fun g => (g, (s.archive.get? g).isSome), s.generation⟩

/-- Searches, with at most as many generations as `fuel` says. -/
def generate (fuel : Nat) : SearchM σ ω SearchResult := do
  initialise setup
  advanceAll setup fuel
  finalise setup

end SearchM

namespace SearchResult

def covered (r : SearchResult) : List Goal := (r.perGoal.filter (·.2)).map (·.1)

def coverage (r : SearchResult) : Float := coverageRatio r.covered.length r.perGoal.length

/-- Collects copies of the solutions in a new suite, which is measured by all goals. -/
def toSuite {σ ω : Type} (subject : Subject σ ω) (r : SearchResult) : SceneM σ ω Nat := do
  let members ← r.solutions.mapM Individual.clone
  let suite ← SceneM.add { content := .suite members }
  r.perGoal.forM fun (g, _) => Individual.addFunction subject suite (.overSuite suite g)
  return suite

end SearchResult

end GoalSearch
