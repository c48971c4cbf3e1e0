import GoalSearch.Crowding
import GoalSearch.Ranking
import GoalSearch.Search.State

/-!
# Ranking and archiving in a search

How a search measures its individuals: which goals are active, how members are ranked over them, and how
covering individuals get into the archive.
-/

namespace GoalSearch

namespace Individual
variable {σ ω : Type} (subject : Subject σ ω)

def setRank (i rank : Nat) : SceneM σ ω Unit := SceneM.update i fun x => { x with rank := rank }

def distanceOf (i : Nat) : SceneM σ ω Float := return (← SceneM.individual i).distance

def setDistance (i : Nat) (d : Float) : SceneM σ ω Unit :=
  SceneM.update i fun x => { x with distance := d }

def rankAll (members : List Nat) (goals : List Goal) : SceneM σ ω (List (List Nat)) := do
  if members.isEmpty then
    SceneM.log .nothingToRank
    return []
  let fronts ← Ranking.rank (fitness subject) goals setRank members
  SceneM.log (.frontCount fronts.length)
  return fronts

def assignDistances (front : List Nat) (goals : List Goal) : SceneM σ ω Unit :=
  Crowding.assign (fitness subject) distanceOf setDistance front goals

def rankAndCrowd (members : List Nat) (goals : List Goal) : SceneM σ ω (List (List Nat)) := do
  let fronts ← rankAll subject members goals
  fronts.forM (assignDistances subject · goals)
  return fronts

end Individual

namespace SearchM
variable {σ ω : Type} (setup : Setup σ ω)

def gatherDependencies : SearchM σ ω Unit := do
  match setup.strategy with
  | .static => pure ()
  | .dynamic =>
    let (dependencies, foreign) :=
      Dependencies.ofGoals setup.subject.parentOf (← get).archive.objectives
    foreign.forM fun (p, g) => log (.foreignParent p g)
    modify fun s => { s with dependencies := some dependencies }

def activeGoals : SearchM σ ω (List Goal) := do
  let s ← get
  match setup.strategy, s.dependencies with
  | .static, _ => return s.archive.uncovered
  | .dynamic, none => throw (.requirement .searchStarted)
  | .dynamic, some dependencies =>
    let (goals, cyclic) :=
      dependencies.independent setup.subject.parentOf s.archive.uncovered
    if cyclic then log (.cyclicGoals goals.length)
    log (.activeGoals goals.length)
    return goals

def computeDominance (subject : Subject σ ω) (members : List Nat) (goals : List Goal) :
    SearchM σ ω (List (List Nat)) := do
  enter .ranking
  onScene (Individual.rankAndCrowd subject members goals)

/-- Hands an individual to the archive for a goal; tells whether the archive changed. -/
def submit (i : Nat) (goal : Goal) : SearchM σ ω Bool := do
  let s ← get
  let (archive, outcome) := s.archive.submit (fun j => (s.scene.individual j).size) i goal
  set { s with archive := archive }
  match outcome with
  | .unknown => log (.unknownGoal goal)
  | .newlyCovered => log (.goalCovered goal)
  | _ => pure ()
  return outcome == .replaced || outcome == .newlyCovered

/-- Hands an individual to the archive for a goal if it covers the goal; an empty one does not count.
Tells whether the archive changed. -/
def offer (subject : Subject σ ω) (goal : Goal) (i : Nat) : SearchM σ ω Bool := do
  if (← onScene (SceneM.individual i)).size = 0 then return false
  if ← onScene (Individual.covers subject goal i) then submit i goal else return false

/-- Offers individuals to the archive, goal after goal. Tells whether the archive changed. -/
def updateArchive (subject : Subject σ ω) (members : List Nat) : SearchM σ ω Bool := do
  let changes ← (← get).archive.objectives.mapM fun goal => members.mapM (offer subject goal)
  log (.archiveCovers (← get).archive.covered.length)
  return changes.any (·.any id)

def addGoals (goals : List Goal) : SearchM σ ω Unit :=
  goals.forM fun g => do
    if g ∉ (← get).archive.objectives then log (.goalAdded g)
    modify fun s => { s with archive := s.archive.addGoal g }

def allCover (subject : Subject σ ω) : List (Goal × Nat) → SceneM σ ω Bool
  | [] => return true
  | (goal, i) :: rest => do
    if ← Individual.covers subject goal i then allCover subject rest else return false

/-- The distinct individuals of the archive, which all have to cover what they are stored for. -/
def solutions (subject : Subject σ ω) : SearchM σ ω (List Nat) := do
  if ← onScene (allCover subject (← get).archive.covered) then return (← get).archive.solutions
  else throw (.requirement .archivedCover)

/-- Evaluates an individual for a goal, which is recorded in the archive at once if it is covered. -/
def evaluateFor (i : Nat) (goal : Goal) : SearchM σ ω Unit := do
  if ← onScene (Individual.covers setup.subject goal i) then
    let _ ← submit i goal

def evaluate (i : Nat) : SearchM σ ω Unit := do
  (← get).archive.objectives.forM (evaluateFor setup i)
  onEvaluation setup.subject i

def bestFitness (subject : Subject σ ω) (goal : Goal) : SearchM σ ω Float := do
  let values ← (← get).population.mapM fun i => onScene (fitness subject goal i)
  return Fitness.least Fitness.worst values

def snapshot (subject : Subject σ ω) : SearchM σ ω Snapshot := do
  let s ← get
  let snapshot := s.archive.snapshot fun i => (s.scene.individual i).size
  let best ← snapshot.uncovered.mapM fun goal => do return (goal, ← bestFitness subject goal)
  return { snapshot with best := best }

/-- The members that none of the others dominates over the covered goals. -/
def nonDominated (subject : Subject σ ω) (members : List Nat) : SearchM σ ω (List Nat) := do
  let goals := (← get).archive.coveredGoals
  onScene (Ranking.nonDominated (fitness subject) goals [] members)

end SearchM

end GoalSearch
