import GoalSearch.Archive
import GoalSearch.Config
import GoalSearch.Dependency
import GoalSearch.Fitness
import GoalSearch.Stopping

/-!
# The state of a search

A search acts on a scene and keeps, beside it, the archive, the population, the stopping conditions and
a record of all events. `SearchM` is a computation on that state; what it did before a fault stays done.
-/

namespace GoalSearch

inductive Phase where
  | initializing
  | evolving
  | ranking
  | filling
  | done
deriving Repr, DecidableEq

def Phase.name : Phase → String
  | initializing => "INITIALIZING"
  | evolving => "EVOLVING"
  | ranking => "RANKING"
  | filling => "FILLING"
  | done => "DONE"

structure Report (σ : Type) where
  snapshot : Snapshot
  phase : Phase
  members : List (Nat × Individual σ)

/-- What observers are told, with the phase that the search is in at that moment. -/
inductive Event (σ : Type) where
  | started (time : Int) (phase : Phase)
  /-- An individual is evaluated; it is shown as it is thereafter. -/
  | evaluated (i : Nat) (individual : Individual σ) (phase : Phase)
  | mutated (i : Nat) (phase : Phase)
  | first (report : Report σ)
  | iteration (generation : Int) (report : Report σ)
  | finished (phase : Phase)

/-- What does not change during a search. -/
structure Setup (σ ω : Type) where
  subject : Subject σ ω
  strategy : Strategy
  options : SearchOptions
  tournamentSize : Nat
  /-- Offspring that are not worth keeping. -/
  trivial : Content σ → Bool

structure Search (σ ω : Type) where
  scene : Scene σ ω
  archive : Archive Nat := .ofGoals []
  population : List Nat := []
  generation : Int := 0
  phase : Phase := .initializing
  conditions : List Condition := []
  dependencies : Option Dependencies := none
  events : Array (Event σ) := #[]

abbrev SearchM (σ ω : Type) := ExceptT Fault (StateM (Search σ ω))

namespace SearchM
variable {σ ω α : Type}

def onScene (x : SceneM σ ω α) : SearchM σ ω α :=
  fun ⟨scene, archive, population, generation, phase, conditions, dependencies, events⟩ =>
    let (r, scene) := x scene
    (r, ⟨scene, archive, population, generation, phase, conditions, dependencies, events⟩)

def log (notice : Notice) : SearchM σ ω Unit := onScene (SceneM.log notice)

def enter (phase : Phase) : SearchM σ ω Unit := modify fun s => { s with phase := phase }

def now (subject : Subject σ ω) : SearchM σ ω Int := return subject.now (← get).scene.outside

def resourcesLeft (subject : Subject σ ω) : SearchM σ ω Bool := do
  let s ← get
  return GoalSearch.resourcesLeft (subject.now s.scene.outside) s.conditions

/-! ## Events -/

def record (event : Event σ) : SearchM σ ω Unit :=
  modify fun s => { s with events := s.events.push event }

def signal (x : Signal) : SearchM σ ω Unit :=
  modify fun s => { s with conditions := s.conditions.map (Condition.step x) }

def notice (subject : Subject σ ω) (x : Occasion) : SearchM σ ω Unit :=
  onScene (SceneM.act fun w => (.ok (), subject.notice x w))

def report (snapshot : Snapshot) : SearchM σ ω (Report σ) := do
  let s ← get
  return ⟨snapshot, s.phase, s.population.map fun i => (i, s.scene.individual i)⟩

def onStart (subject : Subject σ ω) : SearchM σ ω Unit := do
  let time ← now subject
  signal (.start time)
  record (.started time (← get).phase)

def onEvaluation (subject : Subject σ ω) (i : Nat) : SearchM σ ω Unit := do
  signal .evaluation
  let s ← get
  record (.evaluated i (s.scene.individual i) s.phase)
  notice subject .evaluated

def onMutation (i : Nat) : SearchM σ ω Unit := do
  signal .mutation
  record (.mutated i (← get).phase)

def onFirst (snapshot : Snapshot) : SearchM σ ω Unit := do
  signal (.first snapshot.coverage)
  log (.initialCoverage snapshot.coverage)
  record (.first (← report snapshot))

/-- Looks up the memory in use if a condition needs it; failing to do so is reported by each of them. -/
def sampleMemory (subject : Subject σ ω) : SearchM σ ω (Option Int) := do
  let s ← get
  let sample := subject.memory s.scene.outside
  if sample.isNone then
    (s.conditions.filter Condition.samplesMemory).forM fun _ => log .memoryUnknown
  return sample

def onIteration (subject : Subject σ ω) (generation : Int) (snapshot : Snapshot) :
    SearchM σ ω Unit := do
  signal (.iteration snapshot.coverage (← sampleMemory subject))
  log (.iteration generation snapshot.coverage)
  snapshot.best.forM fun (g, v) => log (.bestFitness g v)
  record (.iteration generation (← report snapshot))
  notice subject .generationFinished

def onFinish : SearchM σ ω Unit := do
  signal .finish
  record (.finished (← get).phase)

end SearchM

namespace Event
variable {σ : Type}

def isEvaluation : Event σ → Bool
  | evaluated _ _ _ => true
  | _ => false

def isMutation : Event σ → Bool
  | mutated _ _ => true
  | _ => false

/-- The phases in which individuals were evaluated, without immediate repeats. -/
def phases (events : List (Event σ)) : List Phase :=
  (events.filterMap fun
    | evaluated _ _ phase => some phase
    | _ => none).eraseReps

/-- The generation that was reported last, zero at the start of a search. -/
def lastGeneration (events : Array (Event σ)) : Int :=
  events.foldl (fun n e =>
    match e with
    | started _ _ => 0
    | iteration generation _ => generation
    | _ => n) 0

end Event

end GoalSearch
