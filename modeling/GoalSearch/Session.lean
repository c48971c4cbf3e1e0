import GoalSearch.Search.Evolution

/-!
# Sessions

A session runs searches for a list of goals as a configuration says: it checks the configuration, puts
the archive and the stopping conditions together, searches, and reports what came of it.
-/

namespace GoalSearch

namespace Config

def limited (on : Bool) (condition : Except Fault Condition) : Except Fault (List Condition) :=
  if on then do return [← condition] else .ok []

def minimumPlateau (stopping : StoppingOptions) : Except Fault Condition := do
  match demandPlateau stopping with
  | .ok _ => Condition.ofPlateau stopping.minimumPlateauIterations stopping.minimumCoverage
  | .error cause => throw (.setup cause)

def budgets (now : Int) (stopping : StoppingOptions) : Except Fault (List Condition) := do
  let iterations ← limited (0 ≤ stopping.maximumIterations)
    (Condition.ofIterations stopping.maximumIterations)
  let evaluations ← limited (0 ≤ stopping.maximumFitnessEvaluations)
    (Condition.ofEvaluations stopping.maximumFitnessEvaluations)
  let time ← limited (0 ≤ stopping.maximumSearchTime) (Condition.ofSeconds now stopping.maximumSearchTime)
  let coverage ← limited (stopping.maximumCoverage < 100) (Condition.ofCoverage stopping.maximumCoverage)
  let plateau ← limited (0 ≤ stopping.maximumCoveragePlateau)
    (Condition.ofPlateau stopping.maximumCoveragePlateau 0)
  let minimum ← limited (stopping.minimumCoverage < 100) (minimumPlateau stopping)
  return iterations ++ evaluations ++ time ++ coverage ++ plateau ++ minimum

/-- The seconds that a search without any budget may take. -/
def fallbackSeconds : Nat := 600

def conditions {σ ω : Type} (subject : Subject σ ω) (stopping : StoppingOptions) :
    SceneM σ ω (List Condition) := do
  let now := subject.now (← SceneM.outside)
  let budgets ← SceneM.act fun w => (budgets now stopping, w)
  let budgets ← if budgets.isEmpty then do
      SceneM.log .noCondition
      SceneM.log (.fallbackTimeout fallbackSeconds)
      pure [.searchTime fallbackSeconds now]
    else pure budgets
  return budgets ++
    if 0 ≤ stopping.maximumMemory then [.ofMegabytes stopping.maximumMemory] else []

end Config

structure Session (σ ω : Type) where
  config : Config
  goals : List Goal
  subject : Subject σ ω
  hasFactory : Bool := true
  trivial : Content σ → Bool := fun _ => false

namespace Session
variable {σ ω : Type} (session : Session σ ω)

def setup (strategy : Strategy) : Setup σ ω where
  subject := session.subject
  strategy := strategy
  options := session.config.search
  tournamentSize := session.config.search.tournamentSize.toNat
  trivial := session.trivial

def assemble : SearchM σ ω (Setup σ ω) := do
  match Strategy.ofName? session.config.algorithm with
  | none => throw (.setup .unknownStrategy)
  | some strategy =>
    SearchM.log (.strategy strategy.name)
    SearchM.log (.archiveOver session.goals.length)
    if session.config.search.tournamentSize ≤ 0 then throw (.requirement .tournamentSize)
    let conditions ← SearchM.onScene (Config.conditions session.subject session.config.stopping)
    SearchM.log .rankingChosen
    modify fun s =>
      { scene := s.scene
        archive := .ofGoals session.goals
        conditions := conditions
        events := s.events }
    return session.setup strategy

def reportEnd (setup : Setup σ ω) : SearchM σ ω Unit := do
  if ← SearchM.resourcesLeft setup.subject then SearchM.log .resourcesLeft
  else
    SearchM.log .conditionReached
    let now ← SearchM.now setup.subject
    (← get).conditions.forM fun c => SearchM.log (.condition (c.text now))

def search (fuel : Nat) (setup : Setup σ ω) : SearchM σ ω SearchResult := do
  SearchM.log (.searchStarted session.goals.length)
  let result ← SearchM.generate setup fuel
  reportEnd setup
  return result

/-- Runs a computation and something after it, also after a fault. -/
def always {α : Type} (x : SearchM σ ω α) (after : SearchM σ ω Unit) : SearchM σ ω α := do
  let r ← ExceptT.lift x.run
  after
  ExceptT.mk (pure r)

def check : Except Fault Unit := do
  match session.config.validate with
  | .ok _ => pure ()
  | .error cause => throw (.setup cause)
  if session.goals.isEmpty then throw (.generation .noGoals)
  if !session.hasFactory then throw (.generation .noFactory)

def prepare : SearchM σ ω (Setup σ ω) := do
  SearchM.onScene (SceneM.act fun w => (session.check, w))
  SearchM.log (.seed (session.subject.seed (← get).scene.outside))
  session.assemble

def reportResult (result : SearchResult) : SearchM σ ω Unit :=
  SearchM.log (.covered result.covered.length result.perGoal.length result.generations)

/-- Runs a search from the start, with at most as many generations as `fuel` says. -/
def run (fuel : Nat) : SearchM σ ω SearchResult := do
  let setup ← session.prepare
  let result ← always (session.search fuel setup) (SearchM.log .searchStopped)
  reportResult result
  return result

end Session

end GoalSearch
