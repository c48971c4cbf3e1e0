import GoalSearch.Benchmark
import GoalSearch.Command.Table
import GoalSearch.Session

/-!
# Running the benchmark

A run checks the configuration, draws a benchmark, searches for its goals, and reports the coverage: in
a table on a console that understands styles, in one line otherwise. The status of the program tells
whether all goals were covered.
-/

namespace GoalSearch.Command

inductive Outcome where
  | covered
  | uncovered
  | setupFailed
deriving Repr, DecidableEq

def Outcome.status : Outcome → Nat
  | covered => 0
  | uncovered => 1
  | setupFailed => 2

inductive Shown where
  | line (text : String)
  | status (text : String)
  | table (t : Table)
deriving Repr, DecidableEq

namespace Report
variable {ω : Type} (around : Surroundings ω) (source : RandomSource ω)

def busy : String := "Running Mosacore..."

def verdict (covered : Bool) : String := if covered then "[green]yes[/green]" else "[red]no[/red]"

def row (label : Goal → String) (s : Search Statement ω) (goal : Goal) (covered : Bool) :
    List String :=
  let size := match s.archive.get? goal with
    | some i => toString (s.scene.individual i).size
    | none => "-"
  [label goal, verdict covered, size]

def table (label : Goal → String) (result : SearchResult) (suite : Individual.Summary)
    (s : Search Statement ω) : Table where
  title := s!"Coverage after {result.generations} generations"
  columns := ["Goal", "Covered", "Test size"]
  rows := result.perGoal.map fun (g, covered) => row label s g covered
  caption := "Coverage: " ++ Fixed.percent suite.coverage
    ++ s!", {suite.testCases} test cases with {suite.statements} statements"

def line (result : SearchResult) (testCases : Nat) : String :=
  s!"Covered {result.covered.length} of {result.perGoal.length} goals "
    ++ s!"after {result.generations} generations with {testCases} test cases"

def session (config : Config) (b : Benchmark) : Session Statement ω where
  config := config
  goals := b.goalList
  subject := b.subject around source

def prepare (config : Config) : SearchM Statement ω (Option Benchmark) := do
  match config.validate with
  | .error cause =>
    SearchM.log (.invalidSetup cause)
    return none
  | .ok _ => return some (← SearchM.onScene (Benchmark.create source config))

def conclude (styled : Bool) (b : Benchmark) (result : SearchResult) :
    SearchM Statement ω (Outcome × Shown) := do
  let subject := b.subject around source
  let suite ← SearchM.onScene (result.toSuite subject >>= Individual.summary subject)
  SearchM.log (.suiteFound suite.testCases suite.statements)
  let s ← get
  let shown := if styled then Shown.table (table b.label result suite s)
    else .line (line result suite.testCases)
  return (if result.covered.length = result.perGoal.length then .covered else .uncovered, shown)

/-- Runs the benchmark, with at most as many generations as `fuel` says. -/
def run (styled : Bool) (fuel : Nat) (config : Config) :
    SearchM Statement ω (Outcome × List Shown) := do
  match ← prepare source config with
  | none => return (.setupFailed, [])
  | some b =>
    let result ← (session around source config b).run fuel
    let (outcome, shown) ← conclude around source styled b result
    return (outcome, if styled then [.status busy, shown] else [shown])

end Report

end GoalSearch.Command
