import GoalSearch.Config
import GoalSearch.Mutation
import GoalSearch.Nested
import GoalSearch.Scene
import GoalSearch.Statement

/-!
# The synthetic benchmark

A subject whose test cases are sequences of integers and whose goals are a forest of nested targets.
-/

namespace GoalSearch

/-- A random integer between zero and a bound, to replace or to shift a statement. -/
structure IntegerMutation where
  valueRange : Int
  rates : MutationRates

namespace IntegerMutation
variable {ω : Type} (source : RandomSource ω)

def make (valueRange : Int) (rates : MutationRates) : Except Fault IntegerMutation :=
  if 0 < valueRange then .ok ⟨valueRange, rates⟩ else .error (.requirement .valueRange)

def create (op : IntegerMutation) : Draw ω Statement := do
  return .int (← source.int 0 op.valueRange)

/-- The deviation of a shift: a hundredth of the range of values, but at least one. -/
def deviation (op : IntegerMutation) : Except Fault Float :=
  match Binary64.ofRatio? op.valueRange 100 with
  | some x => .ok (if 1.0 < x then x else 1.0)
  | none => .error .tooLarge

/-- A value moved by a delta, by one if the delta is zero, and back into the range of values. -/
def shifted (op : IntegerMutation) (value delta : Int) : Int :=
  min (max (value + (if delta = 0 then 1 else delta)) 0) (op.valueRange - 1)

/-- Replaces a value or shifts it a little; no change if the outcome is the same value. -/
def change (op : IntegerMutation) (s : Statement) : Draw ω (Option Statement) := do
  if ← source.bool then
    let new ← create source op
    return if s.agrees new then none else some new
  else
    let delta ← source.shift (← .ofExcept op.deviation)
    match s.integer? with
    | some n =>
      let new := op.shifted n delta
      return if new = n then none else some (.int new)
    | none => throw .statementForm

def sequence (op : IntegerMutation) : SequenceMutation Statement ω where
  toMutationRates := op.rates
  create := create source op
  change := change source op

end IntegerMutation

namespace NestedGoal

def integers (statements : List Statement) : Except Fault (List Int) :=
  statements.mapM fun s =>
    match s.integer? with
    | some n => .ok n
    | none => .error .statementForm

def evaluate (g : NestedGoal) : Content Statement → Verdict
  | .testCase statements _ =>
    match integers statements >>= g.fitness with
    | .ok x => .number (.real x)
    | .error _ => .failure
  | _ => .failure

end NestedGoal

structure Benchmark where
  goals : Array NestedGoal
  mutation : IntegerMutation
  length : Int

namespace Benchmark
variable {ω : Type}

def rates (search : SearchOptions) : MutationRates where
  deleteProbability := search.testDeleteProbability
  changeProbability := search.testChangeProbability
  insertProbability := search.testInsertProbability
  insertionProbability := search.statementInsertionProbability
  maxLength := search.chromosomeLength.toNat

def ofGoals (config : Config) (goals : List NestedGoal) : Except Fault Benchmark := do
  let mutation ← IntegerMutation.make config.benchmark.valueRange (rates config.search)
  return ⟨goals.toArray, mutation, config.search.chromosomeLength⟩

def create (source : RandomSource ω) (config : Config) : SceneM Statement ω Benchmark := do
  let options := config.benchmark
  let goals ← SceneM.draw
    (NestedGoal.forest source options.depth options.width options.valueRange)
  SceneM.log (.benchmarkCreated goals.length options.depth options.width)
  SceneM.act fun w => (ofGoals config goals, w)

def goalList (b : Benchmark) : List Goal := (List.range b.goals.size).map .atom

def label (b : Benchmark) : Goal → String
  | .atom n => (b.goals[n]?.map NestedGoal.text).getD ""
  | .overSuite _ inner => "Suite(" ++ b.label inner ++ ")"

def make (source : RandomSource ω) (b : Benchmark) : Draw ω (Blueprint Statement) := do
  let statements ← (b.mutation.sequence source).randomSequence source b.length
  return ⟨statements, some 0, b.goalList⟩

/-- The benchmark as the subject of a search. Its operator and its factory draw from a source of their
own, which may be that of the search. -/
def subject (around : Surroundings ω) (source : RandomSource ω) (b : Benchmark) :
    Subject Statement ω where
  toSurroundings := around
  evaluate n content w :=
    match b.goals[n]? with
    | some g => (g.evaluate content, w)
    | none => (.failure, w)
  parent n := b.goals[n]?.bind (·.parent)
  maximised _ := false
  mutate _ := (b.mutation.sequence source).mutate source
  make := make source b

end Benchmark

end GoalSearch
