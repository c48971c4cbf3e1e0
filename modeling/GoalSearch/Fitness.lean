import GoalSearch.Number.Reader
import GoalSearch.Number.Scalar
import GoalSearch.Scene
import GoalSearch.Snapshot

/-!
# Fitness

The fitness of an individual for a goal tells how far it is from covering the goal; zero means covered.
Values are computed when first asked for and kept until the individual changes. Whatever an evaluator
comes back with is brought into the range from zero to `worst`.
-/

namespace GoalSearch

namespace Fitness
variable {σ ω : Type} (subject : Subject σ ω)

/-- The fitness of an individual that could not be evaluated: the largest finite number, so that
differences between fitness values are defined. -/
def worst : Float := Binary64.largest

def check (goal : Goal) (x : Float) : SceneM σ ω Float := do
  if Binary64.isNaN x || x < 0.0 then
    SceneM.log (.invalidFitness x goal)
    return worst
  else return if worst < x then worst else x

def failed (goal : Goal) : SceneM σ ω Float := do
  SceneM.log (.evaluationFailed goal)
  return worst

def ofVerdict (goal : Goal) : Verdict → SceneM σ ω Float
  | .number x =>
    match x.toFloat? with
    | some x => check goal x
    | none => failed goal
  | .text s =>
    match Reader.float? s with
    | some x => check goal x
    | none => failed goal
  | .failure => failed goal
  | .abort fault => throw fault

/-- The least of some values, the earliest one where several are not told apart. -/
def least (fallback : Float) : List Float → Float
  | [] => fallback
  | x :: rest => rest.foldl (fun a b => if b < a then b else a) x

def refresh (i : Nat) : SceneM σ ω Unit := SceneM.update i Individual.refresh

def lookUp (goal : Goal) (i : Nat) (compute : SceneM σ ω Float) : SceneM σ ω Float := do
  match (← SceneM.individual i).cache.get? goal with
  | some v => return v
  | none =>
    let v ← compute
    SceneM.update i fun x => { x with cache := x.cache.insert goal v }
    return v

/-- Reads a known value, else computes and stores it. -/
def remember (goal : Goal) (i : Nat) (compute : SceneM σ ω Float) : SceneM σ ω Float := do
  if (← SceneM.individual i).changed then refresh i
  lookUp goal i compute

end Fitness

open Fitness

def fitness {σ ω : Type} (subject : Subject σ ω) : Goal → Nat → SceneM σ ω Float
  | .atom n, i => remember (.atom n) i do
    let content := (← SceneM.individual i).content
    let verdict ← SceneM.act fun w =>
      let (v, w) := subject.evaluate n content w
      (.ok v, w)
    ofVerdict (.atom n) verdict
  | .overSuite serial inner, i => remember (.overSuite serial inner) i do
    match (← SceneM.individual i).content with
    | .suite members =>
      let values ← members.mapM (fitness subject inner)
      check (.overSuite serial inner) (least worst values)
    | _ => failed (.overSuite serial inner)

namespace Individual
variable {σ ω : Type} (subject : Subject σ ω)

def covers (goal : Goal) (i : Nat) : SceneM σ ω Bool := do
  return (← fitness subject goal i) == 0.0

/-- The share of its goals that an individual covers, one if it has none. -/
def coverage (i : Nat) : SceneM σ ω Float := do
  let functions := (← SceneM.individual i).functions
  let verdicts ← functions.mapM (covers subject · i)
  return coverageRatio (verdicts.count true) functions.length

def setFitness (i : Nat) (values : List (Goal × Float)) : SceneM σ ω Unit := do
  Fitness.refresh i
  SceneM.update i fun x => { x with cache := values.foldl (fun c (g, v) => c.insert g v) x.cache }

def addFunction (i : Nat) (goal : Goal) : SceneM σ ω Unit := do
  if subject.isMaximised goal then throw (.requirement .minimisation)
  SceneM.update i fun x => { x with functions := x.functions ++ [goal] }

def invalidate (i : Nat) : SceneM σ ω Unit := SceneM.update i fun x => { x with cache := [] }

def setAge (i : Nat) (generation : Int) : SceneM σ ω Unit :=
  SceneM.update i fun x => { x with age := generation }

/-- Lets the operator of a test case mutate it; the individual counts as changed if the operator says
so. -/
def mutate (i : Nat) : SceneM σ ω Unit := do
  match (← SceneM.individual i).content with
  | .testCase statements (some operator) =>
    let (result, statements) ← SceneM.act fun w =>
      let (result, statements, w) := subject.mutate operator (statements, w)
      (.ok (result, statements), w)
    SceneM.update i fun x => { x with content := .testCase statements (some operator) }
    if ← ExceptT.mk (pure result) then SceneM.update i fun x => { x with changed := true }
  | .testCase _ none => throw (.requirement .operatorGiven)
  | _ => throw .contentForm

/-- Copies an individual, and the members of a suite with it. The depth bounds how far suites may hold
other suites. -/
def cloneWithin : Nat → Nat → SceneM σ ω Nat
  | 0, _ => throw .endlessSuite
  | depth + 1, i => do
    let x ← SceneM.individual i
    match x.content with
    | .suite members => do
      let members ← members.mapM (cloneWithin depth)
      SceneM.add { x with content := .suite members }
    | _ => SceneM.add x

def clone (i : Nat) : SceneM σ ω Nat := do
  let depth ← fun s => (.ok (s.pool.size + 1), s)
  cloneWithin depth i

def statementCount (members : List Nat) : SceneM σ ω Nat := do
  return ((← members.mapM SceneM.individual).map size).foldl (· + ·) 0

def members (i : Nat) : SceneM σ ω (List Nat) := do
  match (← SceneM.individual i).content with
  | .suite members => return members
  | _ => throw .contentForm

def addMembers (i : Nat) (new : List Nat) : SceneM σ ω Unit := do
  let old ← members i
  SceneM.update i fun x =>
    { x with content := .suite (old ++ new), changed := x.changed || !new.isEmpty }

structure Summary where
  testCases : Nat
  statements : Nat
  coverage : Float

def summary (suite : Nat) : SceneM σ ω Summary := do
  let members ← members suite
  return ⟨members.length, ← statementCount members, ← coverage subject suite⟩

def statements (i : Nat) : SceneM σ ω (List σ) := do
  match (← SceneM.individual i).content with
  | .testCase statements _ => return statements
  | _ => throw .contentForm

/-- Edits a test case behind the back of its individual, which does not count as changed. -/
def edit (i : Nat) (f : List σ → Except Fault (List σ)) : SceneM σ ω Unit := do
  match (← SceneM.individual i).content with
  | .testCase statements operator =>
    let new ← SceneM.act fun w => (f statements, w)
    SceneM.update i fun x => { x with content := .testCase new operator }
  | _ => throw .contentForm

def text (x : Individual σ) : String := s!"TestCaseChromosome(size={x.size}, age={x.age})"

def ofTestCase (statements : Option (List σ)) (operator : Option Nat) : SceneM σ ω Nat := do
  match statements with
  | some statements => SceneM.add { content := .testCase statements operator }
  | none => throw (.requirement .testCaseGiven)

def build (plan : Blueprint σ) : SceneM σ ω Nat := do
  let i ← ofTestCase (some plan.statements) plan.operator
  plan.functions.forM (addFunction subject i)
  return i

end Individual

end GoalSearch
