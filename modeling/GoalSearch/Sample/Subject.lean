import GoalSearch.Sample.Evaluator
import GoalSearch.Sample.Operator

/-!
# Sample subjects

Named goals, operators and a factory put together in a sample world.
-/

namespace GoalSearch.Sample

structure Parts where
  goals : Array SampleGoal
  operators : Array Operator := #[]
  factory : Factory := .cycle #[] none
  functions : List Goal := []

namespace Parts

def evaluate (parts : Parts) (n : Nat) (content : Content Statement) (w : World) :
    Verdict × World :=
  match parts.goals[n]? with
  | some g =>
    let call := w.calls.getD n 0
    (g.evaluator.evaluate call content, { w with calls := w.calls.setIfInBounds n (call + 1) })
  | none => (.failure, w)

def subject (parts : Parts) : Subject Statement World where
  toSurroundings := World.surroundings
  evaluate := parts.evaluate
  parent n := parts.goals[n]?.bind (·.parent)
  maximised n := (parts.goals[n]?).any (·.maximised)
  mutate n :=
    match parts.operators[n]? with
    | some op => op.mutate n
    | none => pure false
  make := parts.factory.make parts.operators parts.functions

def evaluations (parts : Parts) (w : World) : List Nat :=
  ((parts.goals.zip w.calls).toList.filter fun (g, _) => g.counts).map (·.2)

def label (parts : Parts) : Goal → String
  | .atom n => (parts.goals[n]?.map SampleGoal.text).getD ""
  | .overSuite _ inner => "Suite(" ++ parts.label inner ++ ")"

end Parts

end GoalSearch.Sample
