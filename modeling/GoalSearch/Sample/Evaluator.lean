import GoalSearch.Benchmark
import GoalSearch.Sample.World

/-!
# Sample goals

Goals with simple evaluators: scripted verdicts, limits on the size, the presence of a statement, sums
of statements, and nested targets.
-/

namespace GoalSearch.Sample

inductive Evaluator where
  | nested (goal : NestedGoal)
  /-- The verdicts of one call after the other; the last one holds on. -/
  | script (verdicts : Array Verdict)
  | sizeAbove (limit : Number)
  | sizeBelow (limit : Number)
  | contains (value : Statement) (otherwise : Number)
  /-- How far the sum of the statements, reduced by a modulus, is from a target; in units of a
  scale. -/
  | sumModulo (modulus target : Int) (scale : Number)
  | constant (x : Number)

structure SampleGoal where
  name : String
  evaluator : Evaluator
  parent : Option Nat
  maximised : Bool

namespace SampleGoal

def text (g : SampleGoal) : String :=
  match g.evaluator with
  | .nested goal => goal.text
  | _ => s!"Goal({g.name})"

def counts (g : SampleGoal) : Bool :=
  match g.evaluator with
  | .nested _ | .constant _ => false
  | _ => true

def nested? (g : SampleGoal) : Option NestedGoal :=
  match g.evaluator with
  | .nested goal => some goal
  | _ => none

def ofTarget (earlier : Array SampleGoal) (name : String) (target : Int) (parent : Option Nat) :
    SampleGoal :=
  let above := (parent.bind fun p => earlier[p]?.bind nested?).elim [] NestedGoal.path
  ⟨name, .nested ⟨name, target, parent, above⟩, parent, false⟩

end SampleGoal

namespace Evaluator

def verdict : Except Fault Number → Verdict
  | .ok x => .number x
  | .error _ => .failure

def excess (x : Except Fault Number) : Verdict :=
  verdict (x.map fun x => if (Number.int 0).lt x then x else .int 0)

def quotient (num : Nat) : Number → Except Fault Number
  | .int den =>
    if den = 0 then .error .tooLarge
    else
      match Binary64.ofRatio? num den.natAbs with
      | some x => .ok (.real (if den < 0 then -x else x))
      | none => .error .tooLarge
  | .real den => do
    if den == 0.0 then throw .tooLarge
    return .real ((← (Number.int num).toFloat) / den)

def evaluate (e : Evaluator) (call : Nat) (content : Content Statement) : Verdict :=
  match e, content with
  | nested g, content => g.evaluate content
  | script verdicts, _ => verdicts.getD (min call (verdicts.size - 1)) .failure
  | sizeAbove limit, content => excess ((Number.int content.size).sub limit)
  | sizeBelow limit, content => excess (limit.sub (.int content.size))
  | contains value otherwise, .testCase statements _ =>
    .number (if statements.any (·.agrees value) then .int 0 else otherwise)
  | sumModulo modulus target scale, .testCase statements _ =>
    match NestedGoal.integers statements with
    | .ok values =>
      if modulus = 0 then .failure
      else verdict (quotient (Int.fmod (values.foldl (· + ·) 0) modulus - target).natAbs scale)
    | .error _ => .failure
  | constant x, _ => .number x
  | _, _ => .failure

end Evaluator

end GoalSearch.Sample
