import GoalSearch.Number.Scalar
import GoalSearch.Random.Source

/-!
# Nested targets

A nested goal asks a list of integers to contain its target and the targets of all its ancestors. Its
fitness is the number of goals on the path from the root below the first unsatisfied one, plus the
normalised distance of the closest value to that one's target.
-/

namespace GoalSearch

structure NestedGoal where
  name : String
  target : Int
  parent : Option Nat
  above : List Int
deriving Repr, DecidableEq

namespace NestedGoal

def path (g : NestedGoal) : List Int := g.above ++ [g.target]

def text (g : NestedGoal) : String := s!"NestedTargetGoal({g.name}, target={g.target})"

variable {α : Type} [Scalar α]

def leastDistance (target : Int) : List Int → Option Nat
  | [] => none
  | v :: values =>
    let d := (v - target).natAbs
    some (((leastDistance target values).map (min d)).getD d)

/-- The distance of the closest value to a target, infinite if there are no values. -/
def branchDistance (target : Int) (values : List Int) : Except Fault α :=
  match leastDistance target values with
  | none => .ok Scalar.infinity
  | some d => Scalar.ofInt d

/-- The fitness of a list of values for the goal at the end of a path. -/
def pathFitness (values : List Int) : List Int → Except Fault α
  | [] => .ok Scalar.zero
  | target :: below => do
    let distance : α ← branchDistance target values
    if Scalar.zero < distance then
      return (← Scalar.ofInt below.length) + (← Scalar.normalise distance)
    else pathFitness values below

def fitness (g : NestedGoal) (values : List Int) : Except Fault α := pathFitness values g.path

/-! ## Forests -/

variable {ω : Type} (source : RandomSource ω)

def children (valueRange : Int) (width : Nat) (parent : Option (NestedGoal × Nat)) :
    Draw ω (List NestedGoal) :=
  (List.range width).mapM fun k => do
    let target ← source.int 0 valueRange
    return match parent with
      | none => ⟨toString (k + 1), target, none, []⟩
      | some (p, i) => ⟨p.name ++ "." ++ toString (k + 1), target, some i, p.path⟩

/-- Draws the given number of levels below some goals; the positions of new goals start at `count`. -/
def levels (valueRange : Int) (width : Nat) :
    Nat → Nat → List (Option (NestedGoal × Nat)) → Draw ω (List NestedGoal)
  | 0, _, _ => pure []
  | depth + 1, count, parents => do
    let goals := (← parents.mapM (children source valueRange width)).flatten
    let rest ← levels valueRange width depth (count + goals.length) ((goals.zipIdx count).map some)
    return goals ++ rest

/-- Draws a forest of nested goals in level order: `width` roots, and `width` children for every goal
above the last level. -/
def forest (depth width valueRange : Int) : Draw ω (List NestedGoal) := do
  if depth ≤ 0 || width ≤ 0 then throw (.requirement .nestingShape)
  levels source valueRange width.toNat depth.toNat 0 [none]

end NestedGoal

end GoalSearch
