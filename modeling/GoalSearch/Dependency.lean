import GoalSearch.Distinct
import GoalSearch.Goal

/-!
# Goal dependencies

A goal with a parent is worth pursuing only when the parent is covered. The dependencies of a search
are gathered once from its goals; `independent` then tells which uncovered goals have no uncovered
parent. If none has, the dependencies run in a circle and all uncovered goals count.
-/

namespace GoalSearch

/-- The known goals, the links from parents to children, and the goals without a parent. -/
structure Dependencies where
  goals : List Goal
  links : List (Goal × Goal)
  roots : List Goal
deriving Repr, DecidableEq

namespace Dependencies

/-- Links a goal to its parent, which becomes known if it was not. -/
def link (d : Dependencies) (child : Goal) : Option Goal → Dependencies
  | none => { d with roots := Distinct.adjoin d.roots child }
  | some parent =>
    { d with
      goals := Distinct.adjoin d.goals parent
      links := Distinct.adjoin d.links (parent, child) }

/-- The dependencies among the given goals, and the links to parents that were not known when they
were met. -/
def ofGoals (parent : Goal → Option Goal) (goals : List Goal) : Dependencies × List (Goal × Goal) :=
  goals.foldl (fun (d, foreign) g =>
    (d.link g (parent g),
      match parent g with
      | some p => if p ∈ d.goals then foreign else foreign ++ [(p, g)]
      | none => foreign))
    (⟨Distinct.ofList goals, [], []⟩, [])

def children (d : Dependencies) (g : Goal) : List Goal :=
  (d.links.filter (·.1 == g)).map (·.2)

/-- The parents of a goal; one that is not known is asked itself. -/
def parents (parent : Goal → Option Goal) (d : Dependencies) (g : Goal) : List Goal :=
  if g ∈ d.goals then (d.links.filter (·.2 == g)).map (·.1) else (parent g).toList

/-- The uncovered goals without an uncovered parent. -/
def free (parent : Goal → Option Goal) (d : Dependencies) (uncovered : List Goal) : List Goal :=
  (Distinct.ofList uncovered).filter fun g => (d.parents parent g).all (· ∉ uncovered)

/-- The uncovered goals to pursue, and whether all are taken because none is free. -/
def independent (parent : Goal → Option Goal) (d : Dependencies) (uncovered : List Goal) :
    List Goal × Bool :=
  let free := d.free parent uncovered
  if free.isEmpty && !uncovered.isEmpty then (Distinct.ofList uncovered, true) else (free, false)

end Dependencies

end GoalSearch
