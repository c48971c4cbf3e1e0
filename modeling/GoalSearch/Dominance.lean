import GoalSearch.Goal

/-!
# Dominance

An individual dominates another over a list of goals if it is not worse for any of them and strictly
better for at least one; smaller fitness is better. Fitness is read through a function of a monad `m`,
goal by goal and only as far as needed: once both are better somewhere the answer is known.
-/

namespace GoalSearch.Dominance
variable {m : Type → Type} [Monad m] {ι α : Type} [LT α] [DecidableLT α]

/-- Compares over the remaining goals, knowing whether the first was better and whether it was worse
so far. -/
def compareFrom (fitness : Goal → ι → m α) (a b : ι) : Bool → Bool → List Goal → m Ordering
  | better, worse, [] => pure (if better then .lt else if worse then .gt else .eq)
  | better, worse, g :: goals => do
    let x ← fitness g a
    let y ← fitness g b
    let better := better || decide (x < y)
    let worse := worse || decide (y < x)
    if better && worse then pure .eq else compareFrom fitness a b better worse goals

/-- `.lt` if `a` dominates `b`, `.gt` if `b` dominates `a`, and `.eq` else. -/
def compare (fitness : Goal → ι → m α) (goals : List Goal) (a b : ι) : m Ordering :=
  compareFrom fitness a b false false goals

end GoalSearch.Dominance
