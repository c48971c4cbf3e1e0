/-!
# Lists without repeats

Sets that keep the order in which their elements came.
-/

namespace GoalSearch.Distinct
variable {β : Type} [DecidableEq β]

/-- Appends an element that is not there yet. -/
def adjoin (xs : List β) (x : β) : List β := if x ∈ xs then xs else xs ++ [x]

/-- The distinct elements, in the order of their first occurrences. -/
def ofList (xs : List β) : List β := xs.foldl adjoin []

end GoalSearch.Distinct
