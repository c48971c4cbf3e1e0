import GoalSearch.Goal
import GoalSearch.Sorting

/-!
# Survivor selection

The next population is taken from the union of parents and offspring. If asked for, the best performer
of every active goal is reserved a place first. The remaining places are filled front by front; of
the first front that does not fit whole, the members with the largest crowding distance are taken.
-/

namespace GoalSearch.Survival
variable {m : Type → Type} [Monad m] {ι α : Type} [DecidableEq ι] [LT α] [DecidableLT α]

/-- The first elements of a list: as many as asked for, or all but so many for a negative number. -/
def first {β : Type} (count : Int) (xs : List β) : List β :=
  if 0 ≤ count then xs.take count.toNat else xs.take (xs.length + count).toNat

def byDistance (distance : ι → m α) (members : List ι) : m (List ι) := do
  let scored ← members.mapM fun x => do return (x, ← distance x)
  return (Sorting.sortDescending (fun a b => decide (a.2 < b.2)) scored).map (·.1)

/-- The member with the least value, among those not taken yet; the earliest of several. -/
def best (value : ι → m α) (taken : List ι) : Option (ι × α) → List ι → m (Option (ι × α))
  | found, [] => pure found
  | found, x :: rest =>
    if x ∈ taken then best value taken found rest
    else do
      let v ← value x
      match found with
      | some (y, w) => best value taken (if v < w then some (x, v) else some (y, w)) rest
      | none => best value taken (some (x, v)) rest

/-- The best performer for goal after goal, each member for one goal only. -/
def bestPerGoal (fitness : Goal → ι → m α) (union : List ι) : List ι → List Goal → m (List ι)
  | reserved, [] => pure reserved
  | reserved, g :: goals => do
    match ← best (fitness g) reserved none union with
    | some (x, _) => bestPerGoal fitness union (reserved ++ [x]) goals
    | none => pure reserved

def reserve (fitness : Goal → ι → m α) (distance : ι → m α) (union : List ι) (goals : List Goal)
    (capacity : Int) : m (List ι) := do
  let reserved ← bestPerGoal fitness union [] goals
  if capacity < reserved.length then return first capacity (← byDistance distance reserved)
  else return reserved

/-- Fills the given number of places from the fronts, leaving out those who have a place. -/
def fill (distance : ι → m α) (reserved : List ι) : Nat → List (List ι) → m (List ι)
  | 0, _ => pure []
  | _, [] => pure []
  | places + 1, front :: fronts => do
    let front := front.filter (· ∉ reserved)
    if front.length ≤ places + 1 then
      return front ++ (← fill distance reserved (places + 1 - front.length) fronts)
    else return (← byDistance distance front).take (places + 1)

def survivors (fitness : Goal → ι → m α) (distance : ι → m α) (reserving : Bool) (capacity : Int)
    (union : List ι) (fronts : List (List ι)) (goals : List Goal) : m (List ι) := do
  let reserved ← if reserving then reserve fitness distance union goals capacity else pure []
  let rest ← fill distance reserved (capacity - reserved.length).toNat fronts
  return reserved ++ rest

end GoalSearch.Survival
