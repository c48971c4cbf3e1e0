import GoalSearch.Dominance
import GoalSearch.Position

/-!
# Ranking into fronts

The first front holds the members that no other member dominates; each further front holds those that
no other member dominates once the earlier fronts are taken away. Inside a front the order of the
input is kept. Members are compared by identity, so a member that occurs twice is taken away twice.
-/

namespace GoalSearch.Ranking
variable {m : Type → Type} [Monad m] {ι α : Type} [DecidableEq ι] [LT α] [DecidableLT α]

/-- Compares `x` with the members of a front in order. `none` as soon as one dominates `x`, else the
members that `x` dominates. -/
def challenge (fitness : Goal → ι → m α) (goals : List Goal) (x : ι) : List ι → m (Option (List ι))
  | [] => pure (some [])
  | y :: front => do
    match ← Dominance.compare fitness goals x y with
    | .gt => pure none
    | .lt => return (← challenge fitness goals x front).map (y :: ·)
    | .eq => challenge fitness goals x front

/-- One pass over the members: each that the front so far does not dominate joins it, is told so by
`join`, and drives out those it dominates. -/
def nonDominatedFrom (fitness : Goal → ι → m α) (goals : List Goal) (join : ι → m Unit) :
    List ι → List ι → m (List ι)
  | front, [] => pure front
  | front, x :: rest => do
    match ← challenge fitness goals x front with
    | none => nonDominatedFrom fitness goals join front rest
    | some beaten =>
      join x
      nonDominatedFrom fitness goals join (front.filter (· ∉ beaten) ++ [x]) rest

/-- Takes off front after front, at most as many as there are members. -/
def fronts (fitness : Goal → ι → m α) (goals : List Goal) (setRank : ι → Nat → m Unit) :
    Nat → Nat → List ι → m (List (List ι))
  | 0, _, _ => pure []
  | fuel + 1, rank, members =>
    if members.isEmpty then pure []
    else do
      let front ← nonDominatedFrom fitness goals (setRank · rank) [] members
      let others ← fronts fitness goals setRank fuel (rank + 1) (members.filter (· ∉ front))
      return front :: others

/-- The fronts of a list of members; `setRank` is told the number of the front of each. -/
def rank (fitness : Goal → ι → m α) (goals : List Goal) (setRank : ι → Nat → m Unit)
    (members : List ι) : m (List (List ι)) :=
  fronts fitness goals setRank members.length 0 members

/-- Compares `x` with all members of a front: whether some member dominates `x`, and the members that
`x` dominates. -/
def standing (fitness : Goal → ι → m α) (goals : List Goal) (x : ι) : List ι → m (Bool × List ι)
  | [] => pure (false, [])
  | y :: front => do
    let order ← Dominance.compare fitness goals x y
    let (dominated, beaten) ← standing fitness goals x front
    return (dominated || order == .gt, if order == .lt then y :: beaten else beaten)

/-- The members of a list that no other member dominates, in order, with every member compared to the
whole front so far. -/
def nonDominated (fitness : Goal → ι → m α) (goals : List Goal) :
    List ι → List ι → m (List ι)
  | front, [] => pure front
  | front, x :: rest => do
    let (dominated, beaten) ← standing fitness goals x front
    if dominated then nonDominated fitness goals front rest
    else
      -- each occurrence of a beaten member takes one occurrence out of the front
      nonDominated fitness goals (beaten.foldl List.erase (front ++ [x])) rest

/-- The front of a rank; past the last front none, and negative ranks count from the end. -/
def front? (fronts : List (List ι)) (rank : Int) : Option (List ι) :=
  if fronts.length ≤ rank then some [] else Position.get? fronts rank

end GoalSearch.Ranking
