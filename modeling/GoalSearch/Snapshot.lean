import GoalSearch.Goal

/-!
# Snapshots

What an archive holds at one moment, for those who follow the search.
-/

namespace GoalSearch

structure Snapshot where
  covered : List Goal
  uncovered : List Goal
  sizes : List Nat
  /-- The best fitness of the population for each uncovered goal, if known. -/
  best : List (Goal × Float)

def coverageRatio (part total : Nat) : Float :=
  if total = 0 then 1.0 else Float.ofNat part / Float.ofNat total

def Snapshot.coverage (s : Snapshot) : Float :=
  coverageRatio s.covered.length (s.covered.length + s.uncovered.length)

end GoalSearch
