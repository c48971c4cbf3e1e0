import GoalSearch.Distinct
import GoalSearch.Snapshot

/-!
# The archive

For every objective the archive keeps the smallest individual known to cover it; of equally small ones
the one that came first. Each objective is either covered or uncovered. Coverings are announced: the
archive remembers, in order, which goal became covered and which goals were uncovered at that moment.
-/

namespace GoalSearch

structure Announcement where
  goal : Goal
  /-- The goals still uncovered at that moment. -/
  uncovered : List Goal
deriving Repr, DecidableEq

/-- The covered goals with their individuals, in the order of covering, the uncovered goals, and all
objectives. -/
structure Archive (ι : Type) where
  objectives : List Goal
  uncovered : List Goal
  covered : List (Goal × ι)
  announced : List Announcement

/-- What became of an individual handed to the archive for a goal. -/
inductive Archived where
  /-- The goal is no objective. -/
  | unknown
  /-- The individual already stored is not larger. -/
  | kept
  /-- A larger individual was replaced, or the goal was covered though not counted as uncovered. -/
  | replaced
  /-- The goal was uncovered and is covered now. -/
  | newlyCovered
deriving Repr, DecidableEq

namespace Archive
variable {ι : Type}

def ofGoals (goals : List Goal) : Archive ι := ⟨Distinct.ofList goals, Distinct.ofList goals, [], []⟩

def get? (a : Archive ι) (g : Goal) : Option ι := (a.covered.find? (·.1 == g)).map (·.2)

def coveredGoals (a : Archive ι) : List Goal := a.covered.map (·.1)

def solutions [DecidableEq ι] (a : Archive ι) : List ι := Distinct.ofList (a.covered.map (·.2))

/-- Stores an individual for a goal; a goal stored before keeps its place. -/
def put (g : Goal) (x : ι) : List (Goal × ι) → List (Goal × ι)
  | [] => [(g, x)]
  | (h, y) :: rest => if h = g then (g, x) :: rest else (h, y) :: put g x rest

def submit (size : ι → Nat) (x : ι) (g : Goal) (a : Archive ι) : Archive ι × Archived :=
  if g ∉ a.objectives then (a, .unknown)
  else if (a.get? g).any fun y => decide (size y ≤ size x) then (a, .kept)
  else if g ∈ a.uncovered then
    let uncovered := a.uncovered.erase g
    ({ a with
        covered := put g x a.covered
        uncovered := uncovered
        announced := a.announced ++ [⟨g, uncovered⟩] }, .newlyCovered)
  else ({ a with covered := put g x a.covered }, .replaced)

/-- Adds a goal, which counts as uncovered; a known goal is ignored. -/
def addGoal (a : Archive ι) (g : Goal) : Archive ι :=
  if g ∈ a.objectives then a
  else { a with objectives := a.objectives ++ [g], uncovered := Distinct.adjoin a.uncovered g }

/-- Forgets all coverings. The uncovered goals stay in front, the others follow in the order of the
objectives. -/
def reset (a : Archive ι) : Archive ι :=
  { a with uncovered := a.objectives.foldl Distinct.adjoin a.uncovered, covered := [] }

def snapshot [DecidableEq ι] (size : ι → Nat) (a : Archive ι) : Snapshot where
  covered := a.objectives.filter fun g => (a.get? g).isSome
  uncovered := a.uncovered
  sizes := a.solutions.map size
  best := []

end Archive

end GoalSearch
