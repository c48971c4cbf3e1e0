import GoalSearch.Goal
import GoalSearch.Number.Scalar
import GoalSearch.Sorting

/-!
# Crowding distance

How lonely a member is in its front. For every goal the front is sorted by fitness; the first and the
last get an infinite distance, and any other gains the gap between its two neighbours as a share of the
whole span. A goal for which first and last are equal adds nothing else.
-/

namespace GoalSearch.Crowding
variable {m : Type → Type} [Monad m] {ι α : Type} [Scalar α]

def triples {β : Type} : List β → List (β × β × β)
  | a :: b :: c :: rest => (a, b, c) :: triples (b :: c :: rest)
  | _ => []

/-- The members with their fitness for a goal, in ascending order. -/
def sorted (fitness : Goal → ι → m α) (goal : Goal) (front : List ι) : m (List (ι × α)) := do
  let scored ← front.mapM fun x => do return (x, ← fitness goal x)
  return Sorting.sort (fun a b => decide (a.2 < b.2)) scored

/-- Adds the gap between two neighbours of a member to its distance, as a share of the span. -/
def addGap (distance : ι → m α) (setDistance : ι → α → m Unit) (span : α)
    (neighbours : (ι × α) × (ι × α) × (ι × α)) : m Unit := do
  let (before, x, behind) := neighbours
  let d ← distance x.1
  setDistance x.1 (d + (behind.2 - before.2) / span)

def addGaps (distance : ι → m α) (setDistance : ι → α → m Unit) (ordered : List (ι × α)) :
    m Unit :=
  match ordered.head?, ordered.getLast? with
  | some first, some last => do
    setDistance first.1 Scalar.infinity
    setDistance last.1 Scalar.infinity
    if last.2 == first.2 then pure ()
    else (triples ordered).forM (addGap distance setDistance (last.2 - first.2))
  | _, _ => pure ()

def assign (fitness : Goal → ι → m α) (distance : ι → m α) (setDistance : ι → α → m Unit)
    (front : List ι) (goals : List Goal) : m Unit := do
  front.forM (setDistance · Scalar.zero)
  if front.isEmpty then pure ()
  else goals.forM fun goal => do addGaps distance setDistance (← sorted fitness goal front)

end GoalSearch.Crowding
