/-!
# Positions from either end

A position in a list of `n` elements may be given by a negative number, which counts from the end.
-/

namespace GoalSearch.Position

def fromFront (n : Nat) (k : Int) : Int := if k < 0 then k + n else k

/-- The position counted from the front, if it lies inside of the list. -/
def inside? (n : Nat) (k : Int) : Option Nat :=
  let k := fromFront n k
  if 0 ≤ k ∧ k < n then some k.toNat else none

def get? {α : Type} (xs : List α) (k : Int) : Option α := (inside? xs.length k).bind (xs[·]?)

end GoalSearch.Position
