import GoalSearch.Fault
import GoalSearch.Number.Binary64

/-!
# Numbers

Evaluators and callers hand in integers of any size as well as binary64 values. A `Number` is
either, compared by exact value, and turns into a `Float` where arithmetic needs one.
-/

namespace GoalSearch

inductive Number where
  | int (n : Int)
  | real (x : Float)

namespace Number

/-- The nearest `Float`; `none` for an integer beyond the largest finite value. -/
def toFloat? : Number → Option Float
  | int n => Binary64.ofInt? n
  | real x => some x

def toFloat (x : Number) : Except Fault Float :=
  match x.toFloat? with
  | some x => .ok x
  | none => .error .tooLarge

/-- Strict comparison of the exact values, never true of a NaN. -/
def lt : Number → Number → Bool
  | int a, int b => decide (a < b)
  | int a, real y => Binary64.compareInt? a y == some .lt
  | real x, int b => Binary64.compareInt? b x == some .gt
  | real x, real y => x < y

/-- Equality of the exact values, never true of a NaN. -/
def eq : Number → Number → Bool
  | int a, int b => a == b
  | int a, real y => Binary64.compareInt? a y == some .eq
  | real x, int b => Binary64.compareInt? b x == some .eq
  | real x, real y => x == y

/-- `-1` if the first is smaller, `1` if the second is, and `0` else. -/
def sign (a b : Number) : Int :=
  if a.lt b then -1 else if b.lt a then 1 else 0

def sub : Number → Number → Except Fault Number
  | int a, int b => .ok (int (a - b))
  | a, b => do return real ((← a.toFloat) - (← b.toFloat))

end Number

end GoalSearch
