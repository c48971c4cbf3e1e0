import GoalSearch.Number.Basic

/-!
# Scalars

The numbers that fitness and distance are computed in. A search runs on binary64 values; the laws of
the formulas hold for exact numbers with an infinity, which make another instance.
-/

namespace GoalSearch

class Scalar (α : Type) extends Add α, Sub α, Div α, LT α, BEq α where
  decLt : DecidableLT α
  zero : α
  one : α
  infinity : α
  ofInt? : Int → Option α

namespace Scalar
variable {α : Type} [Scalar α]

instance : DecidableLT α := decLt

def ofInt (n : Int) : Except Fault α :=
  match ofInt? n with
  | some x => .ok x
  | none => .error .tooLarge

/-- Maps the numbers from zero on to the interval from `0` to `1`, infinity to `1`. -/
def normalise (x : α) : Except Fault α :=
  if x < zero then .error .negativeValue
  else if x == infinity then .ok one
  else .ok (x / (one + x))

end Scalar

instance : Scalar Float where
  decLt := inferInstance
  zero := 0.0
  one := 1.0
  infinity := Binary64.infinity
  ofInt? := Binary64.ofInt?

/-- Maps the numbers from zero on to the interval from `0` to `1`; the sign is read off the exact
value. -/
def Number.normalise (x : Number) : Except Fault Float :=
  if x.lt (.int 0) then .error .negativeValue else x.toFloat >>= Scalar.normalise

end GoalSearch
