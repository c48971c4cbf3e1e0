import GoalSearch.Number.Basic

/-!
# Sources of random draws

The search draws from a source that it knows by three operations on a state: a number from the unit
interval, an integer below a bound, and a normally distributed number. Integers are promised to stay
below their bound; nothing is promised of the other two.
-/

namespace GoalSearch

structure RandomSource (ω : Type) where
  nextUnit : ω → Float × ω
  /-- An integer from `0` up to and excluding the bound. -/
  nextBelow : Nat → ω → Nat × ω
  nextNormal : Float → Float → ω → Float × ω
  nextBelow_lt {n : Nat} (w : ω) : 0 < n → (nextBelow n w).1 < n

/-- A computation that draws from a state `ω`. Draws made before a fault stay made. -/
abbrev Draw (ω : Type) := ExceptT Fault (StateM ω)

def Draw.ofExcept {ω α : Type} (x : Except Fault α) : Draw ω α := fun w => (x, w)

namespace RandomSource
variable {ω : Type} (source : RandomSource ω)

def unit : Draw ω Float := fun w =>
  let (x, w) := source.nextUnit w
  (.ok x, w)

def normal (mean deviation : Float) : Draw ω Float := fun w =>
  let (x, w) := source.nextNormal mean deviation w
  (.ok x, w)

def bool : Draw ω Bool := do return (← source.unit) < 0.5

/-- An integer from `low` up to and excluding `high`; an empty interval is a fault and draws
nothing. -/
def int (low high : Int) : Draw ω Int := fun w =>
  if high ≤ low then (.error .emptyRange, w)
  else
    let (k, w) := source.nextBelow (high - low).toNat w
    (.ok (low + k), w)

/-- A member of a list; an empty list is a fault and draws nothing. -/
def choice {α : Type} (xs : List α) : Draw ω α := fun w =>
  if h : 0 < xs.length then
    let draw := source.nextBelow xs.length w
    (.ok (xs.get ⟨draw.1, source.nextBelow_lt w h⟩), draw.2)
  else (.error .emptyChoice, w)

def between (low high : Number) : Draw ω Float := do
  let width ← .ofExcept (high.sub low)
  let x ← source.unit
  let scaled := (← .ofExcept width.toFloat) * x
  return (← .ofExcept low.toFloat) + scaled

/-- A normally distributed integer around zero: the nearest one, halves to the even neighbour. -/
def shift (deviation : Float) : Draw ω Int := do
  let z ← source.normal 0.0 deviation
  match Binary64.round? z with
  | some n => return n
  | none => throw (if Binary64.isNaN z then .notANumber else .tooLarge)

end RandomSource

end GoalSearch
