import GoalSearch.Random.Source

/-!
# Tournament selection

Candidates are drawn with replacement. A candidate beats the winner so far if it has a lower rank, or
the same rank and a larger crowding distance.
-/

namespace GoalSearch.Tournament
variable {ω α : Type} [LT α] [DecidableLT α]

def beats (rank : Nat → Int) (distance : Nat → α) (a b : Nat) : Bool :=
  rank a < rank b || (rank a == rank b && decide (distance b < distance a))

def rounds (source : RandomSource ω) (beats : Nat → Nat → Bool) (count : Nat) :
    Nat → Nat → Draw ω Nat
  | 0, winner => pure winner
  | n + 1, winner => do
    let candidate := (← source.int 0 count).toNat
    rounds source beats count n (if beats candidate winner then candidate else winner)

/-- The position of the winner of a tournament of the given size among `count` candidates. -/
def index (source : RandomSource ω) (rank : Nat → Int) (distance : Nat → α) (count size : Nat) :
    Draw ω Nat := do
  let winner := (← source.int 0 count).toNat
  rounds source (beats rank distance) count (size - 1) winner

end GoalSearch.Tournament
