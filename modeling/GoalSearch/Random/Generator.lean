import GoalSearch.Random.Scripted
import GoalSearch.Random.Seeded

/-!
# Generators

Either of the two sources of draws.
-/

namespace GoalSearch

inductive Generator where
  | seeded (g : Seeded)
  | scripted (s : Scripted)

namespace Generator

def seed : Generator → Int
  | seeded g => g.seed
  | scripted _ => 0

def run {α : Type} (onSeeded : Seeded → α × Seeded) (onScripted : Scripted → α × Scripted) :
    Generator → α × Generator
  | seeded g =>
    let (x, g) := onSeeded g
    (x, seeded g)
  | scripted s =>
    let (x, s) := onScripted s
    (x, scripted s)

def source : RandomSource Generator where
  nextUnit := run Seeded.unit Scripted.unit
  nextBelow n := run (Seeded.below n) (Scripted.below n)
  nextNormal mean deviation := run (Seeded.normal mean deviation) Scripted.normal
  nextBelow_lt g h := by
    cases g with
    | seeded g => exact Seeded.below_lt g h
    | scripted s => exact Scripted.below_lt s h

end Generator

namespace RandomSource

/-- The same draws, from a state that is a part of another one. -/
def within {ω ω' : Type} (source : RandomSource ω) (get : ω' → ω) (put : ω → ω' → ω') :
    RandomSource ω' where
  nextUnit w :=
    let (x, s) := source.nextUnit (get w)
    (x, put s w)
  nextBelow n w :=
    let (x, s) := source.nextBelow n (get w)
    (x, put s w)
  nextNormal mean deviation w :=
    let (x, s) := source.nextNormal mean deviation (get w)
    (x, put s w)
  nextBelow_lt w h := source.nextBelow_lt (get w) h

end RandomSource

end GoalSearch
