import GoalSearch.Individual
import GoalSearch.Number.Basic
import GoalSearch.TestCase

/-!
# Subjects

What a search is about: goals with their evaluators and parents, operators that mutate test cases, a
factory that makes new ones, and the surroundings, which are a source of random draws, a clock and a
memory gauge. The search knows a subject by these functions on a state `ω`.
-/

namespace GoalSearch

/-- What an evaluator comes back with. -/
inductive Verdict where
  | number (x : Number)
  /-- A text that may or may not write a number. -/
  | text (s : String)
  /-- The evaluator failed, or returned something else. -/
  | failure
  /-- The evaluator gave up the whole search. -/
  | abort (fault : Fault)

/-- What a factory makes: a test case with the operator that mutates it and its goals. It is new and not yet
evaluated: the individual that is built of it is a further one in the pool, counts as changed, and no fitness values
are known for it. What holds of runs rests on that. -/
structure Blueprint (σ : Type) where
  statements : List σ
  operator : Option Nat
  functions : List Goal

/-- What happened in a search, as far as the surroundings take notice. -/
inductive Occasion where
  | evaluated
  | generationFinished
deriving Repr, DecidableEq

/-- What surrounds a search: random draws, a clock and a memory gauge. -/
structure Surroundings (ω : Type) where
  random : RandomSource ω
  seed : ω → Int
  /-- The time in nanoseconds. -/
  now : ω → Int
  /-- The memory in use, in bytes, if it can be told. -/
  memory : ω → Option Int
  /-- What an occasion does to the surroundings. -/
  notice : Occasion → ω → ω

structure Subject (σ ω : Type) extends Surroundings ω where
  evaluate : Nat → Content σ → ω → Verdict × ω
  parent : Nat → Option Nat
  /-- The evaluator wants large values instead of small ones. -/
  maximised : Nat → Bool
  /-- An operator, which tells whether it altered the test case. -/
  mutate : Nat → Edit σ ω Bool
  /-- The factory. It always makes something new, which nobody has evaluated before. -/
  make : Draw ω (Blueprint σ)

namespace Subject
variable {σ ω : Type} (subject : Subject σ ω)

def parentOf : Goal → Option Goal
  | .atom n => (subject.parent n).map .atom
  | .overSuite _ _ => none

def isMaximised : Goal → Bool
  | .atom n => subject.maximised n
  | .overSuite _ _ => false

end Subject

end GoalSearch
