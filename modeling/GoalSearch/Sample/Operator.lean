import GoalSearch.Benchmark
import GoalSearch.Sample.World

/-!
# Sample operators

Operators that mutate test cases in ways that are easy to follow, and factories that make test cases
at random or from a list.
-/

namespace GoalSearch.Sample

inductive Operator where
  | integer (op : IntegerMutation)
  /-- A sequence mutation whose new statements count from 101 on and which negates even statements. -/
  | counting (rates : MutationRates)
  | append (value : Statement)
  | pop
  /-- Appends the number of the call, but only with every `n`-th call. -/
  | every (n : Nat)
  /-- Appends, but denies it. -/
  | silent (value : Statement)
  | none

namespace Operator

def count (slot : Nat) : Draw World Nat := fun w =>
  let n := w.counters.getD slot 0 + 1
  (.ok n, { w with counters := w.counters.setIfInBounds slot n })

/-- Negates even statements; odd ones cannot be changed. -/
def negateEven (s : Statement) : Draw World (Option Statement) := do
  match s.integer? with
  | some n => return if n % 2 = 0 then some (.int (-n)) else Option.none
  | Option.none => throw .statementForm

def sequence? (slot : Nat) : Operator → Option (SequenceMutation Statement World)
  | integer op => some (op.sequence World.random)
  | counting rates =>
    some { rates with
      create := do return .int (100 + (← count slot))
      change := negateEven }
  | _ => Option.none

def push (s : Statement) : Edit Statement World Unit :=
  .change fun xs => .ok (TestCase.add s (-1) xs)

def mutate (slot : Nat) (op : Operator) : Edit Statement World Bool :=
  match op.sequence? slot with
  | some m => m.mutate World.random
  | Option.none =>
    match op with
    | append value => do
      push value
      return true
    | pop => do
      if (← Edit.statements).isEmpty then return false
      .change (TestCase.remove 0)
      return true
    | every n => do
      let c ← .draw (count slot)
      if c % n = 0 then
        push (.int c)
        return true
      else return false
    | silent value => do
      push value
      return false
    | _ => return false

end Operator

inductive Item where
  | statements (xs : List Statement)
  | fails
  | breaks

/-- How test cases are made, with the number of the operator that they get. -/
inductive Factory where
  | random (length : Int) (operator : Nat)
  /-- One item after the other, from the first again after the last. -/
  | cycle (items : Array Item) (operator : Option Nat)

namespace Factory

def next (items : Array Item) : Draw World Item := fun w =>
  (.ok (items.getD (w.handedOut % items.size) .breaks), { w with handedOut := w.handedOut + 1 })

def make (operators : Array Operator) (functions : List Goal) :
    Factory → Draw World (Blueprint Statement)
  | random length slot => do
    match operators[slot]?.bind (·.sequence? slot) with
    | some m => return ⟨← m.randomSequence World.random length, some slot, functions⟩
    | none => do
      let _ ← World.random.int 1 (length + 1)
      throw .contentForm
  | cycle items operator => do
    match ← next items with
    | .statements xs => return ⟨xs, operator, functions⟩
    | .fails => throw .constructionFailed
    | .breaks => throw .factoryBroken

end Factory

end GoalSearch.Sample
