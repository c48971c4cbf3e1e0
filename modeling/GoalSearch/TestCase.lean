import GoalSearch.Position
import GoalSearch.Random.Source

/-!
# Test cases

A test case is a list of statements. Positions may be given from the end by negative numbers where it
says so. An `Edit` changes a test case step by step and may draw random numbers; what was changed
before a fault stays changed.
-/

namespace GoalSearch

namespace TestCase
variable {σ : Type}

/-- Puts a statement in front of a position, which counts from the end if negative and is moved to the
nearest end if it lies outside. Position `-1` stands for the very end. -/
def add (statement : σ) (position : Int) (xs : List σ) : List σ :=
  if position = -1 then xs ++ [statement]
  else xs.insertIdx (min (Position.fromFront xs.length position).toNat xs.length) statement

/-- Removes the statement at a position, which counts from the end if negative. -/
def remove (position : Int) (xs : List σ) : Except Fault (List σ) :=
  match Position.inside? xs.length position with
  | some i => .ok (xs.eraseIdx i)
  | none => .error .outOfBounds

def get (position : Int) (xs : List σ) : Except Fault σ :=
  if 0 ≤ position then
    match xs[position.toNat]? with
    | some x => .ok x
    | none => .error (.requirement .statementPosition)
  else .error (.requirement .statementPosition)

def set (statement : σ) (position : Int) (xs : List σ) : Except Fault (List σ) :=
  if 0 ≤ position ∧ position < xs.length then .ok (xs.set position.toNat statement)
  else .error (.requirement .statementPosition)

/-- A number that equal test cases share. -/
def hash (xs : List σ) : Nat := 31 + xs.length

end TestCase

/-- A computation that changes a test case and draws from a state `ω`. -/
abbrev Edit (σ ω : Type) := ExceptT Fault (StateM (List σ × ω))

namespace Edit
variable {σ ω α : Type}

def draw (x : Draw ω α) : Edit σ ω α := fun (xs, w) =>
  let (r, w) := x w
  (r, xs, w)

def statements : Edit σ ω (List σ) := fun (xs, w) => (.ok xs, xs, w)

def read (f : List σ → Except Fault α) : Edit σ ω α := fun (xs, w) => (f xs, xs, w)

def change (f : List σ → Except Fault (List σ)) : Edit σ ω Unit := fun (xs, w) =>
  match f xs with
  | .ok ys => (.ok (), ys, w)
  | .error e => (.error e, xs, w)

end Edit

end GoalSearch
