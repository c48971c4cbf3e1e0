/-!
# Stable sorting

`sort less xs` keeps the run that the list starts with and inserts the other elements one by one, each
at a place found by halving. Elements of which neither is less stay in order. For values that some
comparisons fail on, such as a NaN, the result is what this very sequence of comparisons gives.
-/

namespace GoalSearch.Sorting
variable {α : Type} (less : α → α → Bool)

/-- Splits off the longest descending run that starts with `x`; the run comes back to front. -/
def descending (run : List α) (x : α) : List α → List α × List α
  | [] => (x :: run, [])
  | y :: rest => if less y x then descending (x :: run) y rest else (x :: run, y :: rest)

/-- Splits off the longest run in which no element is less than the one before; the run comes back to
front. -/
def ascending (run : List α) (x : α) : List α → List α × List α
  | [] => (x :: run, [])
  | y :: rest => if less y x then (x :: run, y :: rest) else ascending (x :: run) y rest

/-- Splits a list into a sorted run at its front, turned round if it descends, and the rest. -/
def leadingRun : List α → List α × List α
  | [] => ([], [])
  | [x] => ([x], [])
  | x :: y :: rest =>
    if less y x then descending less [x] y rest
    else
      let (run, rest) := ascending less [x] y rest
      (run.reverse, rest)

/-- The place for `x` among the positions from `low` to `high`: behind the last element that it is not
less than. Each step halves the interval, so its width bounds the steps. -/
def place (x : α) (xs : List α) : Nat → Nat → Nat → Nat
  | 0, low, _ => low
  | steps + 1, low, high =>
    if low < high then
      let middle := (low + high) / 2
      match xs[middle]? with
      | some y => if less x y then place x xs steps low middle else place x xs steps (middle + 1) high
      | none => low
    else low

def insert (xs : List α) (x : α) : List α :=
  xs.insertIdx (place less x xs (xs.length + 1) 0 xs.length) x

def sort (xs : List α) : List α :=
  let (run, rest) := leadingRun less xs
  rest.foldl (insert less) run

/-- The list in descending order; here too equal elements stay in order. -/
def sortDescending (xs : List α) : List α := (sort less xs.reverse).reverse

end GoalSearch.Sorting
