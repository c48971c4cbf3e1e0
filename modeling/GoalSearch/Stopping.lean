import GoalSearch.Fault
import GoalSearch.Number.Fixed
import GoalSearch.Number.Basic
import GoalSearch.Snapshot

/-!
# Stopping conditions

A condition bounds a search: it counts how much of a budget is used, from the signals that the search
sends, and is fulfilled once the budget is spent. A signal that opens a search starts the count over.
-/

namespace GoalSearch

inductive Signal where
  | start (time : Int)
  /-- The initial population is evaluated; the achieved coverage. -/
  | first (coverage : Float)
  /-- A generation is finished; the achieved coverage, and the memory in use if it could be told. -/
  | iteration (coverage : Float) (memory : Option Int)
  | evaluation
  | mutation
  | finish

inductive Condition where
  | iterations (limit used : Nat)
  | evaluations (limit used : Nat)
  /-- Bounds the time in seconds, counted from a start in nanoseconds. -/
  | searchTime (limit : Nat) (start : Int)
  /-- Ends the search at a percentage of covered goals. -/
  | coverage (limit : Nat) (used : Int)
  /-- Ends the search when the coverage stayed the same for some generations, but not before it
  reached a minimum percentage. -/
  | plateau (limit minimum used : Nat) (coverage : Float)
  /-- Bounds the memory in bytes, looked up after every generation. -/
  | memory (limit used : Int)

namespace Condition

def megabyte : Int := 1024 * 1024

/-! ## Making conditions -/

def demand (p : Bool) : Except Fault Unit :=
  if p then .ok () else .error (.requirement .conditionLimit)

def ofIterations (limit : Int) : Except Fault Condition := do
  demand (0 ≤ limit)
  return iterations limit.toNat 0

def ofEvaluations (limit : Int) : Except Fault Condition := do
  demand (0 ≤ limit)
  return evaluations limit.toNat 0

def ofSeconds (now limit : Int) : Except Fault Condition := do
  demand (0 < limit)
  return searchTime limit.toNat now

def ofCoverage (percent : Int) : Except Fault Condition := do
  demand (0 ≤ percent && percent ≤ 100)
  return coverage percent.toNat 0

def ofPlateau (generations minimum : Int) : Except Fault Condition := do
  demand (0 < generations)
  demand (0 ≤ minimum && minimum < 100)
  return plateau generations.toNat minimum.toNat 0 0.0

def ofMegabytes (limit : Int) : Condition := memory (limit * megabyte) 0

/-! ## Following a search -/

def percentage (coverage : Float) : Int := (Binary64.truncate? (coverage * 100.0)).getD 0

def step : Signal → Condition → Condition
  | .start _, iterations limit _ => iterations limit 0
  | .start _, evaluations limit _ => evaluations limit 0
  | .start time, searchTime limit _ => searchTime limit time
  | .start _, coverage limit _ => coverage limit 0
  | .start _, plateau limit minimum _ _ => plateau limit minimum 0 0.0
  | .start _, memory limit _ => memory limit 0
  | .first reached, coverage limit _ => coverage limit (percentage reached)
  | .first reached, plateau limit minimum used _ => plateau limit minimum used reached
  | .iteration _ _, iterations limit used => iterations limit (used + 1)
  | .iteration reached _, coverage limit _ => coverage limit (percentage reached)
  | .iteration reached _, plateau limit minimum used last =>
    if reached == last then plateau limit minimum (used + 1) last
    else plateau limit minimum 0 reached
  | .iteration _ sample, memory limit _ => memory limit (sample.getD 0)
  | .evaluation, evaluations limit used => evaluations limit (used + 1)
  | _, c => c

def samplesMemory : Condition → Bool
  | memory _ _ => true
  | _ => false

def seconds (start now : Int) : Float :=
  (Binary64.ofRatio? (now - start) 1000000000).getD
    (if now < start then -Binary64.infinity else Binary64.infinity)

def isFulfilled (now : Int) : Condition → Bool
  | iterations limit used => limit ≤ used
  | evaluations limit used => limit ≤ used
  | searchTime limit start => (Number.int limit).lt (.real (seconds start now))
  | coverage limit used => limit ≤ used
  | plateau limit minimum used reached =>
    limit ≤ used && !(Number.real (reached * 100.0)).lt (.int minimum)
  | memory limit used => limit < used

def used (now : Int) : Condition → Int
  | iterations _ used => used
  | evaluations _ used => used
  | searchTime _ start => (Binary64.truncate? (seconds start now)).getD 0
  | coverage _ used => used
  | plateau _ _ used _ => used
  | memory _ used => used

def limit : Condition → Int
  | iterations limit _ => limit
  | evaluations limit _ => limit
  | searchTime limit _ => limit
  | coverage limit _ => limit
  | plateau limit _ _ _ => limit
  | memory limit _ => limit

def text (now : Int) (c : Condition) : String :=
  let spent (label unit : String) : String := s!"{label}: {c.used now}/{c.limit}{unit}"
  match c with
  | iterations _ _ => spent "Used iterations" ""
  | evaluations _ _ => spent "Fitness evaluations" ""
  | searchTime _ _ => spent "Used search time" "s"
  | coverage _ _ => spent "Achieved coverage" "%"
  | plateau _ minimum _ reached =>
    spent "Coverage unchanged for" " iterations" ++ " at " ++ Fixed.percent reached
      ++ if minimum = 0 then "" else s!", minimum {minimum}%"
  | memory limit used =>
    s!"Used memory: {Int.fdiv used megabyte}/{Int.fdiv limit megabyte} MB"

end Condition

def resourcesLeft (now : Int) (conditions : List Condition) : Bool :=
  conditions.all fun c => !c.isFulfilled now

end GoalSearch
