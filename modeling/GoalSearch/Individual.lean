import GoalSearch.Goal

/-!
# Individuals

An individual is a candidate solution together with what the search notes about it: when it was last
bred, its rank and crowding distance, the goals it is to be measured by, and the fitness values known
for its present content. Individuals live in a pool and are known by their number in it.
-/

namespace GoalSearch

inductive Content (σ : Type) where
  /-- Nothing but a size. -/
  | sized (size : Nat)
  /-- A test case, and the number of the operator that mutates it. -/
  | testCase (statements : List σ) (operator : Option Nat)
  | suite (members : List Nat)

def Content.size {σ : Type} : Content σ → Nat
  | sized n => n
  | testCase statements _ => statements.length
  | suite members => members.length

/-- Fitness values by goal; of several for one goal the front one counts. -/
abbrev Cache := List (Goal × Float)

namespace Cache

def get? : Cache → Goal → Option Float
  | [], _ => none
  | (h, v) :: rest, g => if h = g then some v else get? rest g

def insert (c : Cache) (g : Goal) (v : Float) : Cache := (g, v) :: c

theorem get?_insert (c : Cache) (g h : Goal) (v : Float) :
    (c.insert g v).get? h = if g = h then some v else c.get? h := rfl

end Cache

/-- A candidate solution and the notes about it. -/
structure Individual (σ : Type) where
  content : Content σ
  /-- The content changed since the fitness values were stored. -/
  changed : Bool := true
  age : Int := 0
  rank : Int := -1
  distance : Float := 0.0
  functions : List Goal := []
  cache : Cache := []

namespace Individual
variable {σ : Type}

def size (x : Individual σ) : Nat := x.content.size

instance : Inhabited (Individual σ) := ⟨{ content := .sized 0 }⟩

/-- Drops values that belong to an earlier content. -/
def refresh (x : Individual σ) : Individual σ :=
  if x.changed then { x with cache := [], changed := false } else x

end Individual

end GoalSearch
