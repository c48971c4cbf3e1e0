import GoalSearch.Number.Basic

/-!
# Statements

The statements of test cases in the sample subjects are plain data. Two statements agree if they have
the same structure, where the truth values count as the integers one and zero, numbers are compared by
value, and the order of a record's fields does not matter.
-/

namespace GoalSearch

inductive Statement where
  | null
  | bool (b : Bool)
  | int (n : Int)
  | real (x : Float)
  | text (s : String)
  | list (items : List Statement)
  | record (fields : List (String × Statement))
deriving Inhabited

namespace Statement

def integer? : Statement → Option Int
  | int n => some n
  | bool b => some (if b then 1 else 0)
  | _ => none

def number? : Statement → Option Number
  | int n => some (.int n)
  | bool b => some (.int (if b then 1 else 0))
  | real x => some (.real x)
  | _ => none

/-- The values are numbers that are not apart. -/
def sameNumber (x y : Option Number) : Bool :=
  match x, y with
  | some x, some y => x.eq y
  | _, _ => false

def get? (key : String) (fields : List (String × Statement)) : Option Statement :=
  (fields.find? (·.1 == key)).map (·.2)

mutual

def agrees : Statement → Statement → Bool
  | null, null => true
  | text a, text b => a == b
  | list xs, list ys => allAgree xs ys
  | record fields, record fields' =>
    fields.length == fields'.length && fieldsAgree fields fields'
  | x, y => sameNumber x.number? y.number?

def allAgree : List Statement → List Statement → Bool
  | [], [] => true
  | x :: xs, y :: ys => x.agrees y && allAgree xs ys
  | _, _ => false

def fieldsAgree : List (String × Statement) → List (String × Statement) → Bool
  | [], _ => true
  | (key, x) :: fields, fields' =>
    (match get? key fields' with
      | some y => x.agrees y
      | none => false) && fieldsAgree fields fields'

end

def grow (x : Statement) : Statement → Except Fault Statement
  | list items => .ok (list (items ++ [x]))
  | _ => .error .contentForm

end Statement

end GoalSearch
