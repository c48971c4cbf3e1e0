import GoalSearch.Sample.Subject
import GoalSearch.Statement.Decode

/-!
# Descriptions of samples

Sample goals, operators, factories and generators are described by records: a field `kind` names the
kind, and other fields hold what belongs to it.
-/

namespace GoalSearch.Sample

def kind (s : Statement) : String := s.get "kind"

/-- Null and faults that no search knows are failures; a text is given in a record of its own. -/
instance : Decode Verdict where
  decode
    | .null => .failure
    | s@(.record _) =>
      match s.field? "str" with
      | some text => .text (decode text)
      | none =>
        match (s.get "raise" : String) with
        | "ConstructionFailedException" => .abort .constructionFailed
        | "GenerationException" => .abort (.generation .foreign)
        | "ConfigurationException" => .abort (.setup .foreign)
        | _ => .failure
    | s => .number (decode s)

def goalBehind (earlier : Array SampleGoal) (s : Statement) : SampleGoal :=
  let name := s.getOr "name" s!"g{earlier.size}"
  let parent : Option Nat := s.get "parent"
  let goal (e : Evaluator) : SampleGoal := ⟨name, e, parent, s.get "maximise"⟩
  match kind s with
  | "nested" => .ofTarget earlier name (s.get "target") parent
  | "values" => goal (.script (s.get "values"))
  | "size_above" => goal (.sizeAbove (s.get "limit"))
  | "size_below" => goal (.sizeBelow (s.get "limit"))
  | "contains" => goal (.contains (s.get "value") (s.getOr "else" (.int 1)))
  | "sum_mod" => goal (.sumModulo (s.get "mod") (s.get "target") (s.getOr "scale" (.int 1)))
  | _ => { goal (.constant (.real 1.0)) with parent := none }

def goalsBehind (earlier : Array SampleGoal) (ss : List Statement) : Array SampleGoal :=
  ss.foldl (fun goals s => goals.push (goalBehind goals s)) earlier

instance : Decode MutationRates where
  decode s :=
    let standard : MutationRates := {}
    { deleteProbability := s.getOr "delete_probability" standard.deleteProbability
      changeProbability := s.getOr "change_probability" standard.changeProbability
      insertProbability := s.getOr "insert_probability" standard.insertProbability
      insertionProbability :=
        s.getOr "statement_insertion_probability" standard.insertionProbability
      maxLength := s.getOr "max_length" standard.maxLength }

def operator (s : Statement) : Except Fault Operator := do
  match kind s with
  | "integer" => return .integer (← IntegerMutation.make (s.get "value_range") (decode s))
  | "counting" => return .counting (decode s)
  | "append" => return .append (s.getOr "value" (.int 0))
  | "pop" => return .pop
  | "every" => return .every (s.get "n")
  | "silent" => return .silent (s.getOr "value" (.int 0))
  | _ => return .none

instance : Decode Item where
  decode
    | .text "fail" => .fails
    | .text _ => .breaks
    | s => .statements (decode s)

def factorySlot : Nat := 1

instance : Decode Factory where
  decode s :=
    match s.field? "items" with
    | some items =>
      .cycle (decode items) ((s.get "mutation" : Option Statement).map fun _ => factorySlot)
    | none => .random (s.get "length") factorySlot

/-- A seed, or the lists of a script; without either, the seed is zero. -/
instance : Decode Generator where
  decode s :=
    match s.field? "seed" with
    | some n => .seeded (.ofSeed (decode n))
    | none =>
      if s.isNull then .seeded (.ofSeed 0)
      else .scripted { floats := s.get "floats", ints := s.get "ints", normals := s.get "gauss" }

def trivial (s : Statement) : Content Statement → Bool :=
  match kind s with
  | "always" => fun _ => true
  | "size_below" => fun c => decide ((c.size : Int) < s.get "n")
  | "contains" => fun
    | .testCase xs _ => xs.any (·.agrees (s.get "value"))
    | _ => false
  | _ => fun _ => false

def parts (goals : List Statement) (mutation factory : Statement) : Except Fault Parts := do
  let goals := goalsBehind #[] goals
  let operators := #[← operator mutation, ← operator (factory.get "mutation")]
  return ⟨goals, operators, decode factory, (List.range goals.size).map .atom⟩

end GoalSearch.Sample
