import GoalSearch.Goal
import GoalSearch.Statement

/-!
# Values in statements

Reads values of other types off plain data. Reading always succeeds: data of another form than
expected stands for zero, nothing, or the empty list.
-/

namespace GoalSearch

class Decode (α : Type) where
  decode : Statement → α

export Decode (decode)

namespace Statement

def isNull : Statement → Bool
  | null => true
  | _ => false

def items : Statement → List Statement
  | list xs => xs
  | _ => []

def field? (s : Statement) (key : String) : Option Statement :=
  match s with
  | record fields => get? key fields
  | _ => none

def all (s : Statement) (key : String) : List Statement := ((s.field? key).getD null).items

variable {α : Type} [Decode α]

def get (s : Statement) (key : String) : α := decode ((s.field? key).getD null)

def getOr (s : Statement) (key : String) (fallback : α) : α :=
  ((s.field? key).map decode).getD fallback

/-- What is read in an item of a list; a missing one reads like null. -/
def arg (s : Statement) (k : Nat) : α := decode ((s.items[k]?).getD null)

def argOr (s : Statement) (k : Nat) (fallback : α) : α :=
  ((s.items[k]?).map decode).getD fallback

end Statement

instance : Decode Statement := ⟨id⟩

/-- A number with a fraction is cut to an integer. -/
instance : Decode Int where
  decode
    | .real x => (Binary64.truncate? x).getD 0
    | s => s.integer?.getD 0

/-- Negative integers are read as zero. -/
instance : Decode Nat := ⟨fun s => (decode s : Int).toNat⟩

instance : Decode Bool := ⟨fun s => (decode s : Int) != 0⟩

instance : Decode String where
  decode
    | .text s => s
    | _ => ""

/-- The values that have no literal are given by name. -/
instance : Decode Number where
  decode
    | .text "nan" => .real Binary64.nan
    | .text "inf" => .real Binary64.infinity
    | .text "-inf" => .real (-Binary64.infinity)
    | .text "-0.0" => .real (-0.0)
    | s => s.number?.getD (.int 0)

/-- Integers beyond the largest finite value are read as infinity. -/
instance : Decode Float := ⟨fun s => ((decode s : Number).toFloat?).getD Binary64.infinity⟩

instance : Decode Goal := ⟨fun s => .atom (decode s)⟩

instance {α : Type} [Decode α] : Decode (List α) := ⟨fun s => s.items.map decode⟩

instance {α : Type} [Decode α] : Decode (Array α) := ⟨fun s => (decode s : List α).toArray⟩

instance {α β : Type} [Decode α] [Decode β] : Decode (α × β) := ⟨fun s => (s.arg 0, s.arg 1)⟩

instance {α : Type} [Decode α] : Decode (Option α) where
  decode s := if s.isNull then none else some (decode s)

end GoalSearch
