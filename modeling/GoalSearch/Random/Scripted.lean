import GoalSearch.Random.Source

/-!
# The scripted source

Draws read from three lists, each read from the start again when it is used up. An integer is
reduced to the asked range. Counters keep the number of draws of each sort.
-/

namespace GoalSearch

/-- The draws to give out; an empty list stands for `0.5`, `0` or `0.0` again and again. -/
structure Scripted where
  floats : Array Float
  ints : Array Int
  normals : Array Float
  floatsDrawn : Nat := 0
  intsDrawn : Nat := 0
  normalsDrawn : Nat := 0

namespace Scripted

/-- The entry of a list at a position, counted on from the start when the list ends. -/
def cyclic {α : Type} (xs : Array α) (fallback : α) (k : Nat) : α := xs.getD (k % xs.size) fallback

def unit (s : Scripted) : Float × Scripted :=
  (cyclic s.floats 0.5 s.floatsDrawn, { s with floatsDrawn := s.floatsDrawn + 1 })

def below (n : Nat) (s : Scripted) : Nat × Scripted :=
  ((cyclic s.ints 0 s.intsDrawn % (n : Int)).toNat, { s with intsDrawn := s.intsDrawn + 1 })

def normal (s : Scripted) : Float × Scripted :=
  (cyclic s.normals 0.0 s.normalsDrawn, { s with normalsDrawn := s.normalsDrawn + 1 })

theorem below_lt {n : Nat} (s : Scripted) (h : 0 < n) : (below n s).1 < n := by
  have := Int.emod_lt_of_pos (cyclic s.ints 0 s.intsDrawn) (Int.natCast_pos.2 h)
  simp only [below]
  omega

def source : RandomSource Scripted where
  nextUnit := unit
  nextBelow := below
  nextNormal _ _ := normal
  nextBelow_lt := below_lt

end Scripted

end GoalSearch
