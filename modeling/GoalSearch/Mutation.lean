import GoalSearch.TestCase

/-!
# Mutation of statement sequences

A sequence mutation deletes, changes and inserts statements, in three phases that are each entered with
a probability of their own. In the first two, every statement is affected with the probability `1 / n`
for `n` statements; the last inserts statements as long as draws stay below a bound that decays with
every insertion, and never beyond a greatest length.
-/

namespace GoalSearch

structure MutationRates where
  deleteProbability : Float := 1.0 / 3.0
  changeProbability : Float := 1.0 / 3.0
  insertProbability : Float := 1.0 / 3.0
  /-- The probability of a first insertion; its powers are those of further ones. -/
  insertionProbability : Float := 0.5
  /-- Nothing is inserted into a test case of this length. -/
  maxLength : Nat := 40

structure SequenceMutation (σ ω : Type) extends MutationRates where
  create : Draw ω σ
  /-- A changed version of a statement, if it can be changed. -/
  change : σ → Draw ω (Option σ)

/-- A power of the insertion probability. Powers of what is not beyond one are not beyond one either; a finite number
beyond one whose power is infinite is a fault. -/
def MutationRates.bound (rates : MutationRates) (exponent : Nat) : Except Fault Float :=
  let x := rates.insertionProbability
  let p := Float.pow x (Float.ofNat exponent)
  if Binary64.isInfinite p && Binary64.isFinite x && (x < -1.0 || 1.0 < x) then .error .tooLarge
  else .ok p

namespace SequenceMutation
variable {σ ω : Type} (source : RandomSource ω) (op : SequenceMutation σ ω)

def share (n : Nat) : Float := 1.0 / Float.ofNat n

/-- Considers the statements in front of a position for deletion, last one first. -/
def deleteBefore (p : Float) : Nat → Edit σ ω Bool
  | 0 => pure false
  | i + 1 => do
    if (← .draw source.unit) ≤ p then
      .change (TestCase.remove i)
      let _ ← deleteBefore p i
      return true
    else deleteBefore p i

def delete : Edit σ ω Bool := do
  let n := (← Edit.statements).length
  if n = 0 then return false else deleteBefore source (share n) n

/-- Considers a number of statements from a position on for a change. -/
def changeFrom (p : Float) (i : Nat) : Nat → Edit σ ω Bool
  | 0 => pure false
  | n + 1 => do
    if (← .draw source.unit) < p then
      let old ← .read (TestCase.get i)
      match ← .draw (op.change old) with
      | some new =>
        .change (TestCase.set new i)
        let _ ← changeFrom p (i + 1) n
        return true
      | none => changeFrom p (i + 1) n
    else changeFrom p (i + 1) n

def changePhase : Edit σ ω Bool := do
  let n := (← Edit.statements).length
  if n = 0 then return false else changeFrom source op (share n) 0 n

def insertFrom : Nat → Nat → Edit σ ω Bool
  | room, exponent => do
    let x ← .draw source.unit
    let b ← .draw (.ofExcept (op.bound exponent))
    match room with
    | 0 => return false
    | room + 1 =>
      if x ≤ b then
        let n := (← Edit.statements).length
        let position ← .draw (source.int 0 (n + 1))
        let new ← .draw op.create
        .change fun xs => .ok (TestCase.add new position xs)
        let _ ← insertFrom room (exponent + 1)
        return true
      else return false

def insert : Edit σ ω Bool := do
  let n := (← Edit.statements).length
  insertFrom source op (op.maxLength - n) 1

def phase (p : Float) (body : Edit σ ω Bool) : Edit σ ω Bool := do
  if (← .draw source.unit) ≤ p then body else return false

def mutate : Edit σ ω Bool := do
  let deleted ← phase source op.deleteProbability (delete source)
  let changed ← phase source op.changeProbability (changePhase source op)
  let inserted ← phase source op.insertProbability (insert source op)
  return deleted || changed || inserted

def sequence : Nat → Draw ω (List σ)
  | 0 => pure []
  | n + 1 => do
    let s ← op.create
    return s :: (← sequence n)

/-- A test case of new statements, whose length is drawn from one up to a greatest length. -/
def randomSequence (length : Int) : Draw ω (List σ) := do
  sequence op (← source.int 1 (length + 1)).toNat

end SequenceMutation

end GoalSearch
