import GoalSearch.Random.Source
import GoalSearch.Random.Twister

/-!
# The seeded source

A `Twister` with the distributions the search draws from. Bounded integers are drawn by rejection,
so all are equally likely; normal numbers come in pairs, of which the second is kept for the next
call.
-/

namespace GoalSearch

/-- A generator, the seed it started from and the normal number it has in store. -/
structure Seeded where
  seed : Int
  twister : Twister
  spare : Option Float

namespace Seeded

def ofSeed (seed : Int) : Seeded := ⟨seed, .ofSeed seed, none⟩

def word : Seeded → UInt32 × Seeded
  | ⟨seed, twister, spare⟩ =>
    let (w, twister) := twister.next
    (w, ⟨seed, twister, spare⟩)

/-- A number of the unit interval with 53 random bits. -/
def unit (g : Seeded) : Float × Seeded :=
  let (a, g) := g.word
  let (b, g) := g.word
  let high := Float.ofNat (a >>> 5).toNat
  let low := Float.ofNat (b >>> 6).toNat
  ((high * 67108864.0 + low) / 9007199254740992.0, g)

/-- Some whole words, and above them `last + 1` bits from the high end of another one. -/
def words (last : Nat) : Nat → Seeded → Nat × Seeded
  | 0, g =>
    let (w, g) := g.word
    (w.toNat >>> (31 - last), g)
  | whole + 1, g =>
    let (w, g) := g.word
    let (rest, g) := words last whole g
    (w.toNat + rest * Nat.pow 2 32, g)

/-- The given number of random bits. They are taken from the high end of one word per 32 bits, least
significant word first. -/
def bits : Nat → Seeded → Nat × Seeded
  | 0, g => (0, g)
  | k + 1, g => words (k % 32) (k / 32) g

/-- Draws numbers of `size` bits until one is below `n`. Every attempt succeeds with a probability
above one half; should all fail, the last one is reduced. -/
def reject (n size : Nat) : Nat → Seeded → Nat × Seeded
  | 0, g =>
    let (r, g) := bits size g
    (r % n, g)
  | attempts + 1, g =>
    let (r, g) := bits size g
    if r < n then (r, g) else reject n size attempts g

def below (n : Nat) (g : Seeded) : Nat × Seeded :=
  if n = 0 then (0, g) else reject n (n.log2 + 1) (Nat.pow 2 16) g

theorem reject_lt {n : Nat} (size attempts : Nat) (g : Seeded) (h : 0 < n) :
    (reject n size attempts g).1 < n := by
  induction attempts generalizing g with
  | zero => exact Nat.mod_lt _ h
  | succ attempts ih =>
    simp only [reject]
    split
    · assumption
    · exact ih _

theorem below_lt {n : Nat} (g : Seeded) (h : 0 < n) : (below n g).1 < n := by
  rw [below, if_neg (by omega)]
  exact reject_lt _ _ g h

/-- A normally distributed number: two uniform numbers give an angle and a radius, whose cosine is
used now and whose sine next time. -/
def normal (mean deviation : Float) (g : Seeded) : Float × Seeded :=
  match g.spare with
  | some z => (mean + z * deviation, { g with spare := none })
  | none =>
    let (a, g) := g.unit
    let angle := a * 6.283185307179586
    let (b, g) := g.unit
    let radius := Float.sqrt (-2.0 * Float.log (1.0 - b))
    (mean + Float.cos angle * radius * deviation,
      { g with spare := some (Float.sin angle * radius) })

def source : RandomSource Seeded where
  nextUnit := unit
  nextBelow := below
  nextNormal := normal
  nextBelow_lt := below_lt

end Seeded

end GoalSearch
