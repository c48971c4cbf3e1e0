import GoalSearch.Random.Generator
import GoalSearch.Subject

/-!
# Surroundings by the book

A world that is known down to its clock: a generator of draws, a time that moves by fixed amounts when
something happens, a fixed memory use, and counters for those who count their calls.
-/

namespace GoalSearch.Sample

structure World where
  generator : Generator
  /-- The generator of the search, if it does not share the one of operators and factory. -/
  own : Option Generator := none
  clock : Int := 1700000000000000000
  /-- What the clock moves by, with every evaluated individual and with every generation. -/
  perEvaluation : Int := 0
  perIteration : Int := 0
  memory : Option Int := some 0
  calls : Array Nat := #[]
  counters : Array Nat := #[]
  handedOut : Nat := 0

namespace World

def random : RandomSource World :=
  Generator.source.within World.generator fun g w => { w with generator := g }

def searching (w : World) : Generator := w.own.getD w.generator

def searchRandom : RandomSource World :=
  Generator.source.within searching fun g w =>
    if w.own.isSome then { w with own := some g } else { w with generator := g }

def surroundings : Surroundings World where
  random := searchRandom
  seed w := w.searching.seed
  now := World.clock
  memory := World.memory
  notice
    | .evaluated, w => { w with clock := w.clock + w.perEvaluation }
    | .generationFinished, w => { w with clock := w.clock + w.perIteration }

end World

end GoalSearch.Sample
