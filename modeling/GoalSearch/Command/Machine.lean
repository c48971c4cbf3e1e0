import GoalSearch.Random.Generator
import GoalSearch.Subject

/-!
# The machine a search runs on

A generator of draws together with the last readings of the clock and of the memory gauge. A search
sees the time and the memory as they were read last; whoever runs it takes new readings between its
generations.
-/

namespace GoalSearch.Command

structure Machine where
  generator : Generator
  time : Int
  memory : Option Int

namespace Machine

/-- A machine whose draws come from a seed, or from the time if there is none. -/
def ofSeed (seed : Option Int) (time : Int) (memory : Option Int) : Machine where
  generator := .seeded (.ofSeed (seed.getD time))
  time := time
  memory := memory

def observe (time : Int) (memory : Option Int) (m : Machine) : Machine :=
  { m with time := time, memory := memory }

def random : RandomSource Machine :=
  Generator.source.within Machine.generator fun g m => { m with generator := g }

/-- The surroundings that a machine makes; nothing that happens changes it. -/
def surroundings : Surroundings Machine where
  random := random
  seed m := m.generator.seed
  now := Machine.time
  memory := Machine.memory
  notice _ m := m

end Machine

end GoalSearch.Command
