import GoalSearch.Search.Population
import GoalSearch.Tournament

/-!
# Breeding

Offspring are mutated copies of parents that win tournaments. In every generation some individuals are
added that are new, or mutated copies of archived ones. Offspring that did not change, are empty, or are
trivial are not kept.
-/

namespace GoalSearch.SearchM
variable {σ ω : Type} (setup : Setup σ ω)

def construct : SearchM σ ω (Option Nat) := do
  let made ← onScene (SceneM.act fun w =>
    let (r, w) := setup.subject.make w
    (.ok r, w))
  match made with
  | .ok plan => return some (← onScene (Individual.build setup.subject plan))
  | .error .constructionFailed =>
    log .constructionFailed
    return none
  | .error fault => throw fault

def mutateOnce (i : Nat) : SearchM σ ω Unit := do
  onScene (Individual.mutate setup.subject i)
  onMutation i

/-- Mutates an offspring, once more if it did not change. -/
def mutateOffspring (i : Nat) : SearchM σ ω Unit := do
  mutateOnce setup i
  if !(← onScene (SceneM.individual i)).changed then mutateOnce setup i

def isRetained (x : Individual σ) : Bool := x.changed && 0 < x.size && !setup.trivial x.content

def selectParent : SearchM σ ω Nat := do
  let s ← get
  let members := s.population.toArray
  let member (k : Nat) : Nat := members.getD k 0
  let k ← onScene (SceneM.draw (Tournament.index setup.subject.random
    (fun k => (s.scene.individual (member k)).rank)
    (fun k => (s.scene.individual (member k)).distance) members.size setup.tournamentSize))
  return member k

def times (body : SearchM σ ω Unit) : Nat → SearchM σ ω Unit
  | 0 => pure ()
  | n + 1 => do
    body
    times body n

def retain (i : Nat) : SearchM σ ω (List Nat) := do
  if isRetained setup (← onScene (SceneM.individual i)) then
    evaluate setup i
    return [i]
  else return []

/-- Marks parent and offspring as bred now, and mutates the offspring. -/
def breedFrom (parent offspring : Nat) : SearchM σ ω (List Nat) := do
  let generation := (← get).generation
  onScene (Individual.setAge parent generation)
  onScene (Individual.setAge offspring generation)
  times (mutateOffspring setup offspring) setup.options.numberOfMutations.toNat
  retain setup offspring

/-- Breeds two offspring at a time, as long as resources are left. -/
def breedPairs : Nat → SearchM σ ω (List Nat)
  | 0 => return []
  | n + 1 => do
    if ← resourcesLeft setup.subject then
      let parent₁ ← selectParent setup
      let parent₂ ← selectParent setup
      let offspring₁ ← onScene (Individual.clone parent₁)
      let offspring₂ ← onScene (Individual.clone parent₂)
      let kept₁ ← breedFrom setup parent₁ offspring₁
      let kept₂ ← breedFrom setup parent₂ offspring₂
      return kept₁ ++ kept₂ ++ (← breedPairs n)
    else
      log .budgetUsedUp
      return []

def revive : SearchM σ ω Nat := do
  let archived ← solutions setup.subject
  let i ← onScene (SceneM.draw (setup.subject.random.choice archived))
  let i ← onScene (Individual.clone i)
  times (mutateOnce setup i) 2
  return i

def newcomer : SearchM σ ω (Option Nat) := do
  let fresh ← if (← get).archive.covered.isEmpty then pure true
    else onScene (SceneM.draw setup.subject.random.bool)
  if fresh then construct setup else return some (← revive setup)

def inject : Nat → SearchM σ ω (List Nat)
  | 0 => return []
  | n + 1 => do
    match ← newcomer setup with
    | some i =>
      onScene (Individual.setAge i (← get).generation)
      let kept ← retain setup i
      return kept ++ (← inject n)
    | none => inject n

def injectionCount (options : SearchOptions) : Except Fault Nat := do
  let population ← (Number.int options.population).toFloat
  let x := population * options.testInsertionProbability
  match Binary64.truncate? x with
  | some n => return n.toNat
  | none => throw (if Binary64.isNaN x then .notANumber else .tooLarge)

def breedPopulation : SearchM σ ω (List Nat) := do
  if (← get).population.isEmpty then return []
  else breedPairs setup (Int.fdiv setup.options.population 2).toNat

def breed : SearchM σ ω (List Nat) := do
  let bred ← breedPopulation setup
  let injected ← inject setup (← onScene (SceneM.act fun w => (injectionCount setup.options, w)))
  let offspring := bred ++ injected
  log (.offspringCount offspring.length)
  return offspring

/-- Makes and evaluates a number of new individuals; empty ones are left out. -/
def newMembers : Nat → SearchM σ ω (List Nat)
  | 0 => return []
  | n + 1 => do
    match ← construct setup with
    | none => newMembers n
    | some i =>
      if (← onScene (SceneM.individual i)).size = 0 then
        log .emptyIndividual
        newMembers n
      else
        onScene (Individual.setAge i (← get).generation)
        evaluate setup i
        return i :: (← newMembers n)

def randomPopulation : SearchM σ ω (List Nat) := do
  let members ← newMembers setup setup.options.population.toNat
  log (.initialSize members.length)
  return members

end GoalSearch.SearchM
