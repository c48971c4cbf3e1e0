import GoalSearch.Search.Population

/-!
# Watching the archive

Callbacks can be registered with an archive. When a goal becomes covered all of them are called, in the order in which
they were registered, and may look at the archive as it is then. A callback keeps what it is told.
-/

namespace GoalSearch

/-- What a callback is told, and the archive at that moment. -/
structure Covering where
  goal : Goal
  archive : Archive Nat

/-- A search with the number of callbacks of its archive and all calls so far. Callbacks are numbered from zero. -/
structure Watched (σ ω : Type) where
  search : Search σ ω
  callbacks : Nat := 0
  calls : List (Nat × Covering) := []

variable {σ ω α : Type}

/-- What a callback was told, call by call. -/
def Watched.received (w : Watched σ ω) (k : Nat) : List Covering := (w.calls.filter (·.1 = k)).map (·.2)

abbrev WatchedM (σ ω : Type) := ExceptT Fault (StateM (Watched σ ω))

namespace WatchedM

def onSearch (x : SearchM σ ω α) : WatchedM σ ω α := fun w =>
  let (r, search) := x w.search
  (r, { w with search := search })

def register : WatchedM σ ω Unit := modify fun w => { w with callbacks := w.callbacks + 1 }

def call (goal : Goal) (k : Nat) : WatchedM σ ω Unit :=
  modify fun w => { w with calls := w.calls ++ [(k, ⟨goal, w.search.archive⟩)] }

def callAll (goal : Goal) : WatchedM σ ω Unit := do (List.range (← get).callbacks).forM (call goal)

/-! What `SearchM` does with the archive, with the callbacks called as soon as a goal becomes covered. -/

def submit (i : Nat) (goal : Goal) : WatchedM σ ω Bool := do
  let s := (← get).search
  let outcome := (s.archive.submit (fun j => (s.scene.individual j).size) i goal).2
  let changed ← onSearch (SearchM.submit i goal)
  if outcome = .newlyCovered then callAll goal
  return changed

def offer (subject : Subject σ ω) (goal : Goal) (i : Nat) : WatchedM σ ω Bool := do
  if (← onSearch (SearchM.onScene (SceneM.individual i))).size = 0 then return false
  if ← onSearch (SearchM.onScene (Individual.covers subject goal i)) then submit i goal else return false

def updateArchive (subject : Subject σ ω) (members : List Nat) : WatchedM σ ω Bool := do
  let changes ← (← get).search.archive.objectives.mapM fun goal => members.mapM (offer subject goal)
  onSearch (SearchM.log (.archiveCovers (← get).search.archive.covered.length))
  return changes.any (·.any id)

end WatchedM

end GoalSearch
