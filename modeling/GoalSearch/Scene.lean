import GoalSearch.Log
import GoalSearch.Subject

/-!
# Scenes

A scene is all that a search acts on: the pool of individuals, the state of the subject, and the log.
Computations on a scene may end with a fault; what they did before stays done.
-/

namespace GoalSearch

/-- The individuals made so far, the state of the subject, and the log. -/
structure Scene (σ ω : Type) where
  pool : Array (Individual σ)
  outside : ω
  log : Array Notice

abbrev SceneM (σ ω : Type) := ExceptT Fault (StateM (Scene σ ω))

def Scene.individual {σ ω : Type} (s : Scene σ ω) (i : Nat) : Individual σ :=
  (s.pool[i]?).getD default

namespace SceneM
variable {σ ω α : Type}

def individual (i : Nat) : SceneM σ ω (Individual σ) := fun s => (.ok (s.individual i), s)

def update (i : Nat) (f : Individual σ → Individual σ) : SceneM σ ω Unit :=
  fun ⟨pool, outside, log⟩ => (.ok (), ⟨pool.modify i f, outside, log⟩)

def add (x : Individual σ) : SceneM σ ω Nat :=
  fun ⟨pool, outside, log⟩ => (.ok pool.size, ⟨pool.push x, outside, log⟩)

def log (notice : Notice) : SceneM σ ω Unit :=
  fun ⟨pool, outside, log⟩ => (.ok (), ⟨pool, outside, log.push notice⟩)

def outside : SceneM σ ω ω := fun s => (.ok s.outside, s)

def act (f : ω → Except Fault α × ω) : SceneM σ ω α :=
  fun ⟨pool, outside, log⟩ =>
    let (r, outside) := f outside
    (r, ⟨pool, outside, log⟩)

def draw (x : Draw ω α) : SceneM σ ω α := act x

end SceneM

end GoalSearch
