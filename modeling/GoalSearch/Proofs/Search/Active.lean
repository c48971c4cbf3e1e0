import GoalSearch.Proofs.Dependency
import GoalSearch.Proofs.Scene
import GoalSearch.Search.Evolution

/-!
# The choice of the active goals

What the dynamic strategy pursues is decided by the dependencies that were gathered and the uncovered goals
(`run_activeGoals`). Unless it has to take all of them, it notes no more than their number.
-/

namespace GoalSearch

/-- The search at the moment when it gathers its dependencies. -/
def Search.opened {σ ω : Type} (s : Search σ ω) (subject : Subject σ ω) : Search σ ω :=
  { s with
    phase := .initializing
    generation := 0
    conditions := s.conditions.map (Condition.step (.start (subject.now s.scene.outside)))
    events := s.events.push (.started (subject.now s.scene.outside) .initializing) }

/-- The scene after a choice of goals: a warning is noted if all had to be taken, and then their number. -/
def Scene.chosen {σ ω : Type} (scene : Scene σ ω) (choice : List Goal × Bool) : Scene σ ω :=
  (if choice.2 then scene.logged (.cyclicGoals choice.1.length) else scene).logged (.activeGoals choice.1.length)

namespace SearchM

variable {σ ω : Type} {setup : Setup σ ω} {s : Search σ ω} {d : Dependencies} {goals : List Goal}

theorem run_activeGoals (hdynamic : setup.strategy = .dynamic) (hd : s.dependencies = some d) :
    (activeGoals setup).run s =
      (.ok (d.independent setup.subject.parentOf s.archive.uncovered).1,
        { s with scene := s.scene.chosen (d.independent setup.subject.parentOf s.archive.uncovered) }) := by
  refine run_eq_of_wp ?_
  unfold activeGoals Scene.chosen
  rw [wp_bind, wp_get, hdynamic, hd]
  dsimp only
  rw [← hd]
  generalize d.independent setup.subject.parentOf s.archive.uncovered = choice
  obtain ⟨chosen, cyclic⟩ := choice
  cases cyclic <;> exact ⟨rfl, rfl⟩

theorem run_activeGoals_dynamic (hdynamic : setup.strategy = .dynamic) (hd : s.dependencies = some d)
    (h : d.independent setup.subject.parentOf s.archive.uncovered = (goals, false)) :
    (activeGoals setup).run s = (.ok goals, { s with scene := s.scene.logged (.activeGoals goals.length) }) := by
  rw [run_activeGoals hdynamic hd, h]
  rfl

/-- Dependencies are gathered from the objectives. Parents from outside are logged. -/
theorem wp_gatherDependencies {E : Fault → Search σ ω → Prop} :
    wp (gatherDependencies setup) (fun _ t => ∃ log, t =
      { s with
        scene := { s.scene with log := log }
        dependencies := match setup.strategy with
          | .static => s.dependencies
          | .dynamic => some (Dependencies.ofGoals setup.subject.parentOf s.archive.objectives).1 }) E s := by
  unfold gatherDependencies
  cases setup.strategy with
  | static => exact ⟨_, rfl⟩
  | dynamic =>
    rw [wp_bind, wp_get]
    refine wp_seq wp_logs ?_
    rintro _ _ ⟨log, rfl⟩
    exact ⟨log, rfl⟩

/-- A search opens without fail. -/
theorem run_populate : (populate setup).run s =
    (do
      gatherDependencies setup
      let members ← randomPopulation setup
      modify fun s => { s with population := members }
      return members : SearchM σ ω (List Nat)).run (s.opened setup.subject) := by
  unfold populate
  rw [run_bind]
  show ExceptT.run (onStart setup.subject >>= _) _ = _
  rw [run_bind]
  rfl

end SearchM

end GoalSearch
