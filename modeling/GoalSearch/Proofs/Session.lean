import GoalSearch.Proofs.Scene
import GoalSearch.Proofs.Stopping
import GoalSearch.Session

/-!
# What a session starts with

The search that a session puts together has an archive in which nothing is covered, and for every limit on
generations or evaluations that is switched on a condition that has counted nothing yet (`Session.Prepared`). Up to
there no event is recorded.
-/

namespace GoalSearch

theorem exists_of_bind_eq_ok {ε α β : Type} {x : Except ε α} {f : α → Except ε β} {b : β} (h : x >>= f = .ok b) :
    ∃ a, x = .ok a ∧ f a = .ok b := by
  cases x with
  | error e => cases h
  | ok a => exact ⟨a, rfl, h⟩

/-- The option that limits what is counted. -/
def Tally.option : Tally → StoppingOptions → Int
  | iterations => StoppingOptions.maximumIterations
  | evaluations => StoppingOptions.maximumFitnessEvaluations

namespace Config
variable {stopping : StoppingOptions} {now : Int} {cs : List Condition} {limit : Nat}

theorem limited_of_ok {c : Condition} {on : Bool} (hon : on = true) : limited on (.ok c) = .ok [c] := by
  rw [hon]
  rfl

theorem ofIterations_natCast : Condition.ofIterations limit = .ok (.iterations limit 0) := by
  unfold Condition.ofIterations Condition.demand
  rw [if_pos (by simp)]
  rfl

theorem ofEvaluations_natCast : Condition.ofEvaluations limit = .ok (.evaluations limit 0) := by
  unfold Condition.ofEvaluations Condition.demand
  rw [if_pos (by simp)]
  rfl

/-- A limit that is switched on is watched. -/
theorem mem_of_budgets (tally : Tally) (hlimit : tally.option stopping = limit) (h : budgets now stopping = .ok cs) :
    tally.condition limit 0 ∈ cs := by
  obtain ⟨iterations, hiterations, h⟩ := exists_of_bind_eq_ok h
  obtain ⟨evaluations, hevaluations, h⟩ := exists_of_bind_eq_ok h
  obtain ⟨time, -, h⟩ := exists_of_bind_eq_ok h
  obtain ⟨coverage, -, h⟩ := exists_of_bind_eq_ok h
  obtain ⟨plateau, -, h⟩ := exists_of_bind_eq_ok h
  obtain ⟨minimum, -, h⟩ := exists_of_bind_eq_ok h
  obtain rfl := Except.ok.inj h
  cases tally with
  | iterations =>
    rw [show stopping.maximumIterations = limit from hlimit, ofIterations_natCast, limited_of_ok (by simp)]
      at hiterations
    simp [← Except.ok.inj hiterations, Tally.condition]
  | evaluations =>
    rw [show stopping.maximumFitnessEvaluations = limit from hlimit, ofEvaluations_natCast,
      limited_of_ok (by simp)] at hevaluations
    simp [← Except.ok.inj hevaluations, Tally.condition]

variable {σ ω : Type} {subject : Subject σ ω}

theorem wp_conditions {s : Scene σ ω} : wp (conditions subject stopping)
    (fun cs _ => ∀ (tally : Tally) (limit : Nat), tally.option stopping = limit → tally.condition limit 0 ∈ cs)
    (fun _ _ => True) s := by
  unfold conditions
  refine wp_seq wp_any fun w s _ => ?_
  rw [wp_bind, SceneM.wp_act]
  cases hbudgets : budgets (subject.now w) stopping with
  | error e => exact trivial
  | ok cs =>
    show wp (if cs.isEmpty = true then _ else _) _ _ _
    rw [wp_ite]
    split
    · -- the time is only limited if nothing else is
      rename_i hempty
      rw [List.isEmpty_iff.1 hempty] at hbudgets
      simp only [wp_bind, SceneM.wp_log, wp_pure]
      exact fun tally limit hlimit => absurd (mem_of_budgets tally hlimit hbudgets) (by simp)
    · exact fun tally limit hlimit => List.mem_append_left _ (mem_of_budgets tally hlimit hbudgets)

end Config

namespace Session
variable {σ ω : Type} {session : Session σ ω} {s : Search σ ω}

/-- From `s` on the session put a search together in `t`: nothing is covered, counted or recorded yet. -/
structure Prepared (session : Session σ ω) (s : Search σ ω) (setup : Setup σ ω) (t : Search σ ω) : Prop where
  options : setup.options = session.config.search
  archive : t.archive = .ofGoals session.goals
  events : t.events = s.events
  conditions : ∀ (tally : Tally) (limit : Nat), tally.option session.config.stopping = limit →
    tally.condition limit 0 ∈ t.conditions

theorem wp_assemble : wp session.assemble (Prepared session s) (fun _ t => t.events = s.events) s := by
  unfold assemble
  split
  · rfl
  · rw [wp_bind, SearchM.wp_log, wp_bind, SearchM.wp_log]
    split
    · rfl
    · rw [wp_bind, SearchM.wp_onScene]
      exact wp_mono Config.wp_conditions (fun conditions u h => ⟨rfl, rfl, rfl, h⟩) fun _ _ _ => rfl

/-- A session prepares its search, or fails to, before anything is recorded. -/
theorem wp_prepare : wp session.prepare (Prepared session s) (fun _ t => t.events = s.events) s := by
  unfold prepare
  rw [wp_bind, SearchM.wp_onScene]
  refine SceneM.wp_act_of_forall (fun _ w => ?_) fun _ _ => rfl
  rw [wp_bind, wp_get, wp_bind, SearchM.wp_log]
  exact wp_mono wp_assemble (fun _ _ h => ⟨h.options, h.archive, h.events, h.conditions⟩) fun _ _ h => h

theorem wp_always {α : Type} {x : SearchM σ ω α} {after : SearchM σ ω Unit} {Q : α → Search σ ω → Prop}
    {E : Fault → Search σ ω → Prop} : wp (always x after) Q E s ↔
      wp x (fun a => wp after (fun _ => Q a) E) (fun e => wp after (fun _ => E e) E) s := by
  have hlift : ∀ {P : Except Fault α → Search σ ω → Prop}, wp (ExceptT.lift x.run) P E s ↔ P (x.run s).1 (x.run s).2 :=
    Iff.rfl
  unfold always
  rw [wp_bind, hlift, wp_bind]
  conv_rhs => rw [wp]
  rcases x.run s with ⟨e | a, t⟩ <;> rfl

end Session

end GoalSearch
