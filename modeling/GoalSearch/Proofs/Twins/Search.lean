import GoalSearch.Proofs.Twins.Scene
import GoalSearch.Search.Evolution

/-!
# Twin searches

Two searches are twins if they are the same but for the log, the record of events, and known fitness values, which
agree. What their dependencies have to do with each other is a parameter (`Link`). The steps of two searches whose
evaluators resemble each other keep them twins, whatever their strategies: no step reads a strategy or dependencies
but the choice of the active goals.
-/

namespace GoalSearch

variable {σ ω : Type}

/-- What is known of an archive and the dependencies of two searches with it; submissions do not change it. -/
structure Link where
  holds : Archive Nat → Option Dependencies → Option Dependencies → Prop
  submit : ∀ {archive d e} (size : Nat → Nat) i g, holds archive d e → holds (archive.submit size i g).1 d e

namespace Link

/-- The same dependencies. -/
def same : Link := ⟨fun _ d e => d = e, fun _ _ _ => id⟩

/-- Any dependencies. -/
def any : Link := ⟨fun _ _ _ => True, fun _ _ _ => id⟩

end Link

/-- The same search, but for the log, the events, the dependencies, and known values, which agree. -/
structure Search.Twin (sharp : Goal → Prop) (link : Link) (s t : Search σ ω) : Prop where
  scene : s.scene.Twin sharp t.scene
  archive : s.archive = t.archive
  population : s.population = t.population
  generation : s.generation = t.generation
  phase : s.phase = t.phase
  conditions : s.conditions = t.conditions
  dependencies : link.holds s.archive s.dependencies t.dependencies

namespace Search.Twin
variable {sharp : Goal → Prop} {link : Link} {s t : Search σ ω} {i : Nat}

theorem size_eq (h : s.Twin sharp link t) :
    (fun j => (t.scene.individual j).size) = fun j => (s.scene.individual j).size := by
  funext j
  exact congrArg Content.size (h.scene.individual j).content_eq

end Search.Twin

/-- The setup with other evaluators. -/
def Setup.judgedBy (setup : Setup σ ω) (judge : Nat → Content σ → ω → Verdict × ω) : Setup σ ω :=
  { setup with subject := setup.subject.judgedBy judge }

/-- The setup with other evaluators and another strategy. -/
def Setup.varied (setup : Setup σ ω) (judge : Nat → Content σ → ω → Verdict × ω) (strategy : Strategy) :
    Setup σ ω :=
  { setup.judgedBy judge with strategy := strategy }

namespace SearchM
variable {α β : Type} {sharp : Goal → Prop} {link : Link} {subject : Subject σ ω}
  {judge : Nat → Content σ → ω → Verdict × ω}

theorem mirrors_onScene {V : α → β → Prop} {x : SceneM σ ω α} {y : SceneM σ ω β}
    (h : Mirrors (Scene.Twin sharp) V x y) : Mirrors (Search.Twin sharp link) V (onScene x) (onScene y) := by
  intro s t hst
  obtain ⟨houtcome, hscene⟩ := h s.scene t.scene hst.scene
  exact ⟨houtcome, hscene, hst.archive, hst.population, hst.generation, hst.phase, hst.conditions, hst.dependencies⟩

theorem mirrors_individual (i : Nat) : Mirrors (Search.Twin (σ := σ) (ω := ω) sharp link) (Individual.Twin sharp)
    (onScene (SceneM.individual i)) (onScene (SceneM.individual i)) :=
  mirrors_onScene (SceneM.mirrors_individual i)

/-! ### Records and signals -/

theorem mirrors_log (notice notice' : Notice) :
    Mirrors (Search.Twin (σ := σ) (ω := ω) sharp link) Eq (log notice) (log notice') :=
  mirrors_onScene (SceneM.mirrors_log _ _)

theorem mirrors_enter (phase : Phase) :
    Mirrors (Search.Twin (σ := σ) (ω := ω) sharp link) Eq (enter phase) (enter phase) :=
  .modify fun _ _ h => { h with phase := rfl }

theorem mirrors_record (event event' : Event σ) :
    Mirrors (Search.Twin (ω := ω) sharp link) Eq (record event) (record event') :=
  .modify fun _ _ h => { h with }

theorem mirrors_signal (x : Signal) :
    Mirrors (Search.Twin (σ := σ) (ω := ω) sharp link) Eq (signal x) (signal x) :=
  .modify fun _ _ h => { h with conditions := congrArg (List.map (Condition.step x)) h.conditions }

theorem mirrors_notice (x : Occasion) :
    Mirrors (Search.Twin sharp link) Eq (notice subject x) (notice (subject.judgedBy judge) x) :=
  mirrors_onScene (SceneM.mirrors_act_same _)

theorem mirrors_now :
    Mirrors (Search.Twin sharp link) Eq (now subject) (now (subject.judgedBy judge)) :=
  Mirrors.get.bind fun _ _ h => .pure (congrArg subject.now h.scene.outside)

theorem mirrors_resourcesLeft :
    Mirrors (Search.Twin sharp link) Eq (resourcesLeft subject) (resourcesLeft (subject.judgedBy judge)) := by
  refine Mirrors.get.bind fun s t h => .pure ?_
  rw [h.conditions, h.scene.outside]
  rfl

theorem mirrors_onEvaluation (i : Nat) :
    Mirrors (Search.Twin sharp link) Eq (onEvaluation subject i) (onEvaluation (subject.judgedBy judge) i) :=
  (mirrors_signal _).seq fun _ => Mirrors.get.bind fun _ _ _ => (mirrors_record _ _).seq fun _ => mirrors_notice _

theorem mirrors_onMutation (i : Nat) :
    Mirrors (Search.Twin (σ := σ) (ω := ω) sharp link) Eq (onMutation i) (onMutation i) :=
  (mirrors_signal _).seq fun _ => Mirrors.get.bind fun _ _ _ => mirrors_record _ _

theorem mirrors_onFirst {taken taken' : Snapshot} (h : taken.coverage = taken'.coverage) :
    Mirrors (Search.Twin (σ := σ) (ω := ω) sharp link) Eq (onFirst taken) (onFirst taken') := by
  unfold onFirst
  rw [h]
  refine (mirrors_signal _).seq fun _ => (mirrors_log _ _).seq fun _ => ?_
  exact Mirrors.get.bind fun _ _ _ => mirrors_record _ _

theorem mirrors_onFinish : Mirrors (Search.Twin (σ := σ) (ω := ω) sharp link) Eq onFinish onFinish :=
  (mirrors_signal _).seq fun _ => Mirrors.get.bind fun _ _ _ => mirrors_record _ _

theorem mirrors_logs {l l' : List β} (notice notice' : β → Notice) :
    Mirrors (Search.Twin (σ := σ) (ω := ω) sharp link) Eq (l.forM fun p => log (notice p))
      (l'.forM fun p => log (notice' p)) := by
  intro s t hst
  have hlogs : ∀ (l : List β) (notice : β → Notice) (s : Search σ ω), ∃ new,
      (l.forM fun p => log (notice p)).run s = (.ok (), { s with scene := { s.scene with log := new } }) := by
    intro l notice s
    obtain ⟨_, _, hrun, new, rfl⟩ := exists_of_wp wp_logs
    exact ⟨new, hrun⟩
  obtain ⟨log, hrun⟩ := hlogs l notice s
  obtain ⟨log', hrun'⟩ := hlogs l' notice' t
  rw [hrun, hrun']
  exact ⟨.ok rfl, { hst with scene := hst.scene.logs log log' }⟩

theorem mirrors_sampleMemory :
    Mirrors (Search.Twin sharp link) Eq (sampleMemory subject) (sampleMemory (subject.judgedBy judge)) := by
  refine Mirrors.get.bind fun s t h => ?_
  rw [h.conditions, h.scene.outside]
  refine Mirrors.ite Iff.rfl ?_ (.pure rfl)
  exact (mirrors_logs (fun _ => .memoryUnknown) fun _ => .memoryUnknown).seq fun _ => .pure rfl

theorem mirrors_onIteration {taken taken' : Snapshot} (h : taken.coverage = taken'.coverage) (generation : Int) :
    Mirrors (Search.Twin sharp link) Eq (onIteration subject generation taken)
      (onIteration (subject.judgedBy judge) generation taken') := by
  unfold onIteration
  rw [h]
  refine mirrors_sampleMemory.seq fun _ => (mirrors_signal _).seq fun _ => (mirrors_log _ _).seq fun _ => ?_
  refine (mirrors_logs (fun p : Goal × Float => .bestFitness p.1 p.2) fun p => .bestFitness p.1 p.2).seq fun _ => ?_
  exact Mirrors.get.bind fun _ _ _ => (mirrors_record _ _).seq fun _ => mirrors_notice _

/-! ### The archive -/

theorem mirrors_submit (i : Nat) (g : Goal) :
    Mirrors (Search.Twin (σ := σ) (ω := ω) sharp link) Eq (submit i g) (submit i g) := by
  have hrun : ∀ s : Search σ ω, ∃ log, (submit i g).run s =
      (.ok (changes (s.archive.submit (fun j => (s.scene.individual j).size) i g).2),
        { s with
          scene := { s.scene with log := log }
          archive := (s.archive.submit (fun j => (s.scene.individual j).size) i g).1 }) := by
    intro s
    obtain ⟨_, _, hrun, log, hb, hu⟩ := exists_of_wp (wp_submit (s := s) (i := i) (g := g) (E := fun _ _ => False)
      (Q := fun b u => ∃ log, b = changes (s.archive.submit (fun j => (s.scene.individual j).size) i g).2 ∧ u = { s with
        scene := { s.scene with log := log }
        archive := (s.archive.submit (fun j => (s.scene.individual j).size) i g).1 }) fun log => ⟨log, rfl, rfl⟩)
    exact ⟨log, by rw [hrun, hb, hu]⟩
  intro s t hst
  obtain ⟨log, hs⟩ := hrun s
  obtain ⟨log', ht⟩ := hrun t
  rw [hs, ht, hst.size_eq, ← hst.archive]
  exact ⟨.ok rfl,
    { hst with
      scene := hst.scene.logs log log'
      archive := rfl
      dependencies := link.submit _ i g hst.dependencies }⟩

section Measuring
variable (h : subject.Resembles sharp judge)
include h

theorem mirrors_covers (g : Goal) (i : Nat) : Mirrors (Search.Twin sharp link) Eq
    (onScene (Individual.covers subject g i)) (onScene (Individual.covers (subject.judgedBy judge) g i)) :=
  mirrors_onScene (Individual.mirrors_covers h g i)

theorem mirrors_offer (g : Goal) (i : Nat) :
    Mirrors (Search.Twin sharp link) Eq (offer subject g i) (offer (subject.judgedBy judge) g i) := by
  refine (mirrors_individual i).bind fun x y hxy => ?_
  have hsize : y.size = x.size := congrArg Content.size hxy.content_eq
  rw [hsize]
  refine .ite Iff.rfl (.pure rfl) ((mirrors_covers h g i).seq fun covered => ?_)
  exact .ite Iff.rfl (mirrors_submit i g) (.pure rfl)

theorem mirrors_updateArchive (members : List Nat) : Mirrors (Search.Twin sharp link) Eq
    (updateArchive subject members) (updateArchive (subject.judgedBy judge) members) := by
  refine Mirrors.get.bind fun s t hst => ?_
  rw [hst.archive]
  refine (Mirrors.mapM_eq fun g _ => Mirrors.mapM_eq fun i _ => mirrors_offer h g i).seq fun changes => ?_
  exact Mirrors.get.bind fun _ _ _ => (mirrors_log _ _).seq fun _ => .pure rfl

theorem mirrors_allCover (entries : List (Goal × Nat)) : Mirrors (Scene.Twin sharp) Eq
    (allCover subject entries) (allCover (subject.judgedBy judge) entries) := by
  induction entries with
  | nil => exact .pure rfl
  | cons p entries ih =>
    exact (Individual.mirrors_covers h p.1 p.2).seq fun _ => .ite Iff.rfl ih (.pure rfl)

theorem mirrors_solutions :
    Mirrors (Search.Twin sharp link) Eq (solutions subject) (solutions (subject.judgedBy judge)) := by
  refine Mirrors.get.bind fun s t hst => ?_
  rw [hst.archive]
  refine (mirrors_onScene (mirrors_allCover h _)).seq fun _ => .ite Iff.rfl ?_ (.throw _)
  exact Mirrors.get.bind fun s t hst => .pure (congrArg Archive.solutions hst.archive)

theorem mirrors_bestFitness (g : Goal) : Mirrors (Search.Twin sharp link) (Fitness.Agree sharp g)
    (bestFitness subject g) (bestFitness (subject.judgedBy judge) g) := by
  refine Mirrors.get.bind fun s t hst => ?_
  rw [hst.population]
  refine (Mirrors.mapM fun i _ => mirrors_onScene (mirrors_fitness h g i)).bind fun us vs hvalues => .pure ?_
  exact Fitness.Agree.least hvalues

/-- Snapshots show the same goals as covered and as uncovered. -/
theorem mirrors_snapshot : Mirrors (Search.Twin sharp link) (fun a b => a.coverage = b.coverage)
    (snapshot subject) (snapshot (subject.judgedBy judge)) := by
  refine Mirrors.get.bind fun s t hst => ?_
  rw [hst.size_eq, hst.archive]
  refine (Mirrors.mapM (V := fun _ _ => True) fun g _ => ?_).bind fun _ _ _ => .pure rfl
  exact (mirrors_bestFitness h g).bind fun _ _ _ => .pure trivial

theorem mirrors_computeDominance {goals : List Goal} (hgoals : ∀ g ∈ goals, sharp g) (members : List Nat) :
    Mirrors (Search.Twin sharp link) Eq (computeDominance subject members goals)
      (computeDominance (subject.judgedBy judge) members goals) :=
  (mirrors_enter _).seq fun _ => mirrors_onScene (Individual.mirrors_rankAndCrowd h hgoals members)

end Measuring

end SearchM

end GoalSearch
