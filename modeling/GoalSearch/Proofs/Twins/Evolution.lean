import GoalSearch.Proofs.Search.Run
import GoalSearch.Proofs.Twins.Breeding

/-!
# Evolution depends on the active goals alone

Two searches whose known values and evaluators differ at most in positive values of goals that are not active go
through a generation alike (`evolve_of_twin`): they breed the same offspring, rank and crowd them alike, select the
same survivors in the same order, and archive the same individuals, with the same draws.
-/

namespace GoalSearch

variable {σ ω : Type} {sharp : Goal → Prop} {link : Link} {setup : Setup σ ω}
  {judge : Nat → Content σ → ω → Verdict × ω} {strategy : Strategy} {s t : Search σ ω}

/-- The same goals, all of them sharp. -/
def SharpGoals (sharp : Goal → Prop) (goals goals' : List Goal) : Prop := goals = goals' ∧ ∀ g ∈ goals, sharp g

namespace SearchM

theorem mirrors_selectSurvivors (h : setup.subject.Resembles sharp judge) {goals : List Goal}
    (hgoals : ∀ g ∈ goals, sharp g) (union : List Nat) (fronts : List (List Nat)) :
    Mirrors (Search.Twin sharp link) Eq (selectSurvivors setup union fronts goals)
      (selectSurvivors (setup.varied judge strategy) union fronts goals) :=
  mirrors_onScene (Survival.mirrors_survivors (fun g hg i _ => Individual.mirrors_fitness_of_sharp h (hgoals g hg) i)
    Individual.mirrors_distanceOf _ _ fronts)

/-- Where the goals pursued are the same sharp ones, twins are renewed alike. -/
theorem ends_renew (h : setup.subject.Resembles sharp judge)
    (hactive : Ends (Search.Twin sharp link) (SharpGoals sharp) ((activeGoals setup).run s)
      ((activeGoals (setup.varied judge strategy)).run t)) :
    Ends (Search.Twin sharp link) Eq ((renew setup).run s) ((renew (setup.varied judge strategy)).run t) := by
  refine hactive.bind ?_
  rintro goals _ ⟨rfl, hgoals⟩
  refine (mirrors_breed h).seq fun offspring => Mirrors.get.bind fun s t hst => ?_
  rw [hst.population]
  refine (mirrors_log _ _).seq fun _ => (mirrors_computeDominance h hgoals _).seq fun fronts => ?_
  refine (mirrors_enter _).seq fun _ => (mirrors_selectSurvivors h hgoals _ _).seq fun survivors => ?_
  exact (Mirrors.modify fun s t hst => { hst with population := rfl }).seq fun _ => .pure rfl

theorem ends_evolve (h : setup.subject.Resembles sharp judge)
    (hactive : Ends (Search.Twin sharp link) (SharpGoals sharp) ((activeGoals setup).run s)
      ((activeGoals (setup.varied judge strategy)).run t)) :
    Ends (Search.Twin sharp link) Eq ((evolve setup).run s) ((evolve (setup.varied judge strategy)).run t) := by
  refine (ends_renew h hactive).bind ?_
  rintro union _ rfl
  refine (mirrors_updateArchive h union).seq fun _ => .modify fun s t hst => ?_
  exact { hst with generation := congrArg (· + 1) hst.generation }

/-- The choice of active goals asks no evaluator. -/
theorem mirrors_activeGoals : Mirrors (Search.Twin sharp .same) Eq (activeGoals setup)
    (activeGoals (setup.varied judge setup.strategy)) := by
  have hparent : (setup.varied judge setup.strategy).subject.parentOf = setup.subject.parentOf := by
    funext g
    cases g <;> rfl
  refine Mirrors.get.bind fun s t hst => ?_
  rw [hparent, hst.archive, show s.dependencies = t.dependencies from hst.dependencies]
  dsimp only [Setup.varied]
  cases setup.strategy with
  | static => exact .pure rfl
  | dynamic =>
    cases t.dependencies with
    | none => exact .throw _
    | some d =>
      have hlogged (cyclic : Bool) (goals : List Goal) : Mirrors (Search.Twin (σ := σ) (ω := ω) sharp .same) Eq
          (do if cyclic then log (.cyclicGoals goals.length)
              log (.activeGoals goals.length)
              return goals)
          (do if cyclic then log (.cyclicGoals goals.length)
              log (.activeGoals goals.length)
              return goals) := by
        refine .ite Iff.rfl ((mirrors_log _ _).seq fun _ => ?_) ?_
        · exact (mirrors_log _ _).seq fun _ => .pure rfl
        · exact (mirrors_log _ _).seq fun _ => .pure rfl
      exact hlogged _ _

end SearchM

/-- The goals that a generation from here on pursues, if it can start. -/
def Search.pursued (setup : Setup σ ω) (s : Search σ ω) : List Goal :=
  match ((SearchM.activeGoals setup).run s).1 with
  | .ok goals => goals
  | .error _ => []

/-- Take two searches that differ in nothing but known values, and evaluators that differ in nothing but verdicts, where
the values are equal for the goals that the first search pursues in this generation, and equal or both positive for
all others. Then both pursue the same goals, breed the same offspring, and select the same survivors of parents and
offspring in the same order. Behind the generation the searches differ in nothing but known values again: ranks,
distances, archive and surroundings are the same. -/
theorem evolve_of_twin (hjudge : setup.subject.Resembles (· ∈ s.pursued setup) judge)
    (h : s.Twin (· ∈ s.pursued setup) .same t) :
    Ends (Search.Twin (· ∈ s.pursued setup) .same)
      (fun active active' => active = active' ∧ active = s.pursued setup)
      ((SearchM.activeGoals setup).run s) ((SearchM.activeGoals (setup.judgedBy judge)).run t) ∧
    Ends (Search.Twin (· ∈ s.pursued setup) .same) Eq
      ((do let _ ← SearchM.activeGoals setup; SearchM.breed setup).run s)
      ((do let _ ← SearchM.activeGoals (setup.judgedBy judge); SearchM.breed (setup.judgedBy judge)).run t) ∧
    Ends (Search.Twin (· ∈ s.pursued setup) .same) Eq ((SearchM.renew setup).run s)
      ((SearchM.renew (setup.judgedBy judge)).run t) ∧
    Ends (Search.Twin (· ∈ s.pursued setup) .same) Eq ((SearchM.evolve setup).run s)
      ((SearchM.evolve (setup.judgedBy judge)).run t) := by
  have hactive : Ends (Search.Twin (· ∈ s.pursued setup) .same)
      (fun active active' => active = active' ∧ active = s.pursued setup)
      ((SearchM.activeGoals setup).run s) ((SearchM.activeGoals (setup.varied judge setup.strategy)).run t) := by
    obtain ⟨houtcome, hstate⟩ : Ends _ _ ((SearchM.activeGoals setup).run s)
      ((SearchM.activeGoals (setup.varied judge setup.strategy)).run t) := SearchM.mirrors_activeGoals s t h
    refine ⟨?_, hstate⟩
    unfold Search.pursued
    generalize ((SearchM.activeGoals setup).run s).1 = r at houtcome ⊢
    generalize ((SearchM.activeGoals (setup.varied judge setup.strategy)).run t).1 = q at houtcome ⊢
    cases houtcome with
    | ok hab => exact .ok ⟨hab, rfl⟩
    | error e => exact .error e
  have hsharp : Ends (Search.Twin (· ∈ s.pursued setup) .same) (SharpGoals (· ∈ s.pursued setup))
      ((SearchM.activeGoals setup).run s) ((SearchM.activeGoals (setup.varied judge setup.strategy)).run t) :=
    ⟨hactive.outcome.mono fun _ _ hab => ⟨hab.1, fun g hg => hab.2 ▸ hg⟩, hactive.state⟩
  exact ⟨hactive, hactive.bind fun _ _ _ => SearchM.mirrors_breed hjudge, SearchM.ends_renew hjudge hsharp,
    SearchM.ends_evolve hjudge hsharp⟩

/-! ### A small generation -/

/-- The search with one known value replaced. -/
def Search.revalued (s : Search σ ω) (i : Nat) (g : Goal) (v : Float) : Search σ ω :=
  { s with scene := s.scene.modify i fun x => { x with cache := x.cache.insert g v } }

/-- A positive value of a goal that is not sharp may be replaced by another one. -/
theorem Search.twin_revalued {i : Nat} {g : Goal} {u v : Float} (hg : ¬ sharp g)
    (hknown : (s.scene.individual i).cache.get? g = some u) (hu : 0.0 < u) (hv : 0.0 < v)
    (hgrounded : ∀ serial g, sharp (.overSuite serial g) → sharp g) : s.Twin sharp .same (s.revalued i g v) := by
  refine ⟨⟨Scene.size_modify.symm, fun j => ?_, rfl, .inl hgrounded⟩, rfl, rfl, rfl, rfl, rfl, rfl⟩
  show (s.scene.individual j).Twin sharp ((s.scene.modify i _).individual j)
  by_cases hij : i = j
  · subst hij
    by_cases hi : i < s.scene.pool.size
    · rw [Scene.individual_modify_self hi]
      refine .intro _ fun k => ?_
      rw [Cache.get?_insert]
      split
      · rename_i hk
        rw [← hk, hknown]
        exact .some ⟨.inr ⟨hu, hv⟩, fun h => absurd h hg⟩
      · have hself : (s.scene.individual i).Twin sharp (s.scene.individual i) := .refl _
        exact hself.known k
    · rw [Scene.individual_of_le (Nat.le_of_not_lt hi), Scene.individual_of_le (by simpa using hi)]
      exact .refl _
  · rw [Scene.individual_modify_ne hij]
    exact .refl _

namespace Sample

/-- A goal to be long, and behind it a goal to hold a seven, missed by a given distance. -/
def longThenSeven (missed : Number) : Parts where
  goals := #[⟨"long", .sizeBelow (.int 3), none, false⟩, ⟨"seven", .contains (.int 7) missed, some 0, false⟩]
  operators := #[.append (.int 0)]
  factory := .cycle #[.statements [.int 1]] (some 0)

/-- A search that pursues length first. -/
def lengthFirst : Setup Statement World where
  subject := (longThenSeven (.int 1)).subject
  strategy := .dynamic
  options := { population := 2 }
  tournamentSize := 2
  trivial _ := false

/-- The search with its first population. -/
def firstPopulation : Search Statement World := ((SearchM.initialise lengthFirst).run unborn).2

end Sample

theorem Sample.resembles_longThenSeven (hsharp : ¬ sharp (.atom 1)) :
    lengthFirst.subject.Resembles sharp (longThenSeven (.int 2)).evaluate := by
  intro n content w
  match n with
  | 0 => exact ⟨rfl, (Matches.refl _).mono fun u _ h => h ▸ .refl u⟩
  | n + 2 => exact ⟨rfl, (Matches.refl _).mono fun u _ h => h ▸ .refl u⟩
  | 1 =>
    refine ⟨rfl, ?_⟩
    show Matches _ (Fitness.sanitised (Evaluator.evaluate (.contains (.int 7) (.int 1)) _ content))
      (Fitness.sanitised (Evaluator.evaluate (.contains (.int 7) (.int 2)) _ content))
    cases content with
    | sized size => exact .ok (.refl _)
    | suite members => exact .ok (.refl _)
    | testCase statements operator =>
      unfold Evaluator.evaluate
      dsimp only
      split
      · exact .ok (.refl _)
      · exact .ok ⟨.inr (by decide +kernel), fun h => absurd h hsharp⟩

/-- While length is pursued, it makes no difference by how much a test case is said to miss a seven. -/
theorem evolve_of_twin_lengthFirst :
    Sample.firstPopulation.pursued Sample.lengthFirst = [.atom 0] ∧
    ((Sample.firstPopulation.revalued 0 (.atom 1) 9.0).scene.individual 0).knownFitness (.atom 1) = 9.0 ∧
    (Sample.firstPopulation.scene.individual 0).knownFitness (.atom 1) ≠ 9.0 ∧
    Ends (Search.Twin (· ∈ Sample.firstPopulation.pursued Sample.lengthFirst) .same) Eq
      ((SearchM.evolve Sample.lengthFirst).run Sample.firstPopulation)
      ((SearchM.evolve (Sample.lengthFirst.judgedBy (Sample.longThenSeven (.int 2)).evaluate)).run
        (Sample.firstPopulation.revalued 0 (.atom 1) 9.0)) := by
  have hpursued : Sample.firstPopulation.pursued Sample.lengthFirst = [.atom 0] := by decide +kernel
  have hsharp : ¬ Goal.atom 1 ∈ Sample.firstPopulation.pursued Sample.lengthFirst := by rw [hpursued]; decide
  have hknown : (Sample.firstPopulation.scene.individual 0).cache.get? (.atom 1) = some 1.0 := by decide +kernel
  have htwin := Search.twin_revalued (v := 9.0) hsharp hknown (by decide +kernel) (by decide +kernel)
    (by rw [hpursued]; simp)
  exact ⟨hpursued, by decide +kernel, by decide +kernel,
    (evolve_of_twin (Sample.resembles_longThenSeven hsharp) htwin).2.2.2⟩

end GoalSearch
