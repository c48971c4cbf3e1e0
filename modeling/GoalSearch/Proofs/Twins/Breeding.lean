import GoalSearch.Proofs.Twins.Search

/-!
# Twin searches breed alike

Breeding reads ranks and distances, draws, and sees of a fitness only whether it is zero, where it archives what is
covered. So twin searches breed the same offspring from the same parents, whatever goals they pursue.
-/

namespace GoalSearch.SearchM

variable {σ ω : Type} {sharp : Goal → Prop} {link : Link} {setup : Setup σ ω}
  {judge : Nat → Content σ → ω → Verdict × ω} {strategy : Strategy}

theorem mirrors_times {x y : SearchM σ ω Unit} (h : Mirrors (Search.Twin sharp link) Eq x y) (n : Nat) :
    Mirrors (Search.Twin sharp link) Eq (times x n) (times y n) := by
  induction n with
  | zero => exact .pure rfl
  | succ n ih => exact h.seq fun _ => ih

theorem mirrors_setAge (i : Nat) (generation : Int) : Mirrors (Search.Twin (σ := σ) (ω := ω) sharp link) Eq
    (onScene (Individual.setAge i generation)) (onScene (Individual.setAge i generation)) :=
  mirrors_onScene (Individual.mirrors_setAge i generation)

theorem mirrors_draw {α : Type} (x : Draw ω α) : Mirrors (Search.Twin (σ := σ) sharp link) Eq
    (onScene (SceneM.draw x)) (onScene (SceneM.draw x)) :=
  mirrors_onScene (SceneM.mirrors_act_same x)

theorem mirrors_construct :
    Mirrors (Search.Twin sharp link) Eq (construct setup) (construct (setup.varied judge strategy)) := by
  refine (mirrors_onScene (SceneM.mirrors_act_same _)).seq fun made => ?_
  split
  · exact (mirrors_onScene (Individual.mirrors_build _)).seq fun _ => .pure rfl
  · exact (mirrors_log _ _).seq fun _ => .pure rfl
  · exact .throw _

theorem mirrors_mutateOnce (i : Nat) :
    Mirrors (Search.Twin sharp link) Eq (mutateOnce setup i) (mutateOnce (setup.varied judge strategy) i) :=
  (mirrors_onScene (Individual.mirrors_mutate i)).seq fun _ => mirrors_onMutation i

theorem mirrors_mutateOffspring (i : Nat) : Mirrors (Search.Twin sharp link) Eq (mutateOffspring setup i)
    (mutateOffspring (setup.varied judge strategy) i) := by
  refine (mirrors_mutateOnce i).seq fun _ => (mirrors_individual i).bind ?_
  rintro x _ ⟨cache, -⟩
  exact .ite Iff.rfl (mirrors_mutateOnce i) (.pure rfl)

/-- A tournament is won by rank and distance, which twins share. -/
theorem mirrors_selectParent :
    Mirrors (Search.Twin sharp link) Eq (selectParent setup) (selectParent (setup.varied judge strategy)) := by
  refine Mirrors.get.bind fun s t hst => ?_
  have hrank : (fun k => (t.scene.individual (t.population.toArray.getD k 0)).rank) =
      fun k => (s.scene.individual (t.population.toArray.getD k 0)).rank :=
    funext fun k => (hst.scene.individual _).rank_eq
  have hdistance : (fun k => (t.scene.individual (t.population.toArray.getD k 0)).distance) =
      fun k => (s.scene.individual (t.population.toArray.getD k 0)).distance :=
    funext fun k => (hst.scene.individual _).distance_eq
  dsimp only
  rw [hst.population, hrank, hdistance]
  exact (mirrors_draw _).seq fun _ => .pure rfl

theorem mirrors_clone (i : Nat) : Mirrors (Search.Twin (σ := σ) (ω := ω) sharp link) Eq
    (onScene (Individual.clone i)) (onScene (Individual.clone i)) :=
  mirrors_onScene (Individual.mirrors_clone i)

variable (h : setup.subject.Resembles sharp judge)
include h

theorem mirrors_evaluateFor (i : Nat) (g : Goal) :
    Mirrors (Search.Twin sharp link) Eq (evaluateFor setup i g) (evaluateFor (setup.varied judge strategy) i g) :=
  (mirrors_covers h g i).seq fun _ => .ite Iff.rfl ((mirrors_submit i g).seq fun _ => .pure rfl) (.pure rfl)

theorem mirrors_evaluate (i : Nat) :
    Mirrors (Search.Twin sharp link) Eq (evaluate setup i) (evaluate (setup.varied judge strategy) i) := by
  refine Mirrors.get.bind fun s t hst => ?_
  rw [hst.archive]
  exact (Mirrors.forM fun g _ => mirrors_evaluateFor h i g).seq fun _ => mirrors_onEvaluation i

theorem mirrors_retain (i : Nat) :
    Mirrors (Search.Twin sharp link) Eq (retain setup i) (retain (setup.varied judge strategy) i) := by
  refine (mirrors_individual i).bind ?_
  rintro x _ ⟨cache, -⟩
  exact .ite Iff.rfl ((mirrors_evaluate h i).seq fun _ => .pure rfl) (.pure rfl)

theorem mirrors_breedFrom (parent offspring : Nat) : Mirrors (Search.Twin sharp link) Eq
    (breedFrom setup parent offspring) (breedFrom (setup.varied judge strategy) parent offspring) := by
  refine Mirrors.get.bind fun s t hst => ?_
  rw [hst.generation]
  refine (mirrors_setAge parent _).seq fun _ => (mirrors_setAge offspring _).seq fun _ => ?_
  exact (mirrors_times (mirrors_mutateOffspring offspring) _).seq fun _ => mirrors_retain h offspring

theorem mirrors_breedPairs (n : Nat) :
    Mirrors (Search.Twin sharp link) Eq (breedPairs setup n) (breedPairs (setup.varied judge strategy) n) := by
  induction n with
  | zero => exact .pure rfl
  | succ n ih =>
    refine mirrors_resourcesLeft.seq fun left => .ite Iff.rfl ?_ ((mirrors_log _ _).seq fun _ => .pure rfl)
    refine mirrors_selectParent.seq fun parent₁ => mirrors_selectParent.seq fun parent₂ => ?_
    refine (mirrors_clone parent₁).seq fun offspring₁ => (mirrors_clone parent₂).seq fun offspring₂ => ?_
    refine (mirrors_breedFrom h parent₁ offspring₁).seq fun _ => ?_
    exact (mirrors_breedFrom h parent₂ offspring₂).seq fun _ => ih.seq fun _ => .pure rfl

theorem mirrors_revive :
    Mirrors (Search.Twin sharp link) Eq (revive setup) (revive (setup.varied judge strategy)) := by
  refine (mirrors_solutions h).seq fun archived => (mirrors_draw _).seq fun i => (mirrors_clone i).seq fun i => ?_
  exact (mirrors_times (mirrors_mutateOnce i) 2).seq fun _ => .pure rfl

theorem mirrors_newcomer :
    Mirrors (Search.Twin sharp link) Eq (newcomer setup) (newcomer (setup.varied judge strategy)) := by
  refine Mirrors.get.bind fun s t hst => ?_
  rw [hst.archive]
  have hmade : ∀ fresh : Bool, Mirrors (Search.Twin sharp link) Eq
      (if fresh then construct setup else do return some (← revive setup))
      (if fresh then construct (setup.varied judge strategy)
        else do return some (← revive (setup.varied judge strategy))) :=
    fun _ => .ite Iff.rfl mirrors_construct ((mirrors_revive h).seq fun _ => .pure rfl)
  exact .ite Iff.rfl (hmade true) ((mirrors_draw _).seq hmade)

theorem mirrors_inject (n : Nat) :
    Mirrors (Search.Twin sharp link) Eq (inject setup n) (inject (setup.varied judge strategy) n) := by
  induction n with
  | zero => exact .pure rfl
  | succ n ih =>
    refine (mirrors_newcomer h).seq fun made => ?_
    cases made with
    | none => exact ih
    | some i =>
      refine Mirrors.get.bind fun s t hst => ?_
      rw [hst.generation]
      exact (mirrors_setAge i _).seq fun _ => (mirrors_retain h i).seq fun _ => ih.seq fun _ => .pure rfl

theorem mirrors_breedPopulation :
    Mirrors (Search.Twin sharp link) Eq (breedPopulation setup) (breedPopulation (setup.varied judge strategy)) := by
  refine Mirrors.get.bind fun s t hst => ?_
  rw [hst.population]
  exact .ite Iff.rfl (.pure rfl) (mirrors_breedPairs h _)

theorem mirrors_breed :
    Mirrors (Search.Twin sharp link) Eq (breed setup) (breed (setup.varied judge strategy)) := by
  refine (mirrors_breedPopulation h).seq fun bred => (mirrors_onScene (SceneM.mirrors_act_same _)).seq fun n => ?_
  exact (mirrors_inject h n).seq fun _ => (mirrors_log _ _).seq fun _ => .pure rfl

theorem mirrors_newMembers (n : Nat) :
    Mirrors (Search.Twin sharp link) Eq (newMembers setup n) (newMembers (setup.varied judge strategy) n) := by
  induction n with
  | zero => exact .pure rfl
  | succ n ih =>
    refine mirrors_construct.seq fun made => ?_
    cases made with
    | none => exact ih
    | some i =>
      refine (mirrors_individual i).bind ?_
      rintro x _ ⟨cache, -⟩
      refine .ite Iff.rfl ((mirrors_log _ _).seq fun _ => ih) (Mirrors.get.bind fun s t hst => ?_)
      rw [hst.generation]
      exact (mirrors_setAge i _).seq fun _ => (mirrors_evaluate h i).seq fun _ => ih.seq fun _ => .pure rfl

theorem mirrors_randomPopulation : Mirrors (Search.Twin sharp link) Eq (randomPopulation setup)
    (randomPopulation (setup.varied judge strategy)) :=
  (mirrors_newMembers h _).seq fun _ => (mirrors_log _ _).seq fun _ => .pure rfl

end GoalSearch.SearchM
