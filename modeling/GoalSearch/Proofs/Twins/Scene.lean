import GoalSearch.Proofs.Twins.Algorithms
import GoalSearch.Proofs.Twins.Fitness
import GoalSearch.Search.Population

/-!
# Individuals of twin scenes

Making, copying, changing, measuring and ranking individuals keeps scenes twins. Ranking and crowding read the goals
that they are given and no others, so they come to the same fronts and distances where those goals are sharp.
-/

namespace GoalSearch.Individual

variable {σ ω : Type} {sharp : Goal → Prop} {subject : Subject σ ω}
  {judge : Nat → Content σ → ω → Verdict × ω}

/-! ### Notes -/

/-- What is noted about an individual is the same in both scenes, and leaves its content alone. -/
theorem mirrors_note {i : Nat} {f : Individual σ → Individual σ} (hf : ∀ x : Individual σ,
      ∃ changed age rank distance functions, ∀ cache, f { x with cache := cache } =
        ⟨x.content, changed, age, rank, distance, functions, cache⟩) :
    Mirrors (Scene.Twin (ω := ω) sharp) Eq (SceneM.update i f) (SceneM.update i f) := by
  refine SceneM.mirrors_update ?_ ?_
  · rintro x _ ⟨cache, hx⟩
    obtain ⟨changed, age, rank, distance, functions, h⟩ := hf x
    rw [h cache, show f x = _ from h x.cache]
    exact .intro cache hx
  · rintro x ⟨members, hmembers⟩
    obtain ⟨changed, age, rank, distance, functions, h⟩ := hf x
    rw [show f x = _ from h x.cache] at hmembers
    exact ⟨members, hmembers⟩

theorem mirrors_setAge (i : Nat) (generation : Int) :
    Mirrors (Scene.Twin (σ := σ) (ω := ω) sharp) Eq (setAge i generation) (setAge i generation) :=
  mirrors_note fun _ => ⟨_, _, _, _, _, fun _ => rfl⟩

theorem mirrors_setRank (i rank : Nat) :
    Mirrors (Scene.Twin (σ := σ) (ω := ω) sharp) Eq (setRank i rank) (setRank i rank) :=
  mirrors_note fun _ => ⟨_, _, _, _, _, fun _ => rfl⟩

theorem mirrors_setDistance (i : Nat) (d : Float) :
    Mirrors (Scene.Twin (σ := σ) (ω := ω) sharp) Eq (setDistance i d) (setDistance i d) :=
  mirrors_note fun _ => ⟨_, _, _, _, _, fun _ => rfl⟩

theorem mirrors_distanceOf (i : Nat) :
    Mirrors (Scene.Twin (σ := σ) (ω := ω) sharp) Eq (distanceOf i) (distanceOf i) := by
  refine (SceneM.mirrors_individual i).bind ?_
  rintro x _ ⟨cache, -⟩
  exact .pure rfl

/-! ### Making, copying and changing -/

theorem mirrors_addFunction (i : Nat) (g : Goal) :
    Mirrors (Scene.Twin sharp) Eq (addFunction subject i g) (addFunction (subject.judgedBy judge) i g) := by
  have hmaximised : (subject.judgedBy judge).isMaximised g = subject.isMaximised g := by cases g <;> rfl
  unfold addFunction
  rw [hmaximised]
  exact .ite Iff.rfl (.throw _) (mirrors_note fun x => ⟨_, _, _, _, x.functions ++ [g], fun _ => rfl⟩)

theorem mirrors_build (plan : Blueprint σ) :
    Mirrors (Scene.Twin sharp) Eq (build subject plan) (build (subject.judgedBy judge) plan) := by
  refine Mirrors.seq (SceneM.mirrors_add (.refl _) ?_) fun i => ?_
  · rintro ⟨members, h⟩
    cases h
  · exact (Mirrors.forM fun g _ => mirrors_addFunction i g).seq fun _ => .pure rfl

theorem mirrors_cloneWithin (depth i : Nat) :
    Mirrors (Scene.Twin (σ := σ) (ω := ω) sharp) Eq (cloneWithin depth i) (cloneWithin depth i) := by
  induction depth generalizing i with
  | zero => exact .throw _
  | succ depth ih =>
    refine (SceneM.mirrors_individual_grounded i).bind ?_
    rintro x _ ⟨⟨cache, hx⟩, hgrounded⟩
    dsimp only
    split
    · rename_i members hmembers
      refine (Mirrors.mapM_eq fun j _ => ih j).seq fun copies => ?_
      exact SceneM.mirrors_add (.intro cache hx) fun _ => hgrounded ⟨members, hmembers⟩
    · exact SceneM.mirrors_add (.intro cache hx) hgrounded

theorem mirrors_clone (i : Nat) :
    Mirrors (Scene.Twin (σ := σ) (ω := ω) sharp) Eq (clone i) (clone i) := by
  refine Mirrors.seq (fun s t h => ⟨?_, h⟩) fun depth => mirrors_cloneWithin depth i
  exact .ok (congrArg (· + 1) h.size)

theorem mirrors_mutate (i : Nat) :
    Mirrors (Scene.Twin sharp) Eq (mutate subject i) (mutate (subject.judgedBy judge) i) := by
  refine (SceneM.mirrors_individual i).bind ?_
  rintro x _ ⟨cache, -⟩
  dsimp only
  split
  · rename_i statements operator _
    refine Mirrors.seq (SceneM.mirrors_act_same _) fun r => ?_
    refine Mirrors.seq (SceneM.mirrors_update ?_ ?_) fun _ => ?_
    · rintro y _ ⟨cache, hy⟩
      exact .intro cache hy
    · rintro y ⟨members, h⟩
      cases h
    · refine Mirrors.seq (fun s t h => ⟨.refl r.1, h⟩) fun altered => ?_
      exact .ite Iff.rfl (mirrors_note fun _ => ⟨_, _, _, _, _, fun _ => rfl⟩) (.pure rfl)
  · exact .throw _
  · exact .throw _

/-! ### Measuring -/

section Measuring
variable (h : subject.Resembles sharp judge)
include h

theorem mirrors_covers (g : Goal) (i : Nat) :
    Mirrors (Scene.Twin sharp) Eq (covers subject g i) (covers (subject.judgedBy judge) g i) :=
  (mirrors_fitness h g i).bind fun _ _ huv => .pure huv.near.beq_zero

theorem mirrors_fitness_of_sharp {g : Goal} (hg : sharp g) (i : Nat) :
    Mirrors (Scene.Twin sharp) Eq (fitness subject g i) (fitness (subject.judgedBy judge) g i) :=
  (mirrors_fitness h g i).mono fun _ _ huv => huv.sharp hg

variable {goals : List Goal}

theorem mirrors_rankAll (hgoals : ∀ g ∈ goals, sharp g) (members : List Nat) :
    Mirrors (Scene.Twin sharp) Eq (rankAll subject members goals)
      (rankAll (subject.judgedBy judge) members goals) := by
  refine .ite Iff.rfl ((SceneM.mirrors_log _ _).seq fun _ => .pure rfl) ?_
  refine (Ranking.mirrors_fronts (fun g hg i _ => mirrors_fitness_of_sharp h (hgoals g hg) i) mirrors_setRank _ _).seq
    fun fronts => ?_
  exact (SceneM.mirrors_log _ _).seq fun _ => .pure rfl

theorem mirrors_rankAndCrowd (hgoals : ∀ g ∈ goals, sharp g) (members : List Nat) :
    Mirrors (Scene.Twin sharp) Eq (rankAndCrowd subject members goals)
      (rankAndCrowd (subject.judgedBy judge) members goals) := by
  refine (mirrors_rankAll h hgoals members).seq fun fronts => ?_
  refine (Mirrors.forM fun front _ => ?_).seq fun _ => .pure rfl
  exact Crowding.mirrors_assign (fun g hg i _ => mirrors_fitness_of_sharp h (hgoals g hg) i) mirrors_distanceOf
    mirrors_setDistance

end Measuring

end GoalSearch.Individual
