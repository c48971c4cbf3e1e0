import GoalSearch.Proofs.Faithful
import GoalSearch.Proofs.Number.Finite
import GoalSearch.Proofs.Archive.Partition
import GoalSearch.Proofs.Twins.Algorithms
import GoalSearch.Proofs.Variation

/-!
# Guarded readings

A guarded reading gives up if it meets a fitness value that is not a finite number from zero to the worst fitness
(`guarded`). The operations of a search that read fitness values (`Reader`) may be performed with guarded readings as
well (`Reader.perform`). Where the members are `Sound` test cases, for which nothing is known that is out of range, an
operation has the same run with them, so it meets no such value (`Search.Sound.run_guarded`).
-/

namespace GoalSearch

variable {σ ω α β : Type}

/-! ### Regular values -/

namespace Fitness
variable {v : Float}

/-- A finite number from zero to the worst fitness. -/
def isRegular (v : Float) : Bool := Binary64.isFinite v && decide (0.0 ≤ v) && decide (v ≤ worst)

theorem InRange.isRegular (h : InRange v) : isRegular v = true := by
  have hle : v ≤ worst := Binary64.le_of_not_lt h.not_nan (by decide +kernel) h.not_beyond
  unfold Fitness.isRegular
  rw [Binary64.isFinite_of_lt_infinity h.nonneg h.lt_infinity, decide_eq_true h.nonneg, decide_eq_true hle]
  rfl

end Fitness

/-- Reads a fitness value, and gives up with the fault if it is not regular. -/
def guarded (fault : Fault) (subject : Subject σ ω) (g : Goal) (i : Nat) : SceneM σ ω Float := do
  let v ← fitness subject g i
  if Fitness.isRegular v then return v else throw fault

/-! ### Operations that read -/

/-- The operations of a search that read fitness values, by what they come back with. -/
inductive Reader : Type → Type
  /-- Ranks members over goals, and assigns their crowding distances. -/
  | rank (members : List Nat) (goals : List Goal) : Reader (List (List Nat))
  /-- Selects survivors, with reservations if there are to be any. -/
  | select (union : List Nat) (fronts : List (List Nat)) (goals : List Goal) : Reader (List Nat)
  | snapshot : Reader Snapshot
  /-- Offers members to the archive. -/
  | update (members : List Nat) : Reader Bool
  /-- Measures an individual for all goals, and submits it for those that it covers. -/
  | evaluate (i : Nat) : Reader Unit
  /-- Leaves out the members that others dominate over the covered goals. -/
  | front (members : List Nat) : Reader (List Nat)

namespace Reader

/-- The operation as a search performs it. -/
def run (setup : Setup σ ω) : Reader α → SearchM σ ω α
  | rank members goals => SearchM.computeDominance setup.subject members goals
  | select union fronts goals => SearchM.selectSurvivors setup union fronts goals
  | snapshot => SearchM.snapshot setup.subject
  | update members => SearchM.updateArchive setup.subject members
  | evaluate i => SearchM.evaluate setup i
  | front members => SearchM.nonDominated setup.subject members

section Parts
variable (read : Goal → Nat → SceneM σ ω Float)

def rankAll (members : List Nat) (goals : List Goal) : SceneM σ ω (List (List Nat)) := do
  if members.isEmpty then
    SceneM.log .nothingToRank
    return []
  let fronts ← Ranking.rank read goals Individual.setRank members
  SceneM.log (.frontCount fronts.length)
  return fronts

def rankAndCrowd (members : List Nat) (goals : List Goal) : SceneM σ ω (List (List Nat)) := do
  let fronts ← rankAll read members goals
  fronts.forM (Crowding.assign read Individual.distanceOf Individual.setDistance · goals)
  return fronts

def covers (g : Goal) (i : Nat) : SceneM σ ω Bool := do
  return (← read g i) == 0.0

def offer (g : Goal) (i : Nat) : SearchM σ ω Bool := do
  if (← SearchM.onScene (SceneM.individual i)).size = 0 then return false
  if ← SearchM.onScene (covers read g i) then SearchM.submit i g else return false

def evaluateFor (i : Nat) (g : Goal) : SearchM σ ω Unit := do
  if ← SearchM.onScene (covers read g i) then
    let _ ← SearchM.submit i g

def bestFitness (g : Goal) : SearchM σ ω Float := do
  let values ← (← get).population.mapM fun i => SearchM.onScene (read g i)
  return Fitness.least Fitness.worst values

end Parts

/-- The operation, with fitness values read through `read`. -/
def perform (setup : Setup σ ω) (read : Goal → Nat → SceneM σ ω Float) : Reader α → SearchM σ ω α
  | rank members goals => do
    SearchM.enter .ranking
    SearchM.onScene (rankAndCrowd read members goals)
  | select union fronts goals =>
    SearchM.onScene (Survival.survivors read Individual.distanceOf setup.options.reserveBestPerGoal
      setup.options.population union fronts goals)
  | snapshot => do
    let s ← get
    let taken := s.archive.snapshot fun i => (s.scene.individual i).size
    let best ← taken.uncovered.mapM fun g => do return (g, ← bestFitness read g)
    return { taken with best := best }
  | update members => do
    let changes ← (← get).archive.objectives.mapM fun g => members.mapM (offer read g)
    SearchM.log (.archiveCovers (← get).archive.covered.length)
    return changes.any (·.any id)
  | evaluate i => do
    (← get).archive.objectives.forM (evaluateFor read i)
    SearchM.onEvaluation setup.subject i
  | front members => do
    let goals := (← get).archive.coveredGoals
    SearchM.onScene (Ranking.nonDominated read goals [] members)

/-- A search reads fitness values as they are. -/
theorem perform_fitness {setup : Setup σ ω} (r : Reader α) : r.perform setup (fitness setup.subject) = r.run setup := by
  cases r <;> rfl

/-- The goals that the operation is given. -/
def goals : Reader α → List Goal
  | rank _ goals => goals
  | select _ _ goals => goals
  | _ => []

/-- The individuals whose fitness the operation reads. -/
def members (population : List Nat) : Reader α → List Nat
  | rank members _ => members
  | select union _ _ => union
  | snapshot => population
  | update members => members
  | evaluate i => [i]
  | front members => members

end Reader

/-! ### Sound test cases -/

/-- A test case for which no value is known that is out of range. -/
structure Individual.Sound (goals : List Goal) (x : Individual σ) : Prop where
  testCase : x.IsTestCase
  inRange : ∀ g ∈ goals, ∀ v, x.recalled g = some v → Fitness.InRange v

namespace Individual.Sound
variable {goals : List Goal} {x y : Individual σ} {g : Goal} {v : Float}

theorem of_recalled (hx : x.Sound goals) (hcontent : y.content = x.content)
    (hrecalled : ∀ g, y.recalled g = x.recalled g) : y.Sound goals :=
  ⟨hx.testCase.of_content hcontent, fun g hg v hv => hx.inRange g hg v (hrecalled g ▸ hv)⟩

theorem of_bare (hx : x.Sound goals) (h : y.bare = x.bare) : y.Sound goals := by
  obtain ⟨hcontent, hchanged, -, hcache⟩ := bare_eq_iff.1 h
  exact hx.of_recalled hcontent fun _ => recalled_congr hchanged hcache

theorem refresh (hx : x.Sound goals) : x.refresh.Sound goals :=
  hx.of_recalled content_refresh fun _ => recalled_refresh

theorem knowing (hx : x.Sound goals) (hv : Fitness.InRange v) : (x.knowing g v).Sound goals where
  testCase := hx.testCase.of_content content_knowing
  inRange h hh u hu := by
    rw [recalled_knowing] at hu
    split at hu
    · rwa [← Option.some.inj hu]
    · exact hx.inRange h hh u hu

/-- A test case that changed knows nothing. -/
theorem of_changed (hx : x.IsTestCase) (h : x.changed = true) : x.Sound goals :=
  ⟨hx, fun g _ v hv => by rw [recalled_of_changed h] at hv; cases hv⟩

end Individual.Sound

theorem Individual.Evaluated.sound {goals : List Goal} {x : Individual σ} (hx : x.Evaluated goals) : x.Sound goals where
  testCase := hx.testCase
  inRange g hg v hv := by
    obtain ⟨w, hw, hrange⟩ := hx.known g hg
    rw [Individual.cache_of_recalled hv] at hw
    rwa [Option.some.inj hw]

/-! ### Reading on sound members -/

def Scene.Sound (members : List Nat) (goals : List Goal) (s : Scene σ ω) : Prop :=
  ∀ i ∈ members, (s.individual i).Sound goals

section Scenes
variable {subject : Subject σ ω} {members : List Nat} {goals : List Goal} {s t : Scene σ ω} {i : Nat} {g : Goal}

theorem Scene.Sound.of_sets (hs : s.Sound members goals) {x : Individual σ} (ht : s.Sets i x t) (hx : x.Sound goals) :
    t.Sound members goals := by
  intro j hj
  by_cases hji : j = i
  · rw [hji, ht.self]
    exact hx
  · rw [ht.others j hji]
    exact hs j hj

/-- Ranks and distances do not matter. -/
theorem Scene.Sound.modify (hs : s.Sound members goals) {f : Individual σ → Individual σ}
    (hf : ∀ x, (f x).bare = x.bare) : (s.modify i f).Sound members goals := by
  have hkeeps : s.Keeps [] (s.modify i f) := .modify hf
  exact fun j hj => (hs j hj).of_bare (hkeeps.bare j (Scene.lt_size_of_isTestCase (hs j hj).testCase) (by simp))

/-- Reading a member is as good as reading it guarded: what is known is in range, and so is what gets known. -/
theorem mirrors_guarded (fault : Fault) (hg : g ∈ goals) (hi : i ∈ members) :
    Mirrors (Same (Scene.Sound (ω := ω) members goals)) Eq (fitness subject g i) (guarded fault subject g i) := by
  refine .of_same fun s hs => ?_
  have hx := hs i hi
  have hread : wp (fitness subject g i) (fun v t => Fitness.InRange v ∧ t.Sound members goals)
      (fun _ t => t.Sound members goals) s := by
    cases hknown : (s.individual i).recalled g with
    | some v =>
      have hrun : (fitness subject g i).run s = (.ok v, s) :=
        run_fitness_of_known (Individual.changed_of_recalled hknown) (Individual.cache_of_recalled hknown)
      rw [wp_of_run_eq hrun]
      exact ⟨hx.inRange g hg v hknown, hs⟩
    | none =>
      refine wp_mono (wp_fitness_of_unknown (Scene.lt_size_of_isTestCase hx.testCase) hx.testCase hknown) ?_ ?_
      · rintro v t ⟨⟨hv, -⟩, ht⟩
        have hv := Fitness.inRange_of_sanitised hv
        exact ⟨hv, hs.of_sets ht (hx.knowing hv)⟩
      · rintro e t ⟨-, ht⟩
        exact hs.of_sets ht hx.refresh
  unfold guarded
  rw [run_bind]
  rcases hrun : (fitness subject g i).run s with ⟨e | v, t⟩
  · exact ⟨rfl, fault_of_run_eq hread hrun⟩
  · obtain ⟨hv, ht⟩ := post_of_run_eq hread hrun
    dsimp only
    rw [if_pos hv.isRegular]
    exact ⟨rfl, ht⟩

theorem mirrors_setRank (i rank : Nat) : Mirrors (Same (Scene.Sound (σ := σ) (ω := ω) members goals)) Eq
    (Individual.setRank i rank) (Individual.setRank i rank) := .of_keeps fun _ hs => hs.modify fun _ => rfl

theorem mirrors_setDistance (i : Nat) (d : Float) : Mirrors (Same (Scene.Sound (σ := σ) (ω := ω) members goals)) Eq
    (Individual.setDistance i d) (Individual.setDistance i d) := .of_keeps fun _ hs => hs.modify fun _ => rfl

theorem mirrors_distanceOf (i : Nat) : Mirrors (Same (Scene.Sound (σ := σ) (ω := ω) members goals)) Eq
    (Individual.distanceOf i) (Individual.distanceOf i) := .of_keeps fun _ hs => hs

end Scenes

/-! ### Performing operations on sound members -/

namespace Ranking
variable {S ι : Type} [DecidableEq ι] [LT α] [DecidableLT α] {read : Goal → ι → ExceptT Fault (StateM S) α}
  {join : ι → ExceptT Fault (StateM S) Unit} {setRank : ι → Nat → ExceptT Fault (StateM S) Unit} {active : List Goal}
  {front members : List ι} {s : S}

theorem wp_nonDominatedFrom_subset : wp (nonDominatedFrom read active join front members)
    (fun found _ => found ⊆ front ++ members) (fun _ _ => True) s := by
  induction members generalizing front s with
  | nil => exact List.subset_append_left _ _
  | cons x rest ih =>
    unfold nonDominatedFrom
    refine wp_seq wp_any fun beaten t _ => ?_
    cases beaten with
    | none => exact wp_imp ih fun _ _ h => List.Subset.trans h passed_subset
    | some beaten =>
      refine wp_seq wp_any fun _ u _ => wp_imp ih fun _ _ h => List.Subset.trans h ?_
      exact joined_subset filter_joined_subset

/-- Whatever is read, fronts consist of members. -/
theorem wp_fronts_subset {fuel rank : Nat} : wp (fronts read active setRank fuel rank members)
    (fun found _ => ∀ front ∈ found, front ⊆ members) (fun _ _ => True) s := by
  induction fuel generalizing rank members s with
  | zero => exact fun _ => nofun
  | succ fuel ih =>
    unfold fronts
    split
    · exact fun _ => nofun
    · refine wp_seq wp_nonDominatedFrom_subset fun front t hfront => ?_
      refine wp_seq ih fun others u hothers => List.forall_mem_cons.2 ⟨hfront, fun other hother => ?_⟩
      exact List.Subset.trans (hothers other hother) (List.filter_subset_self _)

end Ranking

/-- A search over the goals with sound members. -/
structure Search.Sound (members population : List Nat) (goals : List Goal) (s : Search σ ω) : Prop where
  scene : s.scene.Sound members goals
  population : s.population = population
  objectives : s.archive.objectives = goals
  partitioned : s.archive.Partitioned

namespace Reader

section Steps
variable {members population batch : List Nat} {goals active : List Goal} {g : Goal} {i : Nat}
  {read read' : Goal → Nat → SceneM σ ω Float}

theorem mirrors_onScene {x y : SceneM σ ω α} (h : Mirrors (Same (Scene.Sound members goals)) Eq x y) :
    Mirrors (Same (Search.Sound members population goals)) Eq (SearchM.onScene x) (SearchM.onScene y) := by
  rintro s _ ⟨rfl, hs⟩
  obtain ⟨houtcome, hstate, hscene⟩ := h s.scene s.scene ⟨rfl, hs.scene⟩
  exact ⟨houtcome, congrArg (fun u => { s with scene := u }) hstate, hscene, hs.population, hs.objectives, hs.partitioned⟩

theorem mirrors_log (notice : Notice) : Mirrors (Same (Search.Sound (σ := σ) (ω := ω) members population goals)) Eq
    (SearchM.log notice) (SearchM.log notice) := mirrors_onScene (.of_keeps fun _ hs => hs)

theorem mirrors_submit (i : Nat) (g : Goal) : Mirrors (Same (Search.Sound (σ := σ) (ω := ω) members population goals)) Eq
    (SearchM.submit i g) (SearchM.submit i g) := by
  refine .of_keeps fun s hs => wp_ends.1 (SearchM.wp_submit fun log => ?_)
  exact ⟨hs.scene, hs.population, Archive.objectives_submit.trans hs.objectives, hs.partitioned.submit⟩

variable (h : ∀ g ∈ goals, ∀ i ∈ members, Mirrors (Same (Scene.Sound members goals)) Eq (read g i) (read' g i))
include h

theorem mirrors_rankAndCrowd (hbatch : batch ⊆ members) (hactive : active ⊆ goals) :
    Mirrors (Same (Scene.Sound members goals)) Eq (rankAndCrowd read batch active) (rankAndCrowd read' batch active) := by
  have hread : ∀ g ∈ active, ∀ i ∈ batch, Mirrors (Same (Scene.Sound members goals)) Eq (read g i) (read' g i) :=
    fun g hg i hi => h g (hactive hg) i (hbatch hi)
  have hrank : Mirrors (Same (Scene.Sound members goals)) Eq
      (rankAll read batch active) (rankAll read' batch active) := by
    refine .ite Iff.rfl (.of_keeps fun _ hs => hs) ?_
    refine (Ranking.mirrors_fronts hread mirrors_setRank _ _).seq fun fronts => ?_
    exact .of_keeps fun _ hs => hs
  have hmembers : ∀ s : Scene σ ω,
      wp (rankAll read batch active) (fun fronts _ => ∀ front ∈ fronts, front ⊆ batch) (fun _ _ => True) s := by
    intro s
    unfold rankAll
    split
    · exact fun _ => nofun
    · exact wp_seq Ranking.wp_fronts_subset fun fronts t hfronts => hfronts
  refine hrank.seq_of_wp hmembers fun fronts hfronts => (Mirrors.forM fun front hfront => ?_).seq fun _ => .pure rfl
  exact Crowding.mirrors_assign (fun g hg i hi => hread g hg i (hfronts front hfront hi)) mirrors_distanceOf
    mirrors_setDistance

theorem mirrors_covers (hg : g ∈ goals) (hi : i ∈ members) : Mirrors (Same (Search.Sound members population goals)) Eq
    (SearchM.onScene (covers read g i)) (SearchM.onScene (covers read' g i)) :=
  mirrors_onScene ((h g hg i hi).seq fun _ => .pure rfl)

theorem mirrors_offer (hg : g ∈ goals) (hi : i ∈ members) : Mirrors (Same (Search.Sound members population goals)) Eq
    (offer read g i) (offer read' g i) := by
  refine (mirrors_onScene (.of_keeps (x := SceneM.individual i) fun _ hs => hs)).seq fun x => .ite Iff.rfl (.pure rfl) ?_
  exact (mirrors_covers h hg hi).seq fun _ => .ite Iff.rfl (mirrors_submit i g) (.pure rfl)

theorem mirrors_evaluateFor (hg : g ∈ goals) (hi : i ∈ members) :
    Mirrors (Same (Search.Sound members population goals)) Eq (evaluateFor read i g) (evaluateFor read' i g) :=
  (mirrors_covers h hg hi).seq fun _ => .ite Iff.rfl ((mirrors_submit i g).seq fun _ => .pure rfl) (.pure rfl)

theorem mirrors_bestFitness (hg : g ∈ goals) (hpopulation : population ⊆ members) :
    Mirrors (Same (Search.Sound members population goals)) Eq (bestFitness read g) (bestFitness read' g) := by
  refine Mirrors.get.bind ?_
  rintro s _ ⟨rfl, hs⟩
  rw [hs.population]
  exact (Mirrors.mapM_eq fun i hi => mirrors_onScene (h g hg i (hpopulation hi))).seq fun _ => .pure rfl

/-- An operation that reads members for goals of the search is the same with other readings that do the same there. -/
theorem mirrors_perform {setup : Setup σ ω} (r : Reader α) (hmembers : r.members population ⊆ members)
    (hgoals : r.goals ⊆ goals) : Mirrors (Same (Search.Sound members population goals)) Eq
      (r.perform setup read) (r.perform setup read') := by
  cases r with
  | rank batch active =>
    exact (Mirrors.of_keeps fun _ hs => ⟨hs.scene, hs.population, hs.objectives, hs.partitioned⟩).seq fun _ =>
      mirrors_onScene (mirrors_rankAndCrowd h hmembers hgoals)
  | select union fronts active =>
    exact mirrors_onScene (Survival.mirrors_survivors (fun g hg i hi => h g (hgoals hg) i (hmembers hi))
      mirrors_distanceOf _ _ fronts)
  | snapshot =>
    refine Mirrors.get.bind ?_
    rintro s _ ⟨rfl, hs⟩
    refine (Mirrors.mapM_eq fun g hg => ?_).seq fun _ => .pure rfl
    have hg : g ∈ goals := hs.objectives ▸ hs.partitioned.uncovered_subset hg
    exact (mirrors_bestFitness h hg hmembers).seq fun _ => .pure rfl
  | update batch =>
    refine Mirrors.get.bind ?_
    rintro s _ ⟨rfl, hs⟩
    rw [hs.objectives]
    refine (Mirrors.mapM_eq fun g hg => Mirrors.mapM_eq fun i hi => mirrors_offer h hg (hmembers hi)).seq fun _ => ?_
    refine Mirrors.get.bind ?_
    rintro t _ ⟨rfl, -⟩
    exact (mirrors_log _).seq fun _ => .pure rfl
  | evaluate i =>
    refine Mirrors.get.bind ?_
    rintro s _ ⟨rfl, hs⟩
    rw [hs.objectives]
    refine (Mirrors.forM fun g hg => mirrors_evaluateFor h hg (hmembers (by simp [Reader.members]))).seq fun _ => ?_
    exact .of_keeps fun _ hs => ⟨hs.scene, hs.population, hs.objectives, hs.partitioned⟩
  | front batch =>
    refine Mirrors.get.bind ?_
    rintro s _ ⟨rfl, hs⟩
    have hcovered : s.archive.coveredGoals ⊆ goals := hs.objectives ▸ hs.partitioned.coveredGoals_subset
    exact mirrors_onScene (Ranking.mirrors_nonDominated fun g hg i hi => h g (hcovered hg) i (hmembers hi))

end Steps

end Reader

/-- On sound members an operation has the same run with guarded readings, whatever fault these would give up with. -/
theorem Search.Sound.run_guarded {setup : Setup σ ω} {s : Search σ ω} {goals : List Goal} (r : Reader α)
    (hs : s.Sound (r.members s.population) s.population goals) (hgoals : r.goals ⊆ goals) (fault : Fault) :
    (r.perform setup (guarded fault setup.subject)).run s = (r.run setup).run s := by
  rw [← r.perform_fitness]
  exact (Reader.mirrors_perform (fun _ hg _ hi => mirrors_guarded fault hg hi) r (List.Subset.refl _) hgoals).run_eq hs

end GoalSearch
