import GoalSearch.Proofs.Search.Run
import GoalSearch.Proofs.Tournament

/-!
# Tournaments of a run

The tournaments of a generation are those for which its pairs are bred (`Selects`). Ranks and distances are told at the
end of the first population and of each generation, to all from whom the next population is taken, so at every boundary
of a run the population is placed (`Boundary.placed`). Whatever is copied, made, mutated and evaluated while pairs are
bred leaves it so (`Search.Choosing.keeps_breedPair`). Hence nobody without a rank takes part in a tournament, and the
earliest of the best candidates wins (`tournament_decides`).
-/

namespace GoalSearch

variable {σ ω : Type} {setup : Setup σ ω} {goals : List Goal} {start s t u : Search σ ω} {scene scene' : Scene σ ω}
  {i n : Nat}

namespace SearchM

/-- One pair is bred: two parents are chosen, and each has an offspring. -/
def breedPair (setup : Setup σ ω) (choose : SearchM σ ω Nat) : SearchM σ ω (List Nat) := do
  let parent₁ ← choose
  let parent₂ ← choose
  let offspring₁ ← onScene (Individual.clone parent₁)
  let offspring₂ ← onScene (Individual.clone parent₂)
  let kept₁ ← breedFrom setup parent₁ offspring₁
  let kept₂ ← breedFrom setup parent₂ offspring₂
  return kept₁ ++ kept₂

/-- Breeds as `breedPairs` does, but the parents are chosen in some other way. -/
def breedPairsBy (setup : Setup σ ω) (choose : SearchM σ ω Nat) : Nat → SearchM σ ω (List Nat)
  | 0 => return []
  | k + 1 => do
    if ← resourcesLeft setup.subject then
      return (← breedPair setup choose) ++ (← breedPairsBy setup choose k)
    else
      log .budgetUsedUp
      return []

theorem breedPairsBy_selectParent (k : Nat) : breedPairsBy setup (selectParent setup) k = breedPairs setup k := by
  induction k with
  | zero => rfl
  | succ k ih => simp only [breedPairsBy, breedPairs, breedPair, ih, bind_assoc, pure_bind]

/-- Chooses a parent as `selectParent` does, but gives up if somebody in the population has no rank, or a NaN for a
distance. -/
def selectRanked (setup : Setup σ ω) (fault : Fault) : SearchM σ ω Nat := do
  let s ← get
  if s.population.all fun i => 0 ≤ (s.scene.individual i).rank && !Binary64.isNaN (s.scene.individual i).distance then
    selectParent setup
  else throw fault

end SearchM

/-- Of the generation that begins at `t` so many pairs are bred, and the search is in `u`. -/
inductive Pairs (setup : Setup σ ω) (t : Search σ ω) : Nat → Search σ ω → Prop
  | none {active : List Goal} {u : Search σ ω}
      (hactive : (SearchM.activeGoals setup).run { t with phase := .evolving } = (.ok active, u))
      (hpopulation : u.population ≠ []) : Pairs setup t 0 u
  | next {n : Nat} {kept : List Nat} {u v : Search σ ω} (h : Pairs setup t n u)
      (hleft : resourcesLeft (setup.subject.now u.scene.outside) u.conditions = true)
      (hpair : (SearchM.breedPair setup (SearchM.selectParent setup)).run u = (.ok kept, v)) : Pairs setup t (n + 1) v

/-- In the generation that begins at `t` a tournament takes place in `u`. -/
inductive Selects (setup : Setup σ ω) (t : Search σ ω) : Search σ ω → Prop
  | first {n : Nat} {u : Search σ ω} (h : Pairs setup t n u) (hn : n < (Int.fdiv setup.options.population 2).toNat)
      (hleft : resourcesLeft (setup.subject.now u.scene.outside) u.conditions = true) : Selects setup t u
  | second {n parent : Nat} {u v : Search σ ω} (h : Pairs setup t n u)
      (hn : n < (Int.fdiv setup.options.population 2).toNat)
      (hleft : resourcesLeft (setup.subject.now u.scene.outside) u.conditions = true)
      (hparent : (SearchM.selectParent setup).run u = (.ok parent, v)) : Selects setup t v

/-! ### Placed individuals -/

/-- The individual is in the pool, it has a rank, and its distance is a number. -/
structure Scene.Placed (scene : Scene σ ω) (i : Nat) : Prop where
  inPool : i < scene.pool.size
  rank : 0 ≤ (scene.individual i).rank
  distance : ¬ Binary64.isNaN (scene.individual i).distance = true

/-- All members of the population are placed. -/
def Search.Placed (s : Search σ ω) : Prop := ∀ i ∈ s.population, s.scene.Placed i

namespace Scene.Placed

theorem ages (h : scene.Placed i) {generation : Int} (hages : scene.Ages generation scene') : scene'.Placed i where
  inPool := Nat.lt_of_lt_of_le h.inPool hages.size_le
  rank := by
    rw [hages.rank i h.inPool]
    exact h.rank
  distance := by
    rw [hages.distance i h.inPool]
    exact h.distance

theorem learns (h : scene.Placed i) (hlearns : scene.Learns scene') : scene'.Placed i := by
  have hages : scene.Ages 0 scene' := .of_learns hlearns
  exact h.ages hages

theorem of_pool (h : scene.Placed i) (hpool : scene'.pool = scene.pool) : scene'.Placed i :=
  h.learns (.of_pool hpool)

end Scene.Placed

/-- Ranking and crowding place whom they are told to. -/
theorem Audited.wp_computeDominance_placed {contract : Contract σ} {active : List Goal}
    {population kept own made members : List Nat}
    (h : Audited setup.subject contract start goals n population kept own made s) (hmembers : members ⊆ kept)
    (hactive : active ⊆ goals) :
    wp (SearchM.computeDominance setup.subject members active) (fun _ t => ∀ i ∈ members, t.scene.Placed i)
      (fun _ _ => False) s := by
  unfold SearchM.computeDominance
  rw [wp_bind, SearchM.wp_enter, SearchM.wp_onScene]
  have hm : ∀ i ∈ members, (s.scene.individual i).Evaluated active := fun i hi =>
    (h.evaluated_of_kept (hmembers hi)).mono hactive
  have hsize : ∀ i ∈ members, i < s.scene.pool.size := fun i hi => Scene.lt_size_of_isTestCase (hm i hi).testCase
  refine wp_imp (Scene.wp_rankAndCrowd fun i hi => ⟨hsize i hi, (hm i hi).informed⟩) fun fronts t hpost i hi => ?_
  obtain ⟨ht, hpeels, hranks, hdistances⟩ := hpost
  obtain ⟨k, front, hk, hi'⟩ := hpeels.exists_front hi
  exact {
    inPool := Nat.lt_of_lt_of_le (hsize i hi) ht.keeps.size_le
    rank := by
      rw [hranks k front hk i hi']
      exact Int.natCast_nonneg k
    distance := (Binary64.not_nan_of_le (hdistances i hi)).2 }

/-! ### Boundaries -/

/-- The first population is placed. -/
theorem Tracked.wp_initialise_placed (h : Tracked goals n s.population [] [] s) :
    wp (SearchM.initialise setup) (fun _ => Search.Placed) (fun _ _ => True) s := by
  unfold SearchM.initialise
  refine wp_seq h.wp_populate fun members t ht => ?_
  rw [wp_bind, wp_of_run_eq (ht.run_updateArchive (List.Subset.refl _))]
  have ht := (ht.audited (fun _ _ => Contract.fits_none _) setup.subject).log (.archiveCovers t.archive.covered.length)
  refine wp_seq (wp_unfailing (ht.wp_activeGoals (Contract.started_none setup _))) fun active t hpost => ?_
  obtain ⟨hactive, ht⟩ := hpost
  refine wp_seq (wp_unfailing (wp_and (ht.wp_computeDominance (E := fun _ _ => False) (List.Subset.refl _) hactive)
    (ht.wp_computeDominance_placed (List.Subset.refl _) hactive))) fun fronts t hpost => ?_
  obtain ⟨⟨-, ht⟩, hplaced⟩ := hpost
  rw [wp_bind, wp_of_run_eq ht.run_snapshot]
  refine wp_imp (SearchM.wp_onFirst_reports setup.subject) fun _ u hu i hi => ?_
  rw [hu.population, ht.population_eq] at hi
  exact (hplaced i hi).of_pool hu.pool

namespace Settled

/-- Survivors come from those who were just placed. -/
theorem wp_renew_placed (h : Settled goals n s) :
    wp (SearchM.renew setup) (fun _ => Search.Placed) (fun _ _ => True) s := by
  have h := Tracked.audited h (fun _ _ => Contract.fits_none _) setup.subject
  unfold SearchM.renew
  refine wp_seq (wp_unfailing (h.wp_activeGoals (Contract.started_none setup _))) fun active t hpost => ?_
  obtain ⟨hactive, ht⟩ := hpost
  refine wp_seq (wp_unfailing (ht.wp_breed setup.honours_none (List.Subset.refl _))) fun offspring t ht => ?_
  rw [wp_bind, wp_get, ht.population_eq, wp_bind, SearchM.wp_log]
  have ht := ht.log (.unionSize (s.population ++ offspring).length)
  refine wp_seq (wp_unfailing (wp_and (ht.wp_computeDominance (E := fun _ _ => False) (List.Subset.refl _) hactive)
    (ht.wp_computeDominance_placed (List.Subset.refl _) hactive))) fun fronts t hpost => ?_
  obtain ⟨⟨hfronts, ht⟩, hplaced⟩ := hpost
  have ht' : Tracked goals n s.population (s.population ++ offspring) [] { t with phase := .filling } :=
    ht.toTracked.note
  rw [wp_bind, SearchM.wp_enter, wp_bind, wp_of_run_eq (ht'.run_selectSurvivors (List.Subset.refl _) hactive), wp_bind,
    wp_modify]
  intro i hi
  refine hplaced i ?_
  rcases List.mem_append.1 (Survival.survivors_subset hi) with hi | hi
  · exact hi
  · exact hfronts.subset hi

theorem wp_evolve_placed (h : Settled goals n s) :
    wp (SearchM.evolve setup) (fun _ => Search.Placed) (fun _ _ => True) s := by
  unfold SearchM.evolve
  refine wp_seq (wp_unfailing (wp_and (Tracked.wp_renew h) h.wp_renew_placed)) fun union t hpost => ?_
  obtain ⟨⟨offspring, -, ht⟩, hplaced⟩ := hpost
  rw [wp_bind, wp_of_run_eq (ht.run_updateArchive (List.Subset.refl _)), wp_modify]
  exact fun i hi => (hplaced i hi).of_pool rfl

theorem wp_advance_placed (h : Settled goals n s) :
    wp (SearchM.advance setup) (fun _ => Search.Placed) (fun _ _ => True) s := by
  have h' : Settled goals n { s with phase := .evolving } := Tracked.note h
  have haudited := Tracked.audited h' (fun _ _ => Contract.fits_none _) setup.subject
  unfold SearchM.advance
  rw [wp_bind, SearchM.wp_enter]
  refine wp_seq (wp_unfailing (wp_and (haudited.wp_evolve setup.honours_none (Contract.started_none setup _))
    h'.wp_evolve_placed)) fun _ t hpost => ?_
  obtain ⟨⟨active, offspring, hgeneration, -⟩, hplaced⟩ := hpost
  rw [wp_bind, wp_get, wp_bind, wp_of_run_eq (Tracked.run_snapshot hgeneration.settled)]
  refine wp_imp SearchM.wp_onIteration_reports fun _ u hu i hi => ?_
  rw [hu.population] at hi
  exact (hplaced i hi).of_pool hu.pool

end Settled

theorem Boundary.placed (h : Boundary setup goals start t) : t.Placed := by
  cases h with
  | first hs h =>
    have ht := post_of_run_eq hs.tracked.wp_initialise_placed h
    exact ht
  | next hs h =>
    have ht := post_of_run_eq hs.settled.wp_advance_placed h
    exact ht

/-! ### Breeding leaves the population placed -/

theorem Search.growing_placed : Growing (Placed (σ := σ) (ω := ω)) where
  scene _ _ hs h i hi := (h i hi).ages hs

/-- There are parents to choose from, and all of them are placed. -/
def Search.Choosing (s : Search σ ω) : Prop := s.population ≠ [] ∧ s.Placed

namespace Search.Choosing
open SearchM

theorem rearing : Rearing (Choosing (σ := σ) (ω := ω)) where
  scene s scene hs h := ⟨h.1, growing_placed.scene s scene hs h.2⟩
  mutated _ _ h := h

theorem crediting : Crediting (Choosing (σ := σ) (ω := ω)) where
  scene _ _ hs h := ⟨h.1, fun i hi => (h.2 i hi).learns hs⟩
  submit _ _ _ _ h := h

theorem keeps_evaluate (i : Nat) : Keeps Choosing (evaluate setup i) := by
  have hover : Keeps Choosing (onEvaluation setup.subject i) := by
    refine Keeps.iff_wp.2 fun s hs => ?_
    unfold onEvaluation
    rw [wp_bind, wp_signal, wp_bind, wp_get, wp_bind, wp_record, wp_notice]
    exact ⟨hs.1, fun i hi => (hs.2 i hi).of_pool rfl⟩
  exact .bind .get fun _ => .bind (.forM (keeps_evaluateFor setup crediting i)) fun _ => hover

theorem keeps_retain (i : Nat) : Keeps Choosing (retain setup i) := by
  refine .bind (fun _ hs => hs) fun x => .ite ?_ (.pure _)
  exact .bind (keeps_evaluate i) fun _ => .pure _

theorem keeps_setAge (i : Nat) (generation : Int) :
    Keeps (Choosing (σ := σ) (ω := ω)) (onScene (Individual.setAge i generation)) := by
  intro s hs
  have hages : s.scene.Ages generation (s.scene.modify i fun x => { x with age := generation }) :=
    .modify (fun _ => .inr rfl) fun _ => ⟨rfl, rfl⟩
  exact ⟨hs.1, fun j hj => (hs.2 j hj).ages hages⟩

theorem keeps_breedFrom (parent i : Nat) : Keeps Choosing (breedFrom setup parent i) := by
  unfold breedFrom
  refine .bind .get fun s => .bind (keeps_setAge parent _) fun _ => .bind (keeps_setAge i _) fun _ => ?_
  exact .bind (keeps_times (keeps_mutateOffspring setup rearing i) _) fun _ => keeps_retain i

theorem keeps_breedPair : Keeps Choosing (breedPair setup (selectParent setup)) := by
  have hclone (i : Nat) : Keeps (Choosing (σ := σ) (ω := ω)) (onScene (Individual.clone i)) :=
    keeps_aging rearing.toGrowing fun _ _ => Individual.keeps_clone Scene.Ages.timeless i
  unfold breedPair
  refine .bind (keeps_selectParent setup rearing.toGrowing) fun p₁ => ?_
  refine .bind (keeps_selectParent setup rearing.toGrowing) fun p₂ => ?_
  refine .bind (hclone p₁) fun o₁ => .bind (hclone p₂) fun o₂ => ?_
  exact .bind (keeps_breedFrom p₁ o₁) fun _ => .bind (keeps_breedFrom p₂ o₂) fun _ => .pure _

end Search.Choosing

theorem Pairs.choosing (ht : t.Placed) (h : Pairs setup t n u) : u.Choosing := by
  induction h with
  | none hactive hpopulation =>
    have ht' : Search.Placed { t with phase := .evolving } := ht
    exact ⟨hpopulation, (SearchM.keeps_activeGoals setup Search.growing_placed).of_run_eq ht' hactive⟩
  | next _ _ hpair ih => exact Search.Choosing.keeps_breedPair.of_run_eq ih hpair

theorem Selects.choosing (ht : t.Placed) (h : Selects setup t u) : u.Choosing := by
  cases h with
  | first h _ _ => exact h.choosing ht
  | second h _ _ hparent =>
    exact (SearchM.keeps_selectParent setup Search.Choosing.rearing.toGrowing).of_run_eq (h.choosing ht) hparent

/-! ### Breeding is told by its tournaments -/

/-- In which way parents are chosen does not matter, if it makes no difference where tournaments take place. -/
theorem Pairs.run_breedPairsBy {choose : SearchM σ ω Nat}
    (hchoose : ∀ v, Selects setup t v → choose.run v = (SearchM.selectParent setup).run v) {k : Nat}
    (hk : n + k ≤ (Int.fdiv setup.options.population 2).toNat) (h : Pairs setup t n u) :
    (SearchM.breedPairsBy setup choose k).run u = (SearchM.breedPairs setup k).run u := by
  rw [← SearchM.breedPairsBy_selectParent]
  induction k generalizing n u with
  | zero => rfl
  | succ k ih =>
    have hpair (hleft : resourcesLeft (setup.subject.now u.scene.outside) u.conditions = true) :
        (SearchM.breedPair setup choose).run u = (SearchM.breedPair setup (SearchM.selectParent setup)).run u := by
      unfold SearchM.breedPair
      rw [run_bind, run_bind, hchoose u (.first h (by omega) hleft)]
      rcases hparent : (SearchM.selectParent setup).run u with ⟨e | parent, v⟩
      · rfl
      · dsimp only
        rw [run_bind, run_bind, hchoose v (.second h (by omega) hleft hparent)]
    have hresources : (SearchM.resourcesLeft setup.subject).run u =
        (.ok (resourcesLeft (setup.subject.now u.scene.outside) u.conditions), u) := rfl
    unfold SearchM.breedPairsBy
    rw [run_bind, run_bind, hresources]
    dsimp only
    split
    · rw [run_bind, run_bind, hpair ‹_›]
      rcases hbred : (SearchM.breedPair setup (SearchM.selectParent setup)).run u with ⟨e | kept, v⟩
      · rfl
      · dsimp only
        rw [run_bind, run_bind, ih (by omega) (.next h ‹_› hbred)]
    · rfl

/-! ### Who is chosen -/

/-- Who stands at the place of the population. -/
def Search.member (s : Search σ ω) (k : Nat) : Nat := s.population.getD k 0

theorem Search.member_mem {k : Nat} (hk : k < s.population.length) : s.member k ∈ s.population := by
  have hmember : s.member k = s.population[k] := by simp [member, hk]
  rw [hmember]
  exact List.getElem_mem hk

/-- The tournament of the search that is decided in favour of the place `winner` by what is drawn, until `w`. -/
def Search.Decides (setup : Setup σ ω) (s : Search σ ω) (drawn : List Nat) (winner : Nat) (w : ω) : Prop :=
  Tournament.Decides setup.subject.random (fun k => (s.scene.individual (s.member k)).rank)
    (fun k => (s.scene.individual (s.member k)).distance) s.population.length setup.tournamentSize s.scene.outside drawn
    winner w

/-- A parent is chosen by a tournament of the population. -/
theorem Search.Choosing.exists_decides (h : s.Choosing) (hsize : 0 < setup.tournamentSize) :
    ∃ drawn winner w, s.Decides setup drawn winner w ∧
      (SearchM.selectParent setup).run s =
        (.ok (s.member winner), { s with scene := { s.scene with outside := w } }) := by
  obtain ⟨drawn, winner, w, hrun, hdecides⟩ := Tournament.exists_decides setup.subject.random
    (fun k => (s.scene.individual (s.member k)).rank) s.scene.outside (List.length_pos_iff.2 h.1) hsize fun k hk =>
      (h.2 _ (Search.member_mem hk)).distance
  have hmember : ∀ k, s.population.toArray.getD k 0 = s.member k := fun k => by simp [Search.member]
  refine ⟨drawn, winner, w, hdecides, run_eq_of_wp ?_⟩
  unfold SearchM.selectParent
  rw [wp_bind, wp_get]
  simp only [hmember, List.size_toArray]
  rw [wp_bind, SearchM.wp_onScene, SceneM.wp_draw, wp_of_run_eq hrun]
  exact ⟨rfl, rfl⟩

theorem Search.Choosing.run_selectRanked (h : s.Choosing) (fault : Fault) :
    (SearchM.selectRanked setup fault).run s = (SearchM.selectParent setup).run s := by
  have hall : (s.population.all fun i =>
      0 ≤ (s.scene.individual i).rank && !Binary64.isNaN (s.scene.individual i).distance) = true := by
    refine List.all_eq_true.2 fun i hi => ?_
    simpa using And.intro (h.2 i hi).rank (Bool.eq_false_iff.2 (h.2 i hi).distance)
  unfold SearchM.selectRanked
  rw [run_bind]
  show (if _ then _ else _ : SearchM σ ω Nat).run s = _
  rw [if_pos hall]

/-- Among some candidates whose distances are no NaN a tournament draws as many numbers of candidates as it is large,
whatever the source of the numbers, and the winner is the earliest of the best that were drawn: of those of the smallest
rank one with the largest distance, so that nobody who was drawn beats it. Every tournament of a run is of this kind: it
finds a population that is not empty, and all that it may draw have ranks from zero on and distances that are no NaN. So
to give up wherever somebody has no rank would make no difference to what is bred in a generation. -/
theorem tournament_decides :
    (∀ {ω' : Type} (source : RandomSource ω') (rank : Nat → Int) (distance : Nat → Float) (count size : Nat) (w : ω'),
      0 < count → 0 < size → (∀ k < count, ¬ Binary64.isNaN (distance k) = true) →
      ∃ drawn winner v, (Tournament.index source rank distance count size).run w = (.ok winner, v) ∧
        Tournament.Decides source rank distance count size w drawn winner v) ∧
    (∀ t u, Boundary setup goals start t → Selects setup t u →
      u.population ≠ [] ∧
      (∀ i ∈ u.population, 0 ≤ (u.scene.individual i).rank ∧
        ¬ Binary64.isNaN (u.scene.individual i).distance = true) ∧
      (0 < setup.tournamentSize → ∃ drawn winner w, u.Decides setup drawn winner w ∧
        (∀ k ∈ drawn, u.member k ∈ u.population) ∧
        (SearchM.selectParent setup).run u =
          (.ok (u.member winner), { u with scene := { u.scene with outside := w } }))) ∧
    ∀ t u active fault, Boundary setup goals start t →
      (SearchM.activeGoals setup).run { t with phase := .evolving } = (.ok active, u) → u.population ≠ [] →
      (SearchM.breedPopulation setup).run u =
        (SearchM.breedPairsBy setup (SearchM.selectRanked setup fault)
          (Int.fdiv setup.options.population 2).toNat).run u := by
  refine ⟨fun source rank distance count size w hcount hsize hnan =>
    Tournament.exists_decides source rank w hcount hsize hnan,
    fun t u ht hu => ?_, fun t u active fault ht hactive hu => ?_⟩
  · have hchoosing := hu.choosing ht.placed
    refine ⟨hchoosing.1, fun i hi => ⟨(hchoosing.2 i hi).rank, (hchoosing.2 i hi).distance⟩, fun hsize => ?_⟩
    obtain ⟨drawn, winner, w, hdecides, hrun⟩ := hchoosing.exists_decides hsize
    exact ⟨drawn, winner, w, hdecides, fun k hk => Search.member_mem (hdecides.lt_count k hk), hrun⟩
  · have hpairs : Pairs setup t 0 u := .none hactive hu
    rw [hpairs.run_breedPairsBy (fun v hv => (hv.choosing ht.placed).run_selectRanked fault) (Nat.zero_add _).le]
    unfold SearchM.breedPopulation
    rw [run_bind]
    show (if _ then _ else _ : SearchM σ ω (List Nat)).run u = _
    rw [if_neg (by simpa using hu)]

/-- Of three candidates two are best, and the first of them wins, though it is drawn again. In the first generation of a
run the second parent of a pair is chosen among those who were ranked. -/
theorem tournament_decides_growing :
    (∃ drawn v, drawn.length = 5 ∧ Tournament.Decides Sample.counting (fun k => if k = 0 then 1 else 0)
      (fun k => if k = 0 then 1.0 / 0.0 else 2.5) 3 5 0 drawn 1 v) ∧
    ∃ t u, Boundary Sample.growing [.atom 0, .atom 1] Sample.unborn t ∧ Selects Sample.growing t u ∧
      u.population = [0, 1] ∧ (∀ i ∈ u.population, 0 ≤ (u.scene.individual i).rank) ∧
      ∃ drawn winner w, drawn.length = 2 ∧ u.Decides Sample.growing drawn winner w := by
  constructor
  · obtain ⟨drawn, winner, v, hrun, hdecides⟩ :=
      (@tournament_decides _ _ Sample.growing [] Sample.unborn).1 Sample.counting (fun k => if k = 0 then 1 else 0)
      (fun k => if k = 0 then 1.0 / 0.0 else 2.5) 3 5 0 (by decide) (by decide) (by decide +kernel)
    have hwinner := run_eq_of_toOption (x := Tournament.index Sample.counting (fun k => if k = 0 then 1 else 0)
      (fun k => if k = 0 then (1.0 / 0.0 : Float) else 2.5) 3 5) (s := 0) (a := 1) (by decide +kernel)
    obtain ⟨h, rfl⟩ := Prod.mk.inj (hrun.symm.trans hwinner)
    obtain rfl : winner = 1 := Except.ok.inj h
    exact ⟨drawn, _, hdecides.length_eq, hdecides⟩
  · have ht : Boundary Sample.growing [.atom 0, .atom 1] Sample.unborn _ :=
      .first (.new rfl) (run_eq_of_toOption (by decide +kernel))
    have hactive := run_eq_of_toOption (x := SearchM.activeGoals Sample.growing)
      (s := { ((SearchM.initialise Sample.growing).run Sample.unborn).2 with phase := .evolving })
      (a := [.atom 1]) (by decide +kernel)
    have hparent := run_eq_of_toOption (x := SearchM.selectParent Sample.growing)
      (s := ((SearchM.activeGoals Sample.growing).run
        { ((SearchM.initialise Sample.growing).run Sample.unborn).2 with phase := .evolving }).2)
      (a := 0) (by decide +kernel)
    have hu := Selects.second (.none hactive (by decide +kernel)) (by decide) (by decide +kernel) hparent
    obtain ⟨-, hplaced, hdecides⟩ := tournament_decides.2.1 _ _ ht hu
    obtain ⟨drawn, winner, w, hdecides, -, -⟩ := hdecides (by decide)
    exact ⟨_, _, ht, hu, by decide +kernel, fun i hi => (hplaced i hi).1, drawn, winner, w, hdecides.length_eq,
      hdecides⟩

end GoalSearch
