import GoalSearch.Proofs.Crowding
import GoalSearch.Proofs.Dependency
import GoalSearch.Proofs.Search.Breeding
import GoalSearch.Proofs.Search.Reports
import GoalSearch.Search.Evolution

/-!
# Generations keep track

Between two generations a tracked search is `Settled`: the population consists of distinct evaluated individuals and
nothing is owned. The first population settles a search and so does every `Generation` (`Settled.wp_initialise`,
`Audited.wp_advance`): offspring are bred for the active goals, and survivors of the union of parents and offspring
are the next population. To read the fitness of evaluated individuals is to ask nobody, so the offspring are what a
generation adds to the accounts. The batches handed to the archive on the way change nothing (`Tracked.wp_renew`
together with `Tracked.run_updateArchive`).
-/

namespace GoalSearch

variable {σ ω : Type}

theorem Individual.Evaluated.mono {x : Individual σ} {goals active : List Goal} (h : x.Evaluated goals)
    (hactive : active ⊆ goals) : x.Evaluated active :=
  ⟨h.testCase, h.nonempty, fun hne => h.unchanged fun hnil => hne (List.subset_nil.1 (hnil ▸ hactive)),
    fun g hg => h.known g (hactive hg)⟩

/-! ### Goals, ranking and selection -/

namespace Audited
variable {contract : Contract σ} {start s : Search σ ω} {goals active : List Goal} {n : Nat}
  {population kept own made members : List Nat} {setup : Setup σ ω} {subject : Subject σ ω}

theorem wp_gatherDependencies {E : Fault → Search σ ω → Prop}
    (h : Audited subject contract start goals n population kept own made s) :
    wp (SearchM.gatherDependencies setup)
      (fun _ => Audited subject contract start goals n population kept own made) E s := by
  unfold SearchM.gatherDependencies
  split
  · exact h
  · rw [wp_bind, wp_get]
    exact wp_seq h.wp_logs fun _ t ht => ht.note

theorem wp_activeGoals (h : Audited subject contract start goals n population kept own made s)
    (hstarted : contract.Started setup s) :
    wp (SearchM.activeGoals setup)
      (fun active t => active ⊆ goals ∧ Audited subject contract start goals n population kept own made t)
      (contract.Fails subject goals start n) s := by
  unfold SearchM.activeGoals
  rw [wp_bind, wp_get]
  split
  · exact ⟨h.uncovered_subset, h⟩
  · rename_i hdynamic hnone
    refine h.fails (hstarted.resolve_right ?_) (.refl _ _) rfl (.refl _ _)
    simp [hdynamic, hnone]
  · rename_i d _ _
    have hsub := d.independent_subset setup.subject.parentOf s.archive.uncovered
    dsimp only
    split
    · rw [wp_bind, SearchM.wp_log, wp_bind]
      exact ⟨List.Subset.trans hsub h.uncovered_subset, (h.log _).log _⟩
    · rw [wp_bind]
      exact ⟨List.Subset.trans hsub h.uncovered_subset, h.log _⟩

/-- Ranking evaluated individuals puts every member into one front, asks no evaluator and cannot fail. -/
theorem wp_computeDominance {E : Fault → Search σ ω → Prop}
    (h : Audited subject contract start goals n population kept own made s) (hmembers : members ⊆ kept)
    (hactive : active ⊆ goals) :
    wp (SearchM.computeDominance subject members active)
      (fun fronts t => fronts.flatten.Perm members ∧
        Audited subject contract start goals n population kept own made t) E s := by
  unfold SearchM.computeDominance
  rw [wp_bind, SearchM.wp_enter, SearchM.wp_onScene]
  have hm : ∀ i ∈ members, (s.scene.individual i).Evaluated active := fun i hi =>
    (h.evaluated_of_kept (hmembers hi)).mono hactive
  have hinformed : ∀ i ∈ members, i < s.scene.pool.size ∧ (s.scene.individual i).Informed active := fun i hi =>
    ⟨Scene.lt_size_of_isTestCase (hm i hi).testCase, (hm i hi).informed⟩
  refine wp_mono (Scene.wp_rankAndCrowd hinformed) (fun fronts t hpost => ?_) fun _ _ hfalse => hfalse.elim
  obtain ⟨ht, hpeels, -, -⟩ := hpost
  have hquiet : subject.Quiet s.scene.outside t.outside := ht.outside ▸ .refl _ _
  exact ⟨hpeels.flatten_perm, h.note.onScene ht.keeps hquiet⟩

end Audited

namespace Tracked
variable {goals active : List Goal} {n : Nat} {population kept own : List Nat} {s : Search σ ω}
  {setup : Setup σ ω} {subject : Subject σ ω} {members union : List Nat}

/-- Survivors are selected by what is known. -/
theorem run_selectSurvivors (h : Tracked goals n population kept own s) (hunion : union ⊆ kept)
    (hactive : active ⊆ goals) {fronts : List (List Nat)} :
    (SearchM.selectSurvivors setup union fronts active).run s =
      (.ok (Id.run (Survival.survivors s.scene.known (fun i => (s.scene.individual i).distance)
        setup.options.reserveBestPerGoal setup.options.population union fronts active)), s) := by
  have hm : ∀ i ∈ union, (s.scene.individual i).Informed active := fun i hi =>
    ((h.evaluated_of_kept (hunion hi)).mono hactive).informed
  refine run_eq_of_wp ?_
  unfold SearchM.selectSurvivors
  rw [SearchM.wp_onScene, wp_of_run_eq (Scene.run_survivors hm)]
  exact ⟨rfl, rfl⟩

end Tracked

/-- One generation on the way from `s` to `t`: offspring are bred for the active goals, and the population of `t` are
the survivors. -/
structure Generation (goals : List Goal) (n : Nat) (setup : Setup σ ω) (active : List Goal) (offspring : List Nat)
    (s t : Search σ ω) : Prop where
  active_subset : active ⊆ goals
  bred : ∃ s₁ s₂, (SearchM.activeGoals setup).run s = (.ok active, s₁) ∧
    (SearchM.breed setup).run s₁ = (.ok offspring, s₂)
  selected : ∃ fronts, fronts.flatten.Perm (s.population ++ offspring) ∧
    t.population = Id.run (Survival.survivors t.scene.known (fun i => (t.scene.individual i).distance)
      setup.options.reserveBestPerGoal setup.options.population (s.population ++ offspring) fronts active)
  tracked : Tracked goals n t.population (s.population ++ offspring) [] t

section Renewing
variable {contract : Contract σ} {goals : List Goal} {n : Nat} {population made : List Nat} {start s : Search σ ω}
  {setup : Setup σ ω}

/-- A generation renews the population. -/
theorem Audited.wp_renew (hsetup : setup.Honours contract) (hstarted : contract.Started setup s)
    (h : Audited setup.subject contract start goals n population population [] made s) :
    wp (SearchM.renew setup)
      (fun union t => ∃ offspring, (union = s.population ++ offspring ∧
        ∃ active, Generation goals n setup active offspring s t) ∧
          Audited setup.subject contract start goals n t.population union [] (made ++ offspring) t)
      (contract.Fails setup.subject goals start n) s := by
  obtain rfl : s.population = population := h.population_eq
  unfold SearchM.renew
  refine wp_seq_run (h.wp_activeGoals hstarted) fun active s₁ hrun hpost => ?_
  obtain ⟨hactive, ht⟩ := hpost
  refine wp_seq_run (ht.wp_breed hsetup (List.Subset.refl _)) fun offspring t hrun' ht => ?_
  rw [wp_bind, wp_get, ht.population_eq, wp_bind, SearchM.wp_log]
  refine wp_seq ((ht.log _).wp_computeDominance (List.Subset.refl _) hactive) fun fronts t hpost => ?_
  obtain ⟨hfronts, ht⟩ := hpost
  rw [wp_bind, SearchM.wp_enter]
  have ht' : Audited setup.subject contract start goals n s.population (s.population ++ offspring) []
      (made ++ offspring) { t with phase := .filling } := ht.note
  rw [wp_bind, wp_of_run_eq (ht'.run_selectSurvivors (List.Subset.refl _) hactive), wp_bind, wp_modify]
  exact ⟨offspring, ⟨rfl, active, hactive, ⟨s₁, _, hrun, hrun'⟩, ⟨fronts, hfronts, rfl⟩, ht'.toTracked.repopulate⟩,
    ht'.repopulate⟩

theorem Tracked.wp_renew (h : Tracked goals n population population [] s) :
    wp (SearchM.renew setup)
      (fun union t => ∃ offspring, (union = s.population ++ offspring ∧
        ∃ active, Generation goals n setup active offspring s t) ∧ Tracked goals n t.population union [] t)
      (fun _ _ => True) s := by
  refine wp_mono ((h.audited (fun _ _ => Contract.fits_none _) setup.subject).wp_renew setup.honours_none
    (Contract.started_none setup s)) ?_ fun _ _ _ => trivial
  rintro union t ⟨offspring, hunion, ht⟩
  exact ⟨offspring, hunion, ht.toTracked⟩

/-- The first population is evaluated; who was in the population before does not matter. -/
theorem Audited.wp_populate (hsetup : setup.Honours contract) (h : Tracked goals n s.population [] [] s)
    (hfits : ∀ e ∈ Event.evaluationsFrom n s.events, contract.Fits e.2.content) :
    wp (SearchM.populate setup)
      (fun members => Audited setup.subject contract s goals n members members [] members)
      (contract.Fails setup.subject goals s n) s := by
  have hnew : Audited setup.subject contract s goals n s.population [] [] []
      { s with phase := .initializing, generation := 0 } := (h.audited hfits setup.subject).note
  have hstart : wp (SearchM.onStart setup.subject)
      (fun _ => Audited setup.subject contract s goals n s.population [] [] []) (contract.Fails setup.subject goals s n)
      { s with phase := .initializing, generation := 0 } := by
    unfold SearchM.onStart SearchM.now
    rw [wp_bind, wp_bind, wp_get, wp_pure]
    refine wp_seq (hnew.wp_signal _) fun _ t ht => ?_
    rw [wp_bind, wp_get]
    exact ht.wp_record rfl
  unfold SearchM.populate
  rw [wp_bind, wp_modify]
  refine wp_seq hstart fun _ t ht => ?_
  refine wp_seq ht.wp_gatherDependencies fun _ t ht => ?_
  refine wp_seq (ht.wp_randomPopulation hsetup) fun members t ht => ?_
  rw [wp_bind, wp_modify]
  exact ht.repopulate

theorem Tracked.wp_populate (h : Tracked goals n s.population [] [] s) :
    wp (SearchM.populate setup) (fun members => Tracked goals n members members []) (fun _ _ => True) s :=
  wp_mono (Audited.wp_populate setup.honours_none h fun _ _ => Contract.fits_none _) (fun _ _ ht => ht.toTracked)
    fun _ _ _ => trivial

end Renewing

/-! ### Between generations -/

/-- The population is distinct and evaluated, and nothing is owned. -/
def Settled (goals : List Goal) (n : Nat) (s : Search σ ω) : Prop :=
  Tracked goals n s.population s.population [] s

section Selected
variable {goals active : List Goal} {n : Nat} {population kept offspring : List Nat} {s t u : Search σ ω}
  {setup : Setup σ ω}

theorem Tracked.settled (h : Tracked goals n population kept [] s) (hsub : population ⊆ kept)
    (hnodup : population.Nodup) : Settled goals n s := by
  unfold Settled
  rw [h.population_eq]
  exact h.mono hsub hnodup (List.Subset.refl _) List.nodup_nil

namespace Generation

/-- What is done behind the selection does not touch it. -/
theorem frame (h : Generation goals n setup active offspring s t) (hpool : u.scene.pool = t.scene.pool)
    (hpopulation : u.population = t.population)
    (hu : Tracked goals n t.population (s.population ++ offspring) [] u) :
    Generation goals n setup active offspring s u where
  active_subset := h.active_subset
  bred := h.bred
  selected := by
    obtain ⟨fronts, hfronts, hselected⟩ := h.selected
    refine ⟨fronts, hfronts, ?_⟩
    rw [hpopulation, hselected, Search.known_of_pool hpool]
    simp only [Search.individual_of_pool hpool]
  tracked := hpopulation ▸ hu

theorem population_subset (h : Generation goals n setup active offspring s t) :
    t.population ⊆ s.population ++ offspring := by
  obtain ⟨fronts, hfronts, hselected⟩ := h.selected
  rw [hselected]
  exact List.Subset.trans Survival.survivors_subset (List.append_subset.2 ⟨List.Subset.refl _, hfronts.subset⟩)

theorem nodup_population (h : Generation goals n setup active offspring s t) : t.population.Nodup := by
  obtain ⟨fronts, hfronts, hselected⟩ := h.selected
  rw [hselected]
  exact Survival.nodup_survivors h.tracked.kept_nodup hfronts

/-- The places are filled as far as there are individuals. -/
theorem length_population (h : Generation goals n setup active offspring s t)
    (hcapacity : 0 ≤ setup.options.population) : (t.population.length : Int) =
      min setup.options.population (s.population.length + offspring.length) := by
  obtain ⟨fronts, hfronts, hselected⟩ := h.selected
  rw [hselected, Survival.length_survivors hcapacity h.tracked.kept_nodup hfronts, List.length_append,
    Int.natCast_add]

theorem settled (h : Generation goals n setup active offspring s t) : Settled goals n t :=
  h.tracked.settled h.population_subset h.nodup_population

end Generation

end Selected

/-- The first population is no larger than it is meant to be. -/
theorem SearchM.wp_newMembers_length {setup : Setup σ ω} {s : Search σ ω} (k : Nat) :
    wp (newMembers setup k) (fun members _ => members.length ≤ k) (fun _ _ => True) s := by
  induction k generalizing s with
  | zero => exact Nat.le_refl 0
  | succ k ih =>
    have hmore : ∀ s, wp (newMembers setup k) (fun members _ => members.length ≤ k + 1) (fun _ _ => True) s :=
      fun s => wp_imp ih fun _ _ h => Nat.le_succ_of_le h
    unfold newMembers
    refine wp_seq wp_any fun r t _ => ?_
    cases r with
    | none => exact hmore t
    | some i =>
      refine wp_seq wp_any fun x t _ => ?_
      split
      · exact wp_seq wp_any fun _ _ _ => hmore _
      · refine wp_seq wp_any fun _ _ _ => wp_seq wp_any fun _ _ _ => wp_seq wp_any fun _ _ _ => ?_
        exact wp_seq ih fun members _ h => Nat.succ_le_succ h

theorem SearchM.wp_populate_length {setup : Setup σ ω} {s : Search σ ω} :
    wp (populate setup) (fun members _ => members.length ≤ setup.options.population.toNat) (fun _ _ => True) s := by
  have hrandom : ∀ s, wp (randomPopulation setup)
      (fun members _ => members.length ≤ setup.options.population.toNat) (fun _ _ => True) s := fun s =>
    wp_seq (wp_newMembers_length _) fun _ _ h => wp_seq wp_any fun _ _ _ => h
  unfold populate
  refine wp_seq wp_any fun _ _ _ => wp_seq wp_any fun _ _ _ => wp_seq wp_any fun _ _ _ => ?_
  exact wp_seq (hrandom _) fun _ _ h => wp_seq wp_any fun _ _ _ => h

section Steps
variable {contract : Contract σ} {goals : List Goal} {n : Nat} {start s : Search σ ω} {made : List Nat}
  {setup : Setup σ ω}

/-- The first population is what the accounts begin with. -/
theorem Audited.wp_initialise (hsetup : setup.Honours contract) (h : Tracked goals n s.population [] [] s)
    (hfits : ∀ e ∈ Event.evaluationsFrom n s.events, contract.Fits e.2.content) :
    wp (SearchM.initialise setup)
      (fun _ t => (∃ members u, (SearchM.populate setup).run s = (.ok members, u) ∧
        members.length ≤ setup.options.population.toNat ∧
        Audited setup.subject contract s goals n members members [] members t) ∧ t.Reported)
      (contract.Fails setup.subject goals s n) s := by
  have hpopulate : wp (SearchM.populate setup)
      (fun members t => (Audited setup.subject contract s goals n members members [] members t ∧
        members.length ≤ setup.options.population.toNat) ∧ contract.Started setup t)
        (contract.Fails setup.subject goals s n) s :=
    wp_mono (wp_and (wp_and (Audited.wp_populate hsetup h hfits) SearchM.wp_populate_length)
      Contract.wp_populate_started) (fun _ _ h => h) fun _ _ h => h.1.1
  unfold SearchM.initialise
  refine wp_seq_run hpopulate fun members u hrun hpost => ?_
  obtain ⟨⟨ht, hlength⟩, hstarted⟩ := hpost
  rw [wp_bind, wp_of_run_eq (ht.run_updateArchive (List.Subset.refl _))]
  refine wp_seq ((ht.log (.archiveCovers u.archive.covered.length)).wp_activeGoals hstarted) fun active t hpost => ?_
  obtain ⟨hactive, ht⟩ := hpost
  refine wp_seq (ht.wp_computeDominance (List.Subset.refl _) hactive) fun _ t hpost => ?_
  obtain ⟨-, ht⟩ := hpost
  rw [wp_bind, wp_of_run_eq ht.run_snapshot]
  refine wp_imp (SearchM.wp_onFirst_reports setup.subject) fun _ v hv => ?_
  exact ⟨⟨members, u, hrun, hlength, ht.reports hv⟩, hv.reported⟩

/-- The first population settles the search. -/
theorem Settled.wp_initialise (h : Tracked goals n s.population [] [] s) :
    wp (SearchM.initialise setup)
      (fun _ t => Settled goals n t ∧ t.population.length ≤ setup.options.population.toNat ∧ t.Reported ∧
        ∃ members u, (SearchM.populate setup).run s = (.ok members, u) ∧ s.Accounts setup.subject goals members t)
      (fun _ _ => True) s := by
  refine wp_mono (Audited.wp_initialise setup.honours_none h fun _ _ => Contract.fits_none _) ?_ fun _ _ _ => trivial
  rintro - t ⟨⟨members, u, hrun, hlength, ht⟩, hreported⟩
  exact ⟨ht.toTracked.settled (List.Subset.refl _) ht.kept_nodup, by rwa [ht.population_eq], hreported, members, u,
    hrun, ht.accounts⟩

/-- A generation adds its offspring to the accounts. -/
theorem Audited.wp_evolve (hsetup : setup.Honours contract) (hstarted : contract.Started setup s)
    (h : Audited setup.subject contract start goals n s.population s.population [] made s) :
    wp (SearchM.evolve setup)
      (fun _ t => ∃ active offspring, Generation goals n setup active offspring s t ∧
        Audited setup.subject contract start goals n t.population (s.population ++ offspring) [] (made ++ offspring) t)
      (contract.Fails setup.subject goals start n) s := by
  unfold SearchM.evolve
  refine wp_seq (h.wp_renew hsetup hstarted) fun union t hpost => ?_
  obtain ⟨offspring, ⟨rfl, active, hgeneration⟩, ht⟩ := hpost
  rw [wp_bind, wp_of_run_eq (ht.run_updateArchive (List.Subset.refl _)), wp_modify]
  have ht' : Audited setup.subject contract start goals n t.population (s.population ++ offspring) []
      (made ++ offspring)
      { t with
        scene := t.scene.logged (.archiveCovers t.archive.covered.length)
        generation := t.generation + 1 } := (ht.log _).note
  exact ⟨active, offspring, hgeneration.frame rfl rfl ht'.toTracked, ht'⟩

theorem Audited.wp_advance (hsetup : setup.Honours contract) (hstarted : contract.Started setup s)
    (h : Audited setup.subject contract start goals n s.population s.population [] made s) :
    wp (SearchM.advance setup)
      (fun _ t => (∃ active offspring, Generation goals n setup active offspring { s with phase := .evolving } t ∧
        Audited setup.subject contract start goals n t.population (s.population ++ offspring) [] (made ++ offspring) t) ∧
        t.Reported) (contract.Fails setup.subject goals start n) s := by
  unfold SearchM.advance
  rw [wp_bind, SearchM.wp_enter]
  have h' : Audited setup.subject contract start goals n s.population s.population [] made
      { s with phase := .evolving } := h.note
  refine wp_seq (h'.wp_evolve hsetup hstarted) fun _ t hpost => ?_
  obtain ⟨active, offspring, hgeneration, ht⟩ := hpost
  rw [wp_bind, wp_get, wp_bind, wp_of_run_eq (Tracked.run_snapshot hgeneration.settled)]
  refine wp_imp SearchM.wp_onIteration_reports fun _ u hu => ?_
  have hu' := ht.reports hu
  rw [← hu.population] at hu'
  exact ⟨⟨active, offspring, hgeneration.frame hu.pool hu.population (hgeneration.tracked.reports hu), hu'⟩, hu.reported⟩

theorem Settled.wp_advance (h : Settled goals n s) :
    wp (SearchM.advance setup)
      (fun _ t => (∃ active offspring, Generation goals n setup active offspring { s with phase := .evolving } t) ∧
        t.Reported) (fun _ _ => True) s := by
  refine wp_mono (Audited.wp_advance setup.honours_none (Contract.started_none setup s)
    (Tracked.audited h (fun _ _ => Contract.fits_none _) setup.subject)) ?_ fun _ _ _ => trivial
  rintro - t ⟨⟨active, offspring, hgeneration, -⟩, hreported⟩
  exact ⟨⟨active, offspring, hgeneration⟩, hreported⟩

end Steps

end GoalSearch
