import GoalSearch.Proofs.Archive.Descent
import GoalSearch.Proofs.Nested
import GoalSearch.Proofs.Search.Lasting

/-!
# Nested goals are covered from the roots on

When an individual is evaluated for nested goals, parents come before their goals, and whoever meets a goal meets its
parent. So the parent of a goal is covered when the goal is handed in to the archive, and coverings descend
(`SearchM.wp_evaluate_descends`). All else that a search does hands in nothing new: a `Lasting` property survives it, and
so a whole run, however it ends (`Tracked.wp_generate_lasting`).

At every point of a search for the goals of a forest, the covered goals therefore are covered with all their ancestors,
and the dynamic strategy pursues just the uncovered goals whose ancestors are covered (`upward_of_forest`).
-/

namespace GoalSearch

variable {σ ω : Type} {setup : Setup σ ω} {subject : Subject σ ω} {goals : List Goal}

/-! ### Evaluations -/

/-- The search `t` while the individual `i` with the given content is evaluated, the goals `done` being done: whatever
it meets is covered. -/
structure Descending (subject : Subject σ ω) (goals : List Goal) (i : Nat) (c : Content σ) (done : List Goal)
    (t : Search σ ω) : Prop where
  archive : t.archive.Descends subject.parentOf
  objectives : t.archive.objectives = goals
  inside : i < t.scene.pool.size
  content : (t.scene.individual i).content = c
  unknown : ∀ g ∉ done, (t.scene.individual i).refresh.cache.get? g = none
  met : ∀ g ∈ done, ∃ w v, Fitness.sanitised (subject.verdict g c w) = .ok v ∧
    ((v == 0.0) = true → g ∈ t.archive.coveredGoals)

namespace Descending

variable {i : Nat} {c : Content σ} {done rest : List Goal} {g : Goal} {t : Search σ ω}

/-- A goal that is met has its parent covered. -/
theorem covered_parent (hnests : subject.Nests goals) (h : Descending subject goals i c done t)
    (hsplit : goals = done ++ g :: rest) {w : ω} {v : Float} (hv : Fitness.sanitised (subject.verdict g c w) = .ok v)
    (hzero : (v == 0.0) = true) {p : Goal} (hp : subject.parentOf g = some p) : p ∈ t.archive.coveredGoals := by
  obtain ⟨w', v', hv', hcovered⟩ := h.met p (hnests.parents done g rest hsplit p hp)
  exact hcovered (hnests.inherits g (by simp [hsplit]) p hp c w w' v v' hv hzero hv')

theorem wp_evaluateFor (hnests : setup.subject.Nests goals) (h : Descending setup.subject goals i c done t)
    (hsplit : goals = done ++ g :: rest) {E : Fault → Search σ ω → Prop} :
    wp (SearchM.evaluateFor setup i g) (fun _ => Descending setup.subject goals i c (done ++ [g])) E t := by
  have hg : g ∈ goals := by simp [hsplit]
  have hdone : g ∉ done := by
    have hnodup := h.archive.partitioned.objectives_nodup
    rw [h.objectives, hsplit] at hnodup
    exact fun hmem => (List.nodup_append'.1 hnodup).2.2 hmem (by simp)
  obtain ⟨n, rfl⟩ := hnests.atoms g hg
  unfold SearchM.evaluateFor Individual.covers
  simp only [wp_bind, SearchM.wp_onScene]
  refine wp_mono (wp_fitness_atom_of_unknown h.inside (h.unknown _ hdone)) (fun v u hpost => ?_) fun e u hpost => ?_
  · obtain ⟨⟨hv, -⟩, hu⟩ := hpost
    rw [h.content] at hv
    have hinside : i < u.pool.size := hu.size.symm ▸ h.inside
    have hcontent : (u.individual i).content = c := by
      rw [hu.self, Individual.content_knowing, h.content]
    have hunknown : ∀ k ∉ done ++ [.atom n], (u.individual i).refresh.cache.get? k = none := by
      intro k hk
      rw [List.mem_append, List.mem_singleton, not_or] at hk
      rw [hu.self, Individual.refresh_knowing, Individual.get?_cache_knowing, if_neg (Ne.symm hk.2)]
      exact h.unknown k hk.1
    rw [wp_pure]
    cases hzero : v == 0.0 with
    | false =>
      refine ⟨h.archive, h.objectives, hinside, hcontent, hunknown, ?_⟩
      refine List.forall_mem_append.2 ⟨h.met, List.forall_mem_singleton.2 ⟨_, v, hv, fun hz => ?_⟩⟩
      exact absurd (hzero.symm.trans hz) (by decide)
    | true =>
      rw [if_pos rfl, wp_bind]
      refine SearchM.wp_submit fun log =>
        ⟨?_, Archive.objectives_submit.trans h.objectives, hinside, hcontent, hunknown, ?_⟩
      · exact h.archive.submit fun p hp => h.covered_parent hnests hsplit hv hzero hp
      · refine List.forall_mem_append.2 ⟨fun k hk => ?_, List.forall_mem_singleton.2 ⟨_, v, hv, fun _ => ?_⟩⟩
        · obtain ⟨w, v', hv', hcovered⟩ := h.met k hk
          exact ⟨w, v', hv', fun hz => Archive.coveredGoals_subset_submit (hcovered hz)⟩
        · exact Archive.mem_coveredGoals_submit (h.objectives ▸ hg)
  · obtain ⟨v, hv⟩ := hnests.answers _ hg (t.scene.individual i).content t.scene.outside
    cases hpost.1.1.symm.trans hv

end Descending

namespace Search

/-- What is covered was covered from the roots on. -/
structure Descends (subject : Subject σ ω) (goals : List Goal) (s : Search σ ω) : Prop where
  archive : s.archive.Descends subject.parentOf
  objectives : s.archive.objectives = goals

end Search

/-- Coverings go on to descend when a changed individual is evaluated, which cannot fail. -/
theorem SearchM.wp_evaluate_descends (hnests : setup.subject.Nests goals) {s : Search σ ω}
    (hs : s.Descends setup.subject goals) {i : Nat} (hchanged : (s.scene.individual i).changed = true)
    (hsize : 0 < (s.scene.individual i).size) {E : Fault → Search σ ω → Prop} :
    wp (evaluate setup i) (fun _ t => t.Descends setup.subject goals) E s := by
  have hloop : wp (goals.forM (evaluateFor setup i))
      (fun _ => Descending setup.subject goals i (s.scene.individual i).content goals) E s := by
    refine wp_forM (fun done g rest hsplit t ht => ht.wp_evaluateFor hnests hsplit) ?_
    refine ⟨hs.archive, hs.objectives, Scene.lt_size_of_size_ne_zero hsize.ne', rfl, fun g _ => ?_, by simp⟩
    rw [Individual.cache_refresh hchanged]
    rfl
  unfold evaluate
  rw [wp_bind, wp_get, wp_bind, hs.objectives]
  exact wp_imp hloop fun _ t ht => ⟨ht.archive, ht.objectives⟩

/-! ### Runs for nested goals -/

namespace Search

theorem lasting_descends (hnests : setup.subject.Nests goals) :
    Lasting setup (Descends setup.subject goals) where
  scene _ _ h := ⟨h.archive, h.objectives⟩
  mutated _ _ h := ⟨h.archive, h.objectives⟩
  evaluate _ _ h hchanged hsize := wp_ends.1 (SearchM.wp_evaluate_descends hnests h hchanged hsize)
  note _ _ _ h := ⟨h.archive, h.objectives⟩
  signal _ _ h := ⟨h.archive, h.objectives⟩
  population _ _ h := ⟨h.archive, h.objectives⟩
  record _ _ h := ⟨h.archive, h.objectives⟩

/-- Coverings descend, and the dynamic strategy knows the dependencies among the goals. -/
def Guided (setup : Setup σ ω) (goals : List Goal) (s : Search σ ω) : Prop :=
  s.Descends setup.subject goals ∧
    (setup.strategy = .dynamic → s.dependencies = some (Dependencies.ofGoals setup.subject.parentOf goals).1)

theorem lasting_guided (hnests : setup.subject.Nests goals) : Lasting setup (Guided setup goals) :=
  (lasting_descends hnests).and lasting_dependencies

/-- The goals to be pursued are just the uncovered goals whose ancestors are covered, in the order of the uncovered
goals. There are some as long as any goal is uncovered, and nothing but their number is noted, so they are not all
taken for want of a free one. -/
def PursuesOpen (setup : Setup σ ω) (s : Search σ ω) : Prop :=
  ∃ active, (SearchM.activeGoals setup).run s =
      (.ok active, { s with scene := s.scene.logged (.activeGoals active.length) }) ∧
    active.Sublist s.archive.uncovered ∧
    (∀ g, g ∈ active ↔
      g ∈ s.archive.uncovered ∧ ∀ k, IsAncestor setup.subject.parentOf k g → k ∈ s.archive.coveredGoals) ∧
    (s.archive.uncovered ≠ [] → active ≠ [])

variable {s : Search σ ω}

/-- As coverings descend, no more than the parent of a goal has to be looked at. -/
theorem Descends.isFree_iff (hnests : subject.Nests goals) (h : s.Descends subject goals) {g : Goal}
    (hg : g ∈ s.archive.uncovered) : Dependencies.IsFree subject.parentOf s.archive.uncovered g ↔
      ∀ k, IsAncestor subject.parentOf k g → k ∈ s.archive.coveredGoals := by
  have hpartitioned := h.archive.partitioned
  have hmem : g ∈ goals := h.objectives ▸ hpartitioned.uncovered_subset hg
  constructor
  · intro hfree
    have hparent : ∀ p, subject.parentOf g = some p → p ∈ s.archive.coveredGoals := fun p hp =>
      ((hpartitioned.mem_objectives p).1 (h.objectives ▸ hnests.parents.mem_parent hmem hp)).resolve_right (hfree p hp)
    intro k hk
    cases hk with
    | single hp => exact hparent k hp
    | tail hk hp => exact h.archive.covered.mem_of_isAncestor (hparent _ hp) hk
  · intro hall p hp hopen
    exact hpartitioned.disjoint p (hall p (.single hp)) hopen

theorem Guided.pursuesOpen (hnests : setup.subject.Nests goals) (h : s.Guided setup goals)
    (hdynamic : setup.strategy = .dynamic) : s.PursuesOpen setup := by
  obtain ⟨hs, hdependencies⟩ := h
  have hsub : s.archive.uncovered ⊆ goals := hs.objectives ▸ hs.archive.partitioned.uncovered_subset
  have hfree := Dependencies.exists_free hnests.parents hsub
  refine ⟨_, SearchM.run_activeGoals_dynamic hdynamic (hdependencies hdynamic)
    (Dependencies.independent_ofGoals hsub hs.archive.partitioned.uncovered_nodup hfree), List.filter_sublist,
    fun g => ?_, fun hne => ?_⟩
  · rw [List.mem_filter, decide_eq_true_eq]
    exact and_congr_right fun hg => hs.isFree_iff hnests hg
  · obtain ⟨g, hg, hgfree⟩ := hfree hne
    exact List.ne_nil_of_mem (List.mem_filter.2 ⟨hg, decide_eq_true hgfree⟩)

end Search

section Runs
variable {start s t : Search σ ω}

theorem Search.Descends.wp_populate (hnests : setup.subject.Nests goals) (h : s.Descends setup.subject goals) :
    wp (SearchM.populate setup) (fun _ => Search.Guided setup goals) (fun _ => Search.Guided setup goals) s := by
  refine SearchM.wp_populate_lasting (Search.lasting_guided hnests) fun log =>
    ⟨⟨h.archive, h.objectives⟩, fun hdynamic => ?_⟩
  rw [hdynamic, h.objectives]

theorem Ready.descends (hnests : setup.subject.Nests goals) (hnodup : goals.Nodup) (hs : Ready setup goals start s) :
    s.Descends setup.subject goals := by
  induction hs with
  | new h => exact ⟨h ▸ Archive.descends_ofGoals, h ▸ Distinct.ofList_of_nodup hnodup⟩
  | again hs h ih =>
    have hgenerate := hs.tracked.wp_generate_lasting (Search.lasting_guided hnests) (ih.wp_populate hnests)
    exact ((wp_of_run_eq h).1 (hgenerate _)).1

theorem Boundary.guided (hnests : setup.subject.Nests goals) (hnodup : goals.Nodup)
    (ht : Boundary setup goals start t) : t.Guided setup goals := by
  induction ht with
  | first hs h =>
    have hpopulate := (hs.descends hnests hnodup).wp_populate hnests
    exact (wp_of_run_eq h).1 (hs.tracked.wp_initialise_lasting (Search.lasting_guided hnests) hpopulate)
  | next hs h ih => exact (wp_of_run_eq h).1 (Tracked.wp_advance_lasting (Search.lasting_guided hnests) hs.settled ih)

end Runs

/-- A search for the goals of a forest: at every point of a run, however it ends, the covered goals are covered with all
their ancestors. So in every generation of a run with the dynamic strategy, and behind its first population, the goals
that are pursued are the uncovered goals whose ancestors are all covered. -/
theorem upward_of_forest {υ : Type} {source : RandomSource υ} {v v' : υ} {depth width valueRange : Int}
    {nested : List NestedGoal}
    (hforest : (NestedGoal.forest source depth width valueRange).run v = (.ok nested, v'))
    {setup : Setup Statement ω} (hposes : setup.subject.Poses nested) {start : Search Statement ω} :
    (∀ s, Ready setup (Subject.posed nested) start s →
      (∀ fuel, ((SearchM.generate setup fuel).run s).2.archive.Upward setup.subject.parentOf) ∧
      ∀ members u, (SearchM.populate setup).run s = (.ok members, u) →
        ∃ u', (SearchM.updateArchive setup.subject members).run u = (.ok false, u') ∧
          (setup.strategy = .dynamic → u'.PursuesOpen setup)) ∧
    ∀ t, Boundary setup (Subject.posed nested) start t → t.archive.Upward setup.subject.parentOf ∧
      (setup.strategy = .dynamic → { t with phase := .evolving }.PursuesOpen setup) := by
  have hnests := hposes.nests (post_of_run_eq NestedGoal.wp_forest_planted hforest)
  have hlasting := Search.lasting_guided hnests
  refine ⟨fun s hs => ⟨fun fuel => ?_, fun members u hu => ?_⟩, fun t ht => ?_⟩
  · have hpopulate := (hs.descends hnests Subject.nodup_posed).wp_populate hnests
    exact (wp_ends.1 (hs.tracked.wp_generate_lasting hlasting hpopulate fuel)).1.archive.upward
  · have hpopulate := (hs.descends hnests Subject.nodup_posed).wp_populate hnests
    have htracked := post_of_run_eq (hs.tracked.wp_populate) hu
    have hguided := hlasting.scene u (u.scene.logged (.archiveCovers u.archive.covered.length))
      ((wp_of_run_eq hu).1 hpopulate)
    exact ⟨_, Tracked.run_updateArchive htracked (List.Subset.refl _), hguided.pursuesOpen hnests⟩
  · have hguided := ht.guided hnests Subject.nodup_posed
    exact ⟨hguided.1.archive.upward, (hlasting.note t t.generation .evolving hguided).pursuesOpen hnests⟩

namespace Sample

/-- A target under another one. -/
def oneUnderOne : List NestedGoal := [⟨"1", 1, none, []⟩, ⟨"1.1", 0, some 0, [1]⟩]

def oneUnderOneForest : Benchmark := ⟨oneUnderOne.toArray, ⟨2, ⟨0.0, 0.0, 1.0, 0.0, 2⟩⟩, 2⟩

/-- Test cases that meet the upper target at first, and the lower one when they have grown. -/
def descending : Setup Statement World :=
  { growing with
    subject := { oneUnderOneForest.subject World.surroundings World.random with
      mutate := shortAndLong.subject.mutate
      make := shortAndLong.subject.make } }

end Sample

theorem Sample.poses_oneUnderOne : descending.subject.Poses oneUnderOne where
  evaluate := (oneUnderOneForest.poses World.surroundings World.random).evaluate
  parent := (oneUnderOneForest.poses World.surroundings World.random).parent

/-- The lower target is pursued when the upper one is met, and met after one generation. -/
theorem upward_of_forest_oneUnderOne : ∃ s t,
    Boundary Sample.descending (Subject.posed Sample.oneUnderOne) Sample.unborn s ∧ Advances Sample.descending s t ∧
    s.archive.coveredGoals = [.atom 0] ∧ { s with phase := .evolving }.PursuesOpen Sample.descending ∧
    t.archive.coveredGoals = [.atom 0, .atom 1] ∧ t.archive.Upward Sample.descending.subject.parentOf := by
  have hforest : (NestedGoal.forest Scripted.source 2 1 2).run ⟨#[], #[1, 0], #[], 0, 0, 0⟩ =
      (.ok Sample.oneUnderOne, _) := run_eq_of_toOption (by decide +kernel)
  have hs : Boundary Sample.descending (Subject.posed Sample.oneUnderOne) Sample.unborn _ :=
    .first (.new rfl) (run_eq_of_toOption (by decide +kernel))
  have hadvance : Advances Sample.descending ((SearchM.initialise Sample.descending).run Sample.unborn).2 _ :=
    run_eq_of_toOption (by decide +kernel)
  exact ⟨_, _, hs, hadvance, by decide +kernel,
    ((upward_of_forest hforest Sample.poses_oneUnderOne).2 _ hs).2 rfl, by decide +kernel,
    ((upward_of_forest hforest Sample.poses_oneUnderOne).2 _ (.next hs hadvance)).1⟩

end GoalSearch
