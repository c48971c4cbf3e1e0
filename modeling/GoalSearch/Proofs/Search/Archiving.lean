import GoalSearch.Proofs.Search.Tracking

/-!
# The archive of a tracked search

The individuals stored in the archive of a tracked search were evaluated and cover what they are stored for, so
the demand that they do is always met (`Tracked.run_solutions`). Handing in evaluated individuals once more, in
a batch, changes nothing (`Tracked.run_updateArchive`).
-/

namespace GoalSearch

variable {σ ω : Type} {subject : Subject σ ω}

namespace Tracked
variable {goals : List Goal} {n : Nat} {population kept own : List Nat} {s : Search σ ω} {i : Nat} {g : Goal}

/-! ### What is stored -/

/-- For every goal the earliest of the smallest individuals that covered it when they were evaluated. -/
theorem get?_eq (h : Tracked goals n population kept own s) (hg : g ∈ goals) :
    s.archive.get? g =
      (((Event.evaluationsFrom n s.events).filter (·.2.knownToCover g)).argmin (·.2.size)).map (·.1) := by
  rw [h.smallest g, submittedFor_submissions h.goals_nodup hg, Archive.argmin_map]
  congr 1
  exact Archive.argmin_congr fun e he => Individual.size_of_bare (h.evaluated e (List.mem_filter.1 he).1).2.2

theorem mem_coveredGoals (h : Tracked goals n population kept own s) : g ∈ s.archive.coveredGoals ↔
    g ∈ goals ∧ ∃ e ∈ Event.evaluationsFrom n s.events, e.2.knownToCover g = true := by
  rw [h.smallest.mem_coveredGoals, ne_eq, List.eq_nil_iff_forall_not_mem, not_forall_not]
  simp only [Archive.mem_submittedFor, mem_submissions, Prod.exists, exists_and_left]

/-- What is covered stays covered while events are recorded. -/
theorem coveredGoals_subset (h : Tracked goals n population kept own s) {t : Search σ ω}
    {population' kept' own' : List Nat} (ht : Tracked goals n population' kept' own' t)
    (hevents : s.events.toList <+: t.events.toList) : s.archive.coveredGoals ⊆ t.archive.coveredGoals := by
  intro g hg
  obtain ⟨hg, e, he, hcover⟩ := h.mem_coveredGoals.1 hg
  exact ht.mem_coveredGoals.2 ⟨hg, e, Event.evaluationsFrom_subset hevents he, hcover⟩

/-- What an evaluated individual covers is covered. -/
theorem mem_coveredGoals_of_mem (h : Tracked goals n population kept own s) {x : Individual σ}
    (hx : (i, x) ∈ Event.evaluationsFrom n s.events) (hg : g ∈ goals)
    (hcover : (s.scene.individual i).knownToCover g = true) : g ∈ s.archive.coveredGoals := by
  rw [Individual.knownToCover_of_bare (h.evaluated _ hx).2.2] at hcover
  exact h.mem_coveredGoals.2 ⟨hg, _, hx, hcover⟩

/-- A stored individual was evaluated and covers the goal. -/
theorem stored (h : Tracked goals n population kept own s) (hi : s.archive.get? g = some i) :
    g ∈ goals ∧ (∃ x, (i, x) ∈ Event.evaluationsFrom n s.events) ∧ (s.scene.individual i).Evaluated goals ∧
      (s.scene.individual i).knownToCover g = true := by
  obtain ⟨hg, x, hx, hcover⟩ := mem_submissions.1 (h.smallest.mem hi)
  refine ⟨hg, ⟨x, hx⟩, h.evaluated_of_mem hx, ?_⟩
  rw [Individual.knownToCover_of_bare (h.evaluated _ hx).2.2, hcover]

theorem stored_of_mem (h : Tracked goals n population kept own s) {p : Goal × Nat}
    (hp : p ∈ s.archive.covered) : s.archive.get? p.1 = some p.2 :=
  (Archive.mem_covered_iff h.partitioned.covered_nodup).1 hp

theorem exists_of_mem_solutions (h : Tracked goals n population kept own s) (hi : i ∈ s.archive.solutions) :
    ∃ g, s.archive.get? g = some i := by
  obtain ⟨p, hp, rfl⟩ := List.mem_map.1 (Distinct.mem_ofList.1 hi)
  exact ⟨p.1, h.stored_of_mem hp⟩

theorem evaluated_of_mem_solutions (h : Tracked goals n population kept own s) (hi : i ∈ s.archive.solutions) :
    (s.scene.individual i).Evaluated goals := by
  obtain ⟨g, hg⟩ := h.exists_of_mem_solutions hi
  exact (h.stored hg).2.2.1

theorem run_covers_of_stored (h : Tracked goals n population kept own s) (hi : s.archive.get? g = some i) :
    (Individual.covers subject g i).run s.scene = (.ok true, s.scene) := by
  obtain ⟨hg, -, heval, hcover⟩ := h.stored hi
  rw [heval.run_covers hg, hcover]

theorem run_allCover {scene : Scene σ ω} {l : List (Goal × Nat)}
    (hl : ∀ p ∈ l, (Individual.covers subject p.1 p.2).run scene = (.ok true, scene)) :
    (SearchM.allCover subject l).run scene = (.ok true, scene) := by
  induction l with
  | nil => rfl
  | cons p l ih =>
    unfold SearchM.allCover
    rw [run_bind, hl p (by simp)]
    exact ih fun q hq => hl q (by simp [hq])

/-- The individuals of the archive cover what they are stored for. -/
theorem run_solutions (h : Tracked goals n population kept own s) :
    (SearchM.solutions subject).run s = (.ok s.archive.solutions, s) := by
  refine run_eq_of_wp ?_
  unfold SearchM.solutions
  rw [wp_bind, wp_get, wp_bind, SearchM.wp_onScene,
    wp_of_run_eq (run_allCover fun p hp => h.run_covers_of_stored (h.stored_of_mem hp))]
  exact ⟨rfl, rfl⟩

/-! ### Batches -/

/-- Handing in an evaluated individual once more. -/
theorem run_submit (h : Tracked goals n population kept own s) (hi : i ∈ kept) (hg : g ∈ goals)
    (hcover : (s.scene.individual i).knownToCover g = true) :
    (SearchM.submit i g).run s = (.ok false, s) := by
  obtain ⟨x, hx⟩ := h.of_kept i hi
  rw [Individual.knownToCover_of_bare (h.evaluated _ hx).2.2] at hcover
  have hmem : i ∈ Archive.submittedFor g (submissions goals (Event.evaluationsFrom n s.events)) :=
    Archive.mem_submittedFor.2 (mem_submissions.2 ⟨hg, x, hx, hcover⟩)
  obtain ⟨y, hy⟩ : ∃ y, s.archive.get? g = some y := by
    rw [← Option.isSome_iff_exists, Archive.isSome_get?_iff, h.smallest.mem_coveredGoals]
    exact List.ne_nil_of_mem hmem
  have hle : (s.scene.individual y).size ≤ (s.scene.individual i).size := by
    rw [h.smallest g] at hy
    exact List.le_of_mem_argmin (f := fun i => (s.scene.individual i).size) hmem hy
  have hkept : s.archive.submit (fun j => (s.scene.individual j).size) i g = (s.archive, .kept) := by
    unfold Archive.submit
    rw [h.objectives, ite_eq_right_iff.2 fun hn => absurd hg hn, hy]
    simp [hle]
  refine run_eq_of_wp ?_
  unfold SearchM.submit
  rw [wp_bind, wp_get, hkept]
  exact ⟨rfl, rfl⟩

theorem run_offer (h : Tracked goals n population kept own s) (hi : i ∈ kept) (hg : g ∈ goals) :
    (SearchM.offer subject g i).run s = (.ok false, s) := by
  have heval := h.evaluated_of_kept hi
  refine run_eq_of_wp ?_
  unfold SearchM.offer
  rw [wp_bind, SearchM.wp_onScene, SceneM.wp_individual, wp_ite,
    ite_eq_right_iff.2 fun h0 => absurd h0 heval.nonempty.ne']
  rw [wp_bind, SearchM.wp_onScene, wp_of_run_eq (heval.run_covers hg)]
  split
  · rename_i hcover
    exact (wp_of_run_eq (h.run_submit hi hg hcover)).2 ⟨rfl, rfl⟩
  · exact ⟨rfl, rfl⟩

/-- A batch of individuals that are evaluated already changes nothing; it is only reported. -/
theorem run_updateArchive (h : Tracked goals n population kept own s) {batch : List Nat}
    (hbatch : batch ⊆ kept) :
    (SearchM.updateArchive subject batch).run s =
      (.ok false, { s with scene := s.scene.logged (.archiveCovers s.archive.covered.length) }) := by
  have hoffer : ∀ g ∈ s.archive.objectives, ∀ i ∈ batch, Yields (· = s) (SearchM.offer subject g i) false :=
    fun g hg i hi => .of_run_eq (h.run_offer (hbatch hi) (h.objectives ▸ hg))
  have hloop := (Yields.mapM fun g hg => Yields.mapM (hoffer g hg)).run_eq
  refine run_eq_of_wp ?_
  unfold SearchM.updateArchive
  rw [wp_bind, wp_get, wp_bind, wp_of_run_eq hloop]
  refine ⟨?_, rfl⟩
  simp

end Tracked

end GoalSearch
