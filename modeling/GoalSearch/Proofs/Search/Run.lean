import GoalSearch.Proofs.Search.Generation
import GoalSearch.Proofs.Search.Loop
import GoalSearch.Sample.Subject

/-!
# Runs

A run starts with an archive in which nothing is covered (`Ready`), or goes on with the archive of a run that
ended. Its boundaries are the states after the first population and after each generation (`Boundary`). All of
them are settled (`Boundary.settled`), so at every boundary the archive is told by the evaluations alone
(`archive_of_boundary`).
-/

namespace GoalSearch

variable {σ ω : Type}

/-! ### The end of a run -/

namespace Search
variable (s : Search σ ω)

/-- The members that nobody dominates over the covered goals. -/
def front (members : List Nat) : List Nat :=
  Id.run (Ranking.nonDominated s.scene.known s.archive.coveredGoals [] members)

/-- The archived individuals, without the dominated ones if so asked. -/
def archivedSolutions (filtering : Bool) : List Nat :=
  if !s.archive.solutions.isEmpty && filtering then s.front s.archive.solutions else s.archive.solutions

/-- The archived individuals, or the best members of the population if there are none. -/
def finalSolutions (filtering : Bool) : List Nat :=
  if (s.archivedSolutions filtering).isEmpty then s.front s.population else s.archivedSolutions filtering

def finished : Search σ ω :=
  { s with
    phase := .done
    conditions := s.conditions.map (Condition.step .finish)
    events := s.events.push (.finished .done) }

end Search

namespace Settled
variable {goals : List Goal} {n : Nat} {s : Search σ ω} {setup : Setup σ ω}

theorem finished (h : Settled goals n s) : Settled goals n s.finished := by
  have hrecord : wp (SearchM.record (.finished .done)) (fun _ => Tracked goals n s.population s.population [])
      (fun _ _ => False) { s with phase := .done, conditions := s.conditions.map (Condition.step .finish) } :=
    Tracked.wp_record (Tracked.note h) rfl
  exact hrecord

theorem run_front (h : Settled goals n s) {members : List Nat}
    (hm : ∀ i ∈ members, (s.scene.individual i).Evaluated goals) :
    (SearchM.nonDominated setup.subject members).run s = (.ok (s.front members), s) := by
  have hcovered : s.archive.coveredGoals ⊆ goals := h.objectives ▸ h.partitioned.coveredGoals_subset
  refine run_eq_of_wp ?_
  unfold SearchM.nonDominated
  rw [wp_bind, wp_get, SearchM.wp_onScene,
    wp_of_run_eq (Scene.run_nonDominated fun i hi => (hm i hi).mono hcovered)]
  exact ⟨rfl, rfl⟩

theorem run_bestIndividuals (h : Settled goals n s) :
    (SearchM.bestIndividuals setup).run s = (.ok (s.front s.population), s) := by
  unfold SearchM.bestIndividuals
  rw [run_bind]
  exact h.run_front fun i => h.evaluated_of_kept

theorem run_archivedSolutions (h : Settled goals n s) :
    (SearchM.archivedSolutions setup).run s =
      (.ok (s.archivedSolutions setup.options.filterDominatedSolutions), s) := by
  unfold SearchM.archivedSolutions Search.archivedSolutions
  rw [run_bind, h.run_solutions]
  dsimp only
  split
  · exact h.run_front fun i => h.evaluated_of_mem_solutions
  · rfl

theorem run_finalSolutions (h : Settled goals n s) :
    (SearchM.finalSolutions setup).run s =
      (.ok (s.finalSolutions setup.options.filterDominatedSolutions), s) := by
  unfold SearchM.finalSolutions Search.finalSolutions
  rw [run_bind, h.run_archivedSolutions]
  dsimp only
  split
  · exact h.run_bestIndividuals
  · rfl

theorem run_finalise (h : Settled goals n s) :
    (SearchM.finalise setup).run s =
      (.ok ⟨s.finalSolutions setup.options.filterDominatedSolutions,
        goals.map fun g => (g, (s.archive.get? g).isSome), s.generation⟩, s.finished) := by
  unfold SearchM.finalise SearchM.onFinish
  rw [← h.objectives]
  refine run_eq_of_wp ?_
  rw [wp_bind, SearchM.wp_enter, wp_bind, wp_bind, SearchM.wp_signal, wp_bind, wp_get, SearchM.wp_record]
  show wp (SearchM.finalSolutions setup >>= fun _ => _) _ _ s.finished
  rw [wp_bind, wp_of_run_eq h.finished.run_finalSolutions]
  exact ⟨rfl, rfl⟩

theorem front_subset {members : List Nat} : s.front members ⊆ members := Ranking.nonDominated_subset

theorem archivedSolutions_subset {filtering : Bool} : s.archivedSolutions filtering ⊆ s.archive.solutions := by
  unfold Search.archivedSolutions
  split
  · exact front_subset
  · exact List.Subset.refl _

/-- Members of the population and of the archive were evaluated. -/
theorem exists_evaluation (h : Settled goals n s) {i : Nat} (hi : i ∈ s.population ∨ i ∈ s.archive.solutions) :
    ∃ x, (i, x) ∈ Event.evaluationsFrom n s.events := by
  rcases hi with hi | hi
  · exact h.of_kept i hi
  · obtain ⟨g, hg⟩ := h.exists_of_mem_solutions hi
    exact (h.stored hg).2.1

/-- The final solutions were evaluated. -/
theorem exists_of_mem_finalSolutions (h : Settled goals n s) {filtering : Bool} {i : Nat}
    (hi : i ∈ s.finalSolutions filtering) : ∃ x, (i, x) ∈ Event.evaluationsFrom n s.events := by
  unfold Search.finalSolutions at hi
  split at hi
  · exact h.exists_evaluation (.inl (front_subset hi))
  · exact h.exists_evaluation (.inr (archivedSolutions_subset hi))

theorem evaluated_of_mem_finalSolutions (h : Settled goals n s) {filtering : Bool} {i : Nat}
    (hi : i ∈ s.finalSolutions filtering) : (s.scene.individual i).Evaluated goals := by
  obtain ⟨x, hx⟩ := h.exists_of_mem_finalSolutions hi
  exact h.evaluated_of_mem hx

/-- A dominated solution covers nothing that is not covered by those who dominate it. -/
theorem exists_front (h : Settled goals n s) {g : Goal} (hg : g ∈ s.archive.coveredGoals) {i : Nat}
    (hi : i ∈ s.archive.solutions) (hcover : (s.scene.individual i).knownToCover g = true) :
    ∃ j ∈ s.front s.archive.solutions, (s.scene.individual j).knownToCover g = true := by
  have hcovered : s.archive.coveredGoals ⊆ goals := h.objectives ▸ h.partitioned.coveredGoals_subset
  exact Scene.nonDominated_covers (fun j hj => (h.evaluated_of_mem_solutions hj).mono hcovered) hg hi hcover

/-- The archived solutions cover all that is covered. -/
theorem exists_archivedSolution (h : Settled goals n s) {g : Goal} (hg : g ∈ s.archive.coveredGoals)
    (filtering : Bool) : ∃ i ∈ s.archivedSolutions filtering, (s.scene.individual i).knownToCover g = true := by
  obtain ⟨i, hi⟩ := Option.isSome_iff_exists.1 (Archive.isSome_get?_iff.2 hg)
  have hmem : i ∈ s.archive.solutions :=
    Distinct.mem_ofList.2 (List.mem_map.2
      ⟨(g, i), (Archive.mem_covered_iff h.partitioned.covered_nodup).2 hi, rfl⟩)
  have hcover := (h.stored hi).2.2.2
  unfold Search.archivedSolutions
  split
  · exact h.exists_front hg hmem hcover
  · exact ⟨i, hmem, hcover⟩

/-- The final solutions cover exactly what the archive has covered. -/
theorem covers_finalSolutions (h : Settled goals n s) {g : Goal} (hg : g ∈ goals) (filtering : Bool) :
    (∃ i ∈ s.finalSolutions filtering, (s.scene.individual i).knownToCover g = true) ↔
      g ∈ s.archive.coveredGoals := by
  constructor
  · rintro ⟨i, hi, hcover⟩
    obtain ⟨x, hx⟩ := h.exists_of_mem_finalSolutions hi
    exact h.mem_coveredGoals_of_mem hx hg hcover
  · intro hcovered
    obtain ⟨i, hi, hcover⟩ := h.exists_archivedSolution hcovered filtering
    refine ⟨i, ?_, hcover⟩
    unfold Search.finalSolutions
    split
    · rename_i hempty
      rw [List.isEmpty_iff.1 hempty] at hi
      cases hi
    · exact hi

theorem wp_advanceAll (h : Settled goals n s) (fuel : Nat) :
    wp (SearchM.advanceAll setup fuel) (fun _ => Settled goals n) (fun _ _ => True) s := by
  have hstep : ∀ t : Search σ ω, Settled goals n t →
      wp (SearchM.advance setup) (fun _ => Settled goals n) (fun _ _ => True) t := by
    refine fun t ht => wp_imp ht.wp_advance ?_
    rintro - u ⟨⟨_, _, hu⟩, -⟩
    exact hu.settled
  exact wp_imp (SearchM.wp_advanceAll (P := fun _ => Settled goals n) (k := 0) h (fun _ t ht _ => hstep t ht)
    fun _ _ _ => trivial) fun _ _ ⟨_, ht, _⟩ => ht

end Settled

/-! ### Runs and their boundaries -/

variable {setup : Setup σ ω} {goals : List Goal} {start s t : Search σ ω}

/-- A run over the goals may begin in `s`: with the archive new in `start`, and maybe runs in between. -/
inductive Ready (setup : Setup σ ω) (goals : List Goal) (start : Search σ ω) : Search σ ω → Prop
  | new (h : start.archive = .ofGoals goals) : Ready setup goals start start
  | again {s t : Search σ ω} {fuel : Nat} {result : SearchResult} (hs : Ready setup goals start s)
      (h : (SearchM.generate setup fuel).run s = (.ok result, t)) : Ready setup goals start t

/-- The state between two generations of a run, or before the first one. -/
inductive Boundary (setup : Setup σ ω) (goals : List Goal) (start : Search σ ω) : Search σ ω → Prop
  | first {s t : Search σ ω} (hs : Ready setup goals start s)
      (h : (SearchM.initialise setup).run s = (.ok (), t)) : Boundary setup goals start t
  | next {s t : Search σ ω} (hs : Boundary setup goals start s)
      (h : (SearchM.advance setup).run s = (.ok (), t)) : Boundary setup goals start t

theorem Settled.wp_generate {n : Nat} {goals : List Goal} (h : Tracked goals n s.population [] [] s)
    (fuel : Nat) :
    wp (SearchM.generate setup fuel) (fun _ => Settled goals n) (fun _ _ => True) s := by
  unfold SearchM.generate
  refine wp_seq (Settled.wp_initialise h) fun _ t ht => ?_
  refine wp_seq (ht.1.wp_advanceAll fuel) fun _ t ht => ?_
  rw [wp_of_run_eq ht.run_finalise]
  exact ht.finished

theorem Tracked.new (h : start.archive = .ofGoals goals) :
    Tracked (Distinct.ofList goals) start.events.size start.population [] [] start where
  objectives := by rw [h]; rfl
  partitioned := by rw [h]; exact Archive.partitioned_ofGoals goals
  events_le := le_rfl
  evaluated e he := by rw [Event.evaluationsFrom_size] at he; cases he
  smallest := by
    rw [h, Event.evaluationsFrom_size]
    exact Archive.storesSmallest_ofGoals goals
  population_eq := rfl
  of_kept i hi := by cases hi
  kept_nodup := List.nodup_nil
  of_own i hi := by cases hi
  own_nodup := List.nodup_nil

theorem ofList_ne_nil (hgoals : goals ≠ []) : Distinct.ofList goals ≠ [] := by
  obtain ⟨g, hg⟩ := List.exists_mem_of_ne_nil goals hgoals
  exact List.ne_nil_of_mem (Distinct.mem_ofList.2 hg)

theorem Ready.tracked (h : Ready setup goals start s) :
    Tracked (Distinct.ofList goals) start.events.size s.population [] [] s := by
  induction h with
  | new h => exact .new h
  | again _ h ih =>
    have ht := post_of_run_eq (Settled.wp_generate ih _) h
    exact Tracked.mono ht (by simp) List.nodup_nil (List.Subset.refl _) List.nodup_nil

theorem Boundary.settled (h : Boundary setup goals start t) :
    Settled (Distinct.ofList goals) start.events.size t := by
  induction h with
  | first hs h =>
    have ht := post_of_run_eq (Settled.wp_initialise hs.tracked) h
    exact ht.1
  | next _ h ih =>
    obtain ⟨⟨_, _, ht⟩, -⟩ := post_of_run_eq ih.wp_advance h
    exact ht.settled

/-- At every boundary of a run a goal is covered if an individual with fitness zero for it was evaluated since the
archive was new, and the archive stores the earliest of the smallest such individuals, which is not empty and
still covers the goal. So the archive never finds fault with what it stores, and the batches that are handed in
behind the first population and in every generation change nothing. -/
theorem archive_of_boundary :
    (∀ t, Boundary setup goals start t →
      (∀ e ∈ Event.evaluationsFrom start.events.size t.events, ∀ g ∈ goals,
        (fitness setup.subject g e.1).run t.scene = (.ok (e.2.knownFitness g), t.scene)) ∧
      (∀ g, g ∈ t.archive.coveredGoals ↔ g ∈ goals ∧
        ∃ e ∈ Event.evaluationsFrom start.events.size t.events, (e.2.knownFitness g == 0.0) = true) ∧
      (∀ g ∈ goals, t.archive.get? g =
        (((Event.evaluationsFrom start.events.size t.events).filter fun e => e.2.knownFitness g == 0.0).argmin
          (·.2.size)).map (·.1)) ∧
      (∀ g i, t.archive.get? g = some i → 0 < (t.scene.individual i).size ∧
        (fitness setup.subject g i).run t.scene = (.ok ((t.scene.individual i).knownFitness g), t.scene) ∧
        ((t.scene.individual i).knownFitness g == 0.0) = true) ∧
      (SearchM.solutions setup.subject).run t = (.ok t.archive.solutions, t) ∧
      ∀ union u, (SearchM.renew setup).run { t with phase := .evolving } = (.ok union, u) →
        (SearchM.updateArchive setup.subject union).run u =
          (.ok false, { u with scene := u.scene.logged (.archiveCovers u.archive.covered.length) })) ∧
    ∀ s, Ready setup goals start s → ∀ members u, (SearchM.populate setup).run s = (.ok members, u) →
      (SearchM.updateArchive setup.subject members).run u =
        (.ok false, { u with scene := u.scene.logged (.archiveCovers u.archive.covered.length) }) := by
  refine ⟨fun t h => ?_, fun s hs members u hu => ?_⟩
  · have ht := h.settled
    refine ⟨fun e he g hg => ?_, fun g => ?_, fun g hg => ht.get?_eq (Distinct.mem_ofList.2 hg), fun g i hi => ?_,
      ht.run_solutions, fun union u hu => ?_⟩
    · rw [(ht.evaluated_of_mem he).run_fitness (Distinct.mem_ofList.2 hg),
        Individual.knownFitness_of_bare (ht.evaluated e he).2.2]
    · rw [ht.mem_coveredGoals, Distinct.mem_ofList]
      rfl
    · obtain ⟨hg, -, heval, hcover⟩ := ht.stored hi
      exact ⟨heval.nonempty, heval.run_fitness hg, hcover⟩
    · have hpost := post_of_run_eq (Tracked.wp_renew (Tracked.note ht)) hu
      obtain ⟨_, -, hu'⟩ := hpost
      exact hu'.run_updateArchive (List.Subset.refl _)
  · have hpost := post_of_run_eq (hs.tracked.wp_populate) hu
    exact Tracked.run_updateArchive hpost (List.Subset.refl _)

/-! ### A small run -/

namespace Sample

/-- Two goals that no test case covers both: to be short, and to be long. -/
def shortAndLong : Parts where
  goals := #[⟨"short", .sizeAbove (.int 1), none, false⟩, ⟨"long", .sizeBelow (.int 2), none, false⟩]
  operators := #[.append (.int 0)]
  factory := .cycle #[.statements [.int 1]] (some 0)

/-- A population of two short test cases, which grow by mutations. -/
def growing : Setup Statement World where
  subject := shortAndLong.subject
  strategy := .dynamic
  options := { population := 2, filterDominatedSolutions := true }
  tournamentSize := 2
  trivial _ := false

def unborn : Search Statement World where
  scene := ⟨#[], { generator := .scripted ⟨#[0.25], #[0], #[], 0, 0, 0⟩ }, #[]⟩
  archive := .ofGoals [.atom 0, .atom 1]
  conditions := [.iterations 3 0]

end Sample

/-- After one generation the archive has a short and a long test case. -/
theorem archive_of_boundary_growing : ∃ t, Boundary Sample.growing [.atom 0, .atom 1] Sample.unborn t ∧
    t.archive.covered = [(.atom 0, 0), (.atom 1, 2)] ∧
    (fitness Sample.shortAndLong.subject (.atom 1) 2).run t.scene =
      (.ok ((t.scene.individual 2).knownFitness (.atom 1)), t.scene) ∧
    ((t.scene.individual 2).knownFitness (.atom 1) == 0.0) = true := by
  have hb : Boundary Sample.growing [.atom 0, .atom 1] Sample.unborn _ :=
    .next (.first (.new rfl) (run_eq_of_toOption (by decide +kernel))) (run_eq_of_toOption (by decide +kernel))
  have hstored := (archive_of_boundary.1 _ hb).2.2.2.1 (.atom 1) 2 (by decide +kernel)
  exact ⟨_, hb, by decide +kernel, hstored.2⟩

end GoalSearch
