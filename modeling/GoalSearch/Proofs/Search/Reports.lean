import GoalSearch.Proofs.Search.Accounts

/-!
# Reports

Behind the first population and behind every generation a search reports the snapshot of that moment. To report
leaves individuals, archive and population alone and asks no evaluator (`Search.Reports`), and a snapshot of a tracked
search reads what is known of its population (`Tracked.run_snapshot`). So what was reported last is the snapshot of
what is there (`Search.Reports.reported`).
-/

namespace GoalSearch

variable {σ ω : Type} {s t : Search σ ω} {taken : Snapshot}

namespace Event
variable {e : Event σ} {report : Report σ}

def report? : Event σ → Option (Report σ)
  | first report => some report
  | iteration _ report => some report
  | _ => none

theorem evaluation?_of_report? (h : e.report? = some report) : e.evaluation? = none := by
  cases e with
  | evaluated i x phase => cases h
  | _ => rfl

end Event

namespace Search

/-- The least fitness for the goal that any of the members knows. -/
def best (s : Search σ ω) (members : List Nat) (g : Goal) : Float :=
  Fitness.least Fitness.worst (members.map (s.scene.known g ·))

def snapshot (s : Search σ ω) : Snapshot :=
  { s.archive.snapshot (fun i => (s.scene.individual i).size) with
    best := s.archive.uncovered.map fun g => (g, s.best s.population g) }

/-- The report that was recorded last, if nothing was recorded after it. -/
def lastReport (s : Search σ ω) : Option (Report σ) := s.events.back?.bind Event.report?

/-- What was reported last is the snapshot of what is there. -/
def Reported (s : Search σ ω) : Prop := ∃ report, s.lastReport = some report ∧ report.snapshot = s.snapshot

/-- On the way from `s` to `t` the snapshot `taken` is reported, individuals, archive and population are left alone,
and no evaluator is asked. -/
structure Reports (subject : Subject σ ω) (taken : Snapshot) (s t : Search σ ω) : Prop where
  quiet : subject.Quiet s.scene.outside t.scene.outside
  pool : t.scene.pool = s.scene.pool
  archive : t.archive = s.archive
  population : t.population = s.population
  recorded : ∃ event report, t.events = s.events.push event ∧ event.report? = some report ∧
    report.snapshot = taken

theorem individual_of_pool (h : t.scene.pool = s.scene.pool) (i : Nat) :
    t.scene.individual i = s.scene.individual i := by
  unfold Scene.individual
  rw [h]

theorem known_of_pool (h : t.scene.pool = s.scene.pool) : t.scene.known = s.scene.known := by
  funext g i
  unfold Scene.known
  rw [individual_of_pool h]

theorem Reports.reported {subject : Subject σ ω} (h : Reports subject s.snapshot s t) : t.Reported := by
  obtain ⟨event, report, hevents, hreport, hsnapshot⟩ := h.recorded
  refine ⟨report, ?_, hsnapshot.trans ?_⟩
  · rw [lastReport, hevents, Array.back?_push]
    exact hreport
  · unfold snapshot best
    simp only [individual_of_pool h.pool, known_of_pool h.pool, h.archive, h.population]

end Search

/-! ### Reporting -/

namespace SearchM
variable {E : Fault → Search σ ω → Prop}

theorem wp_onFirst_reports (subject : Subject σ ω) :
    wp (onFirst taken) (fun _ t => s.Reports subject taken t) E s := by
  refine wp_imp wp_onFirst ?_
  rintro - _ ⟨_, _, hreport, rfl⟩
  exact ⟨.refl _ _, rfl, rfl, rfl, _, _, rfl, rfl, hreport⟩

theorem wp_onIteration_reports {subject : Subject σ ω} {generation : Int} :
    wp (onIteration subject generation taken) (fun _ t => s.Reports subject taken t) E s := by
  refine wp_imp wp_onIteration ?_
  rintro - _ ⟨_, _, _, hreport, rfl⟩
  exact ⟨(Subject.Quiet.refl _ _).notice _, rfl, rfl, rfl, _, _, rfl, rfl, hreport⟩

end SearchM

/-! ### The reports of a tracked search -/

namespace Tracked
variable {goals : List Goal} {n : Nat} {population kept own : List Nat} {subject : Subject σ ω}

theorem uncovered_subset (h : Tracked goals n population kept own s) : s.archive.uncovered ⊆ goals :=
  h.objectives ▸ h.partitioned.uncovered_subset

theorem reports (h : Tracked goals n population kept own s) (ht : s.Reports subject taken t) :
    Tracked goals n population kept own t := by
  obtain ⟨event, report, hevents, hreport, -⟩ := ht.recorded
  refine h.frame (.of_pool ht.pool) ht.archive ht.population (by simp [hevents]) ?_
  rw [hevents, Event.evaluationsFrom_push_of_none h.events_le (Event.evaluation?_of_report? hreport)]

theorem run_bestFitness (h : Tracked goals n population population own s) {g : Goal} (hg : g ∈ goals) :
    (SearchM.bestFitness subject g).run s = (.ok (s.best s.population g), s) := by
  have hread : ∀ i ∈ population, Yields (· = s) (SearchM.onScene (fitness subject g i)) (s.scene.known g i) := by
    rintro i hi _ rfl
    rw [SearchM.wp_onScene, wp_of_run_eq ((h.evaluated_of_kept hi).run_fitness hg)]
    exact ⟨rfl, rfl⟩
  refine run_eq_of_wp ?_
  unfold SearchM.bestFitness Search.best
  rw [wp_bind, wp_get, h.population_eq, wp_bind, wp_of_run_eq (Yields.mapM hread).run_eq]
  exact ⟨rfl, rfl⟩

/-- A snapshot reads what is known of the population. -/
theorem run_snapshot (h : Tracked goals n population population own s) :
    (SearchM.snapshot subject).run s = (.ok s.snapshot, s) := by
  unfold SearchM.snapshot
  refine run_eq_of_wp ?_
  rw [wp_bind, wp_get, wp_bind]
  refine (wp_of_run_eq (Yields.mapM fun g hg => ?_).run_eq).2 ⟨rfl, rfl⟩
  exact (Yields.of_run_eq (h.run_bestFitness (h.uncovered_subset hg))).bind (.pure _)

end Tracked

/-- Accounts do not notice reports. -/
theorem Search.Accounts.reports {subject : Subject σ ω} {goals : List Goal} {start : Search σ ω} {made : List Nat}
    (h : start.Accounts subject goals made s) (ht : s.Reports subject taken t) :
    start.Accounts subject goals made t := by
  obtain ⟨event, report, hevents, hreport, -⟩ := ht.recorded
  exact h.push (Event.evaluation?_of_report? hreport) ht.quiet hevents ht.archive

theorem Audited.reports {subject : Subject σ ω} {contract : Contract σ} {goals : List Goal} {start : Search σ ω}
    {n : Nat} {population kept own made : List Nat}
    (h : Audited subject contract start goals n population kept own made s) (ht : s.Reports subject taken t) :
    Audited subject contract start goals n population kept own made t := by
  obtain ⟨event, report, hevents, hreport, -⟩ := id ht.recorded
  refine ⟨h.toTracked.reports ht, h.accounts.reports ht, h.le, ?_, fun i hi => ?_⟩
  · rw [hevents, Event.evaluationsFrom_push_of_none h.events_le (Event.evaluation?_of_report? hreport)]
    exact h.evaluated_fits
  · rw [Search.individual_of_pool ht.pool]
    exact h.own_fits i hi

end GoalSearch
