import GoalSearch.Proofs.Search.Active
import GoalSearch.Proofs.Search.Course

/-!
# What lasts between new dependencies

A `Lasting` property survives evaluations of changed individuals and all else that a run does behind the gathering of its
dependencies, save the batches that are handed in to the archive. As those add nothing on tracked searches, a whole run
keeps a lasting property from there on, however it ends (`Tracked.wp_generate_lasting`).
-/

namespace GoalSearch

variable {σ ω : Type} {setup : Setup σ ω} {goals : List Goal}

namespace Search

/-- Properties that survive evaluations and all that is noted, signalled and recorded, but for new dependencies. -/
structure Lasting (setup : Setup σ ω) (P : Search σ ω → Prop) : Prop extends Bearing setup P where
  note : ∀ s generation phase, P s → P { s with generation := generation, phase := phase }
  signal : ∀ s x, P s → P { s with conditions := s.conditions.map (Condition.step x) }
  population : ∀ s members, P s → P { s with population := members }
  record : ∀ s event, P s → P { s with events := s.events.push event }

theorem Lasting.and {P Q : Search σ ω → Prop} (hP : Lasting setup P) (hQ : Lasting setup Q) :
    Lasting setup fun s => P s ∧ Q s where
  scene s scene h := ⟨hP.scene s scene h.1, hQ.scene s scene h.2⟩
  mutated s i h := ⟨hP.mutated s i h.1, hQ.mutated s i h.2⟩
  evaluate s i h hchanged hsize := ⟨hP.evaluate s i h.1 hchanged hsize, hQ.evaluate s i h.2 hchanged hsize⟩
  note s generation phase h := ⟨hP.note s generation phase h.1, hQ.note s generation phase h.2⟩
  signal s x h := ⟨hP.signal s x h.1, hQ.signal s x h.2⟩
  population s members h := ⟨hP.population s members h.1, hQ.population s members h.2⟩
  record s event h := ⟨hP.record s event h.1, hQ.record s event h.2⟩

theorem lasting_dependencies {p : Prop} {d : Option Dependencies} : Lasting setup fun s => p → s.dependencies = d where
  scene _ _ h := h
  mutated _ _ h := h
  evaluate := (SearchM.bearing_of_fertile setup (P := fun s => p → s.dependencies = d)
    ⟨⟨⟨⟨fun _ _ h => h⟩, fun _ _ _ _ h => h⟩, fun _ _ h => h⟩, fun _ _ _ h => h⟩).evaluate
  note _ _ _ h := h
  signal _ _ h := h
  population _ _ h := h
  record _ _ h := h

end Search

section Lasting
open Search (Lasting)

variable {P : Search σ ω → Prop} {n : Nat} {s : Search σ ω}

namespace SearchM

/-- Populating keeps what holds when the dependencies are gathered. -/
theorem wp_populate_lasting (hP : Lasting setup P) (hs : ∀ log, P
    { s.opened setup.subject with
      scene := { s.scene with log := log }
      dependencies := match setup.strategy with
        | .static => s.dependencies
        | .dynamic => some (Dependencies.ofGoals setup.subject.parentOf s.archive.objectives).1 }) :
    wp (populate setup) (fun _ => P) (fun _ => P) s := by
  have hmembers : Keeps P (randomPopulation setup >>= fun members => do
      modify fun s => { s with population := members }
      return members) :=
    .bind (keeps_randomPopulation setup hP.toBearing) fun members =>
      .bind (.modify fun s => hP.population s members) fun _ => .pure _
  refine wp_ends.2 ?_
  rw [run_populate]
  refine wp_ends.1 (wp_seq wp_gatherDependencies ?_)
  rintro - _ ⟨log, rfl⟩
  exact Keeps.iff_wp.1 hmembers _ (hs log)

end SearchM

namespace Tracked

/-- The batch behind the first population adds nothing. -/
theorem wp_initialise_lasting (hP : Lasting setup P) (h : Tracked goals n s.population [] [] s)
    (hpopulate : wp (SearchM.populate setup) (fun _ => P) (fun _ => P) s) :
    wp (SearchM.initialise setup) (fun _ => P) (fun _ => P) s := by
  have hscenic := hP.toScenic
  have hfirst : ∀ taken, Keeps P (SearchM.onFirst taken) := fun taken => Keeps.iff_wp.2 fun t ht => by
    refine wp_imp SearchM.wp_onFirst ?_
    rintro - _ ⟨log, report, -, rfl⟩
    exact hP.record _ _ (hP.signal _ _ (hP.scene t { t.scene with log := log } ht))
  have hrest : ∀ members, Keeps P (SearchM.activeGoals setup >>= fun active => do
      let _ ← SearchM.computeDominance setup.subject members active
      SearchM.onFirst (← SearchM.snapshot setup.subject)) := fun members =>
    .bind (SearchM.keeps_activeGoals setup hscenic.growing) fun active =>
      .bind (.bind (.modify fun t => hP.note t _ _) fun _ => SearchM.keeps_onScene hscenic _) fun _ =>
        .bind (SearchM.keeps_snapshot _ hscenic) hfirst
  unfold SearchM.initialise
  refine wp_seq (wp_mono (wp_and h.wp_populate hpopulate) (fun _ _ h => h) fun _ _ h => h.2) fun members t ht => ?_
  rw [wp_bind, wp_of_run_eq (ht.1.run_updateArchive (List.Subset.refl _))]
  exact Keeps.iff_wp.1 (hrest members) _ (hP.scene t _ ht.2)

/-- Nor does the batch of a generation. -/
theorem wp_advance_lasting (hP : Lasting setup P) (h : Settled goals n s) (hs : P s) :
    wp (SearchM.advance setup) (fun _ => P) (fun _ => P) s := by
  have hnote : ∀ s phase, P s → P { s with phase := phase } := fun s => hP.note s s.generation
  have hrenew := wp_and (x := SearchM.renew setup) (s := { s with phase := .evolving })
    (Tracked.wp_renew (Tracked.note h))
    (Keeps.iff_wp.1 (SearchM.keeps_renew setup hP.toBearing hnote hP.population) _ (hnote s .evolving hs))
  unfold SearchM.advance SearchM.evolve
  rw [wp_bind, SearchM.wp_enter, wp_bind, wp_bind]
  refine wp_mono hrenew (fun union t ht => ?_) fun _ _ h => h.2
  obtain ⟨⟨_, -, ht⟩, hPt⟩ := ht
  rw [wp_bind, wp_of_run_eq (ht.run_updateArchive (List.Subset.refl _)), wp_modify, wp_bind, wp_get]
  refine wp_seq (Keeps.iff_wp.1 (SearchM.keeps_snapshot _ hP.toScenic) _ (hP.note _ _ _ (hP.scene t _ hPt)))
    fun taken u hu => wp_imp SearchM.wp_onIteration ?_
  rintro - _ ⟨log, memory, report, -, rfl⟩
  exact hP.record _ _ (hP.signal _ _ (hP.scene u _ hu))

/-- So a whole run keeps what holds behind its first population, however it ends. -/
theorem wp_generate_lasting (hP : Lasting setup P) (h : Tracked goals n s.population [] [] s)
    (hpopulate : wp (SearchM.populate setup) (fun _ => P) (fun _ => P) s) (fuel : Nat) :
    wp (SearchM.generate setup fuel) (fun _ => P) (fun _ => P) s := by
  have hfirst := wp_and (x := SearchM.initialise setup) (Settled.wp_initialise h)
    (wp_initialise_lasting hP h hpopulate)
  have hstep : ∀ t, Settled goals n t ∧ P t →
      wp (SearchM.advance setup) (fun _ t => Settled goals n t ∧ P t) (fun _ => P) t := fun t ht => by
    refine wp_mono (wp_and ht.1.wp_advance (wp_advance_lasting hP ht.1 ht.2)) (fun _ u hu => ⟨?_, hu.2⟩) fun _ _ h => h.2
    obtain ⟨⟨⟨_, _, hu⟩, -⟩, -⟩ := hu
    exact hu.settled
  unfold SearchM.generate
  refine wp_seq (wp_mono hfirst (fun _ _ h => h) fun _ _ h => h.2) fun _ t ht => ?_
  refine wp_seq (SearchM.wp_advanceAll (P := fun _ t => Settled goals n t ∧ P t) (k := 0) ⟨ht.1.1, ht.2⟩
    (fun _ t ht _ => hstep t ht) fun t ht _ => ht.2) fun _ t ht => ?_
  obtain ⟨_, ht, -⟩ := ht
  exact SearchM.wp_finalise setup hP.toScenic (hP.record _ _ (hP.signal _ _ (hP.note t _ _ ht.2)))

end Tracked

end Lasting

end GoalSearch
