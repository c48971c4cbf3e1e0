import GoalSearch.Proofs.Search.Litters
import GoalSearch.Proofs.Search.Run

/-!
# What observers are told

A run tells its observers of its start, of every member of the first population, of that population as a whole, of one
generation after the other, and of its end (`Event.opening`, `Event.generations`). Breeding tells of nothing but a
litter (`Litter.Told`), so a generation is a `Chapter`: what was bred, and a report. `Search.Told` says that so much was
told so far; the first population establishes it, and every generation adds its chapter (`Told.wp_advance`).
-/

namespace GoalSearch

variable {σ ω α : Type} {setup : Setup σ ω} {s t : Search σ ω}

/-- The objectives that are covered, in the order of the objectives. -/
def Archive.coveredObjectives {ι : Type} (a : Archive ι) : List Goal := a.objectives.filter fun g => (a.get? g).isSome

/-! ### Course of a run -/

/-- A generation as observers are told of it: what is bred, and the report on it. -/
structure Chapter (σ : Type) where
  bred : List (Event σ)
  report : Report σ

namespace Event
variable {k : Int} {chapters : List (Chapter σ)} {chapter : Chapter σ}

/-- Somebody is mutated or evaluated in the phase. -/
def Breeds (phase : Phase) : Event σ → Prop
  | mutated _ p => p = phase
  | evaluated _ _ p => p = phase
  | _ => False

/-- Who is mutated or evaluated, and whether it is an evaluation. -/
def tried? : Event σ → Option (Nat × Bool)
  | mutated i _ => some (i, false)
  | evaluated i _ _ => some (i, true)
  | _ => none

theorem breeds_of_told {phase : Phase} {events : List (Event σ)} (h : Litter.Told setup phase events) :
    ∀ e ∈ events, Breeds phase e := by
  obtain ⟨paired, injected, -, rfl⟩ := h
  intro e he
  obtain ⟨c, -, he⟩ := List.mem_flatMap.1 he
  rcases List.mem_append.1 he with he | he
  · rw [List.eq_of_mem_replicate he]
    rfl
  · obtain ⟨x, -, rfl⟩ := List.mem_map.1 he
    rfl

/-- The start, the evaluation of each member, and the report on the first population. -/
def opening (time : Int) (members : List (Nat × Individual σ)) (report : Report σ) : List (Event σ) :=
  started time .initializing :: members.map (fun m => evaluated m.1 m.2 .initializing) ++ [first report]

/-- The generations from number `k` on. -/
def generations : Int → List (Chapter σ) → List (Event σ)
  | _, [] => []
  | k, c :: rest => c.bred ++ iteration k c.report :: generations (k + 1) rest

theorem generations_concat : generations k (chapters ++ [chapter]) =
    generations k chapters ++ (chapter.bred ++ [iteration (k + chapters.length) chapter.report]) := by
  induction chapters generalizing k with
  | nil => simp [generations]
  | cons c chapters ih =>
    have hnumber : k + 1 + (chapters.length : Int) = k + ((c :: chapters).length : Int) := by
      rw [List.length_cons]
      omega
    rw [List.cons_append, generations, ih, hnumber, generations]
    simp

end Event

/-! ### Who leaves what alone -/

namespace Search

/-- From `s` to `t` nothing happens but on the scene. -/
def Beside (s t : Search σ ω) : Prop := ∃ scene, t = { s with scene := scene }

theorem scenic_beside : Scenic (Beside s) where
  scene t scene h := by
    obtain ⟨_, rfl⟩ := h
    exact ⟨scene, rfl⟩

/-- From `s` to `t` nothing happens but on the scene and in the archive. -/
def Stored (s t : Search σ ω) : Prop := ∃ scene archive, t = { s with scene := scene, archive := archive }

theorem archival_stored : Archival (Stored s) where
  scene t scene h := by
    obtain ⟨_, archive, rfl⟩ := h
    exact ⟨scene, archive, rfl⟩
  submit t size i g h := by
    obtain ⟨scene, archive, rfl⟩ := h
    exact ⟨scene, (archive.submit size i g).1, rfl⟩

end Search

namespace SearchM
open Search (Beside Stored scenic_beside archival_stored)

theorem wp_beside {x : SearchM σ ω α} (hx : ∀ P : Search σ ω → Prop, Search.Scenic P → Keeps P x) :
    wp x (fun _ t => Beside s t) (fun _ _ => True) s :=
  (hx _ scenic_beside).wp_kept ⟨s.scene, rfl⟩

theorem wp_stored {x : SearchM σ ω α} (hx : ∀ P : Search σ ω → Prop, Search.Archival P → Keeps P x) :
    wp x (fun _ t => Stored s t) (fun _ _ => True) s :=
  (hx _ archival_stored).wp_kept ⟨s.scene, s.archive, rfl⟩

/-- Of every new member observers are told once, and of nobody else. -/
theorem wp_newMembers_told (k : Nat) :
    wp (newMembers setup k) (fun l t => ∃ (members : List (Nat × Individual σ)) (scene : _) (archive : _) (conditions : _)
        (events : Array (Event σ)), members.map (·.1) = l ∧
      events.toList = s.events.toList ++ members.map (fun m => .evaluated m.1 m.2 s.phase) ∧ t =
      { s with scene := scene, archive := archive, conditions := conditions, events := events })
      (fun _ _ => True) s := by
  induction k generalizing s with
  | zero => exact ⟨[], s.scene, s.archive, s.conditions, s.events, rfl, by simp, rfl⟩
  | succ k ih =>
    unfold newMembers
    refine wp_seq (wp_beside fun P hP => keeps_construct setup hP.growing) ?_
    rintro r _ ⟨scene, rfl⟩
    cases r with
    | none => exact ih
    | some i =>
      dsimp only
      rw [wp_bind, wp_onScene, SceneM.wp_individual]
      split
      · rw [wp_bind, wp_log]
        exact ih
      · rw [wp_bind, wp_get]
        refine wp_seq (wp_beside fun P hP => keeps_onScene hP _) ?_
        rintro - _ ⟨scene, rfl⟩
        refine wp_seq wp_evaluate_told ?_
        rintro - _ ⟨scene, archive, conditions, x, -, -, rfl⟩
        refine wp_seq ih ?_
        rintro l _ ⟨members, scene, archive, conditions, events, hmembers, hevents, rfl⟩
        refine ⟨(i, x) :: members, scene, archive, conditions, events, ?_, ?_, rfl⟩
        · rw [List.map_cons, hmembers]
        · rw [hevents]
          simp

theorem wp_gatherDependencies_told :
    wp (gatherDependencies setup) (fun _ t => ∃ scene dependencies, t =
      { s with scene := scene, dependencies := dependencies }) (fun _ _ => True) s := by
  unfold gatherDependencies
  split
  · exact ⟨s.scene, s.dependencies, rfl⟩
  · rw [wp_bind, wp_get]
    refine wp_seq wp_logs ?_
    rintro - _ ⟨log, rfl⟩
    exact ⟨_, _, rfl⟩

/-- Observers are told of the start, and of every member of the first population. -/
theorem wp_populate_told :
    wp (populate setup) (fun l t => t.population = l ∧ t.generation = 0 ∧
      ∃ (time : Int) (members : List (Nat × Individual σ)), members.map (·.1) = l ∧
      t.events.toList = s.events.toList ++
        .started time .initializing :: members.map fun m => .evaluated m.1 m.2 .initializing)
      (fun _ _ => True) s := by
  unfold populate onStart now randomPopulation
  rw [wp_bind, wp_modify, wp_bind, wp_bind, wp_bind, wp_get, wp_pure, wp_bind, wp_signal, wp_bind, wp_get, wp_record]
  refine wp_seq wp_gatherDependencies_told ?_
  rintro - _ ⟨scene, dependencies, rfl⟩
  rw [wp_bind]
  refine wp_seq (wp_newMembers_told _) ?_
  rintro l _ ⟨members, scene, archive, conditions, events, hmembers, hevents, rfl⟩
  rw [wp_bind, wp_log, wp_pure, wp_bind, wp_modify]
  refine ⟨rfl, rfl, setup.subject.now s.scene.outside, members, hmembers, ?_⟩
  simp [hevents]

/-- A snapshot shows what is covered. -/
theorem wp_snapshot_covered {subject : Subject σ ω} :
    wp (snapshot subject) (fun taken t => taken.covered = t.archive.coveredObjectives ∧ Search.Beside s t)
      (fun _ _ => True) s := by
  have hbest : wp (s.archive.uncovered.mapM fun g => do return (g, ← bestFitness subject g)) (fun _ t => Search.Beside s t)
      (fun _ _ => True) s := by
    refine wp_beside fun P hP => .mapM fun g => .bind ?_ fun _ => .pure _
    exact .bind .get fun _ => .bind (.mapM fun _ => keeps_onScene hP _) fun _ => .pure _
  unfold snapshot
  rw [wp_bind, wp_get]
  refine wp_seq hbest fun best t ht => ?_
  obtain ⟨scene, rfl⟩ := ht
  exact ⟨rfl, scene, rfl⟩

/-- While a new population is bred and selected, observers are told of nothing but a litter. -/
theorem wp_renew_told :
    wp (renew setup) (fun _ t => t.phase = .filling ∧ t.generation = s.generation ∧
      ∃ bred, Litter.Told setup s.phase bred ∧ t.events.toList = s.events.toList ++ bred) (fun _ _ => True) s := by
  unfold renew computeDominance selectSurvivors
  refine wp_seq (wp_beside fun P hP => keeps_activeGoals setup hP.growing) ?_
  rintro goals _ ⟨scene, rfl⟩
  refine wp_seq wp_breed_told fun offspring u hpost => ?_
  obtain ⟨paired, injected, hu, hlitter⟩ := hpost
  rw [wp_bind, wp_get, wp_bind, wp_log, wp_bind, wp_bind, wp_enter]
  refine wp_imp (wp_beside fun P hP => keeps_onScene hP _) ?_
  rintro fronts _ ⟨scene, rfl⟩
  rw [wp_bind, wp_enter]
  refine wp_seq (wp_beside fun P hP => keeps_onScene hP _) ?_
  rintro members _ ⟨scene, rfl⟩
  rw [wp_bind, wp_modify, wp_pure]
  exact ⟨rfl, hu.generation, _, ⟨paired, injected, hlitter, rfl⟩, hu.events⟩

end SearchM

/-! ### What was told so far -/

/-- The covered goals of one report after the other. -/
def coverings (first : Report σ) (chapters : List (Chapter σ)) : List (List Goal) :=
  (first :: chapters.map (·.report)).map (·.snapshot.covered)

namespace Search

structure Told (setup : Setup σ ω) (past : List (Event σ)) (first : Report σ) (chapters : List (Chapter σ))
    (t : Search σ ω) : Prop where
  events : ∃ (time : Int) (members : List (Nat × Individual σ)), members.map (·.1) = first.members.map (·.1) ∧
    t.events.toList = past ++ Event.opening time members first ++ Event.generations 1 chapters
  generation : t.generation = chapters.length
  ranked : first.phase = .ranking
  bred : ∀ c ∈ chapters, Litter.Told setup .evolving c.bred ∧ c.report.phase = .filling
  growing : (coverings first chapters).IsChain List.Sublist
  last : (coverings first chapters).getLast? = some t.archive.coveredObjectives

open SearchM

theorem members_reportOf {taken : Snapshot} : (s.reportOf taken).members.map (·.1) = s.population := by
  simp [reportOf, Function.comp_def]

theorem wp_initialise_told : wp (initialise setup) (fun _ t => ∃ first, Told setup s.events.toList first [] t)
    (fun _ _ => True) s := by
  unfold initialise computeDominance
  refine wp_seq wp_populate_told ?_
  rintro members u ⟨hpopulation, hgeneration, time, evaluated, hmembers, hevents⟩
  refine wp_seq (wp_stored fun P hP => keeps_updateArchive _ hP _) ?_
  rintro - _ ⟨scene, archive, rfl⟩
  refine wp_seq (wp_beside fun P hP => keeps_activeGoals setup hP.growing) ?_
  rintro goals _ ⟨scene, rfl⟩
  rw [wp_bind, wp_bind, wp_enter]
  refine wp_imp (wp_beside fun P hP => keeps_onScene hP _) ?_
  rintro fronts _ ⟨scene, rfl⟩
  refine wp_seq wp_snapshot_covered fun taken v hpost => ?_
  obtain ⟨hcovered, hv⟩ := hpost
  have hkept : v.phase = .ranking ∧ v.population = members ∧ v.generation = 0 ∧ v.events = u.events := by
    obtain ⟨_, rfl⟩ := hv
    exact ⟨rfl, hpopulation, hgeneration, rfl⟩
  obtain ⟨hphase, hpopulation, hgeneration, hsame⟩ := hkept
  refine wp_imp wp_onFirst_eq ?_
  rintro - _ ⟨log, rfl⟩
  refine ⟨v.reportOf taken, ⟨time, evaluated, ?_, ?_⟩, hgeneration, hphase, by simp, List.isChain_singleton _, ?_⟩
  · rw [members_reportOf, hmembers, hpopulation]
  · simp [hsame, hevents, Event.opening, Event.generations]
  · simp [coverings, reportOf, hcovered]

/-- What is covered stays covered. -/
theorem coveredObjectives_sublist {a b : Archive Nat} (hobjectives : b.objectives = a.objectives)
    (hcovered : a.coveredGoals ⊆ b.coveredGoals) : a.coveredObjectives.Sublist b.coveredObjectives := by
  unfold Archive.coveredObjectives
  rw [hobjectives]
  refine List.monotone_filter_right _ fun g hg => ?_
  exact Archive.isSome_get?_iff.2 (hcovered (Archive.isSome_get?_iff.1 hg))

theorem wp_advance_covered : wp (advance setup)
    (fun _ t => s.archive.coveredObjectives.Sublist t.archive.coveredObjectives) (fun _ _ => True) s := by
  have hclosed : Closed (σ := σ) (ω := ω) fun t =>
      t.archive.objectives = s.archive.objectives ∧ s.archive.coveredGoals ⊆ t.archive.coveredGoals :=
    closed_archive (R := fun a => a.objectives = s.archive.objectives ∧ s.archive.coveredGoals ⊆ a.coveredGoals)
      fun a size i g h => ⟨Archive.objectives_submit.trans h.1, List.Subset.trans h.2 Archive.coveredGoals_subset_submit⟩
  exact wp_mono (Keeps.iff_wp.1 (keeps_advance setup hclosed) s ⟨rfl, List.Subset.refl _⟩)
    (fun _ _ ht => coveredObjectives_sublist ht.1 ht.2) fun _ _ _ => trivial

/-- From `s` to `t` a generation goes by, of which observers are told in a chapter. -/
structure Narrated (setup : Setup σ ω) (s : Search σ ω) (chapter : Chapter σ) (t : Search σ ω) : Prop where
  bred : Litter.Told setup .evolving chapter.bred
  phase : chapter.report.phase = .filling
  covered : chapter.report.snapshot.covered = t.archive.coveredObjectives
  generation : t.generation = s.generation + 1
  events : t.events.toList = s.events.toList ++ (chapter.bred ++ [.iteration (s.generation + 1) chapter.report])

theorem wp_advance_narrated :
    wp (advance setup) (fun _ t => ∃ chapter, s.Narrated setup chapter t) (fun _ _ => True) s := by
  unfold advance evolve
  rw [wp_bind, wp_enter, wp_bind, wp_bind]
  refine wp_imp wp_renew_told ?_
  rintro union u ⟨hphase, hgeneration, bred, hbred, hevents⟩
  refine wp_seq (wp_stored fun P hP => keeps_updateArchive _ hP _) ?_
  rintro - _ ⟨scene, archive, rfl⟩
  rw [wp_modify, wp_bind, wp_get]
  refine wp_seq wp_snapshot_covered fun taken v hpost => ?_
  obtain ⟨hcovered, hv⟩ := hpost
  have hkept : v.phase = .filling ∧ v.generation = s.generation + 1 ∧ v.events = u.events := by
    obtain ⟨_, rfl⟩ := hv
    exact ⟨hphase, congrArg (· + 1) hgeneration, rfl⟩
  refine wp_imp wp_onIteration_eq ?_
  rintro - _ ⟨log, memory, rfl⟩
  refine ⟨⟨bred, v.reportOf taken⟩, hbred, hkept.1, hcovered, hkept.2.1, ?_⟩
  dsimp only at hgeneration hevents ⊢
  rw [Array.toList_push, hkept.2.2, hevents, hgeneration, List.append_assoc]

namespace Told
variable {past : List (Event σ)} {first : Report σ} {chapters : List (Chapter σ)} {chapter : Chapter σ}

/-- So much was told before, and the chapter now. -/
theorem concat (h : s.Told setup past first chapters) (hnext : s.Narrated setup chapter t)
    (hmore : s.archive.coveredObjectives.Sublist t.archive.coveredObjectives) :
    t.Told setup past first (chapters ++ [chapter]) := by
  have hcoverings : coverings first (chapters ++ [chapter]) =
      coverings first chapters ++ [t.archive.coveredObjectives] := by
    simp [coverings, hnext.covered]
  refine ⟨?_, ?_, h.ranked, fun c hc => ?_, ?_, ?_⟩
  · obtain ⟨time, members, hmembers, hpast⟩ := h.events
    refine ⟨time, members, hmembers, ?_⟩
    rw [hnext.events, hpast, Event.generations_concat, List.append_assoc, h.generation, Int.add_comm]
  · rw [hnext.generation, h.generation]
    simp
  · rcases List.mem_append.1 hc with hc | hc
    · exact h.bred c hc
    · rw [List.mem_singleton.1 hc]
      exact ⟨hnext.bred, hnext.phase⟩
  · rw [hcoverings, List.isChain_append]
    refine ⟨h.growing, List.isChain_singleton _, fun a ha b hb => ?_⟩
    rw [h.last] at ha
    rw [← Option.some.inj ha, ← Option.some.inj hb]
    exact hmore
  · rw [hcoverings]
    simp

/-- One generation adds its chapter. -/
theorem wp_advance (h : s.Told setup past first chapters) :
    wp (advance setup) (fun _ t => ∃ chapter, t.Told setup past first (chapters ++ [chapter])) (fun _ _ => True) s := by
  refine wp_mono (wp_and wp_advance_narrated wp_advance_covered) ?_ fun _ _ _ => trivial
  rintro - t ⟨⟨chapter, hnext⟩, hmore⟩
  exact ⟨chapter, h.concat hnext hmore⟩

end Told

/-- Last observers are told of the end. -/
theorem wp_finalise_told :
    wp (finalise setup) (fun result t => t.events = s.events.push (.finished .done) ∧ t.phase = .done ∧
      result.generations = s.generation ∧ result.covered = s.archive.coveredObjectives) (fun _ _ => True) s := by
  unfold finalise onFinish
  rw [wp_bind, wp_enter, wp_bind, wp_bind, wp_signal, wp_bind, wp_get, wp_record]
  refine wp_seq (wp_beside fun P hP => keeps_finalSolutions setup hP) ?_
  rintro solutions _ ⟨scene, rfl⟩
  rw [wp_bind, wp_get, wp_pure]
  refine ⟨rfl, rfl, rfl, ?_⟩
  simp [SearchResult.covered, Archive.coveredObjectives, List.filter_map, Function.comp_def]

end Search

/-- Whatever the search that a run starts in: if the run ends normally, observers are told of the start, of each member
of the first population once and in order, of that population, of one generation after the other, and of the end. Until
the population is there the search is initializing, then it has ranked; it is evolving whenever somebody is bred, has
filled the population when a generation is reported, and is done at the end. Of a generation there are told, one after
the other, the candidates of a litter, each with its mutations and, if it is kept, its evaluation. What is covered grows
from report to report, up to what the result says. -/
theorem events_of_generate {fuel : Nat} {result : SearchResult}
    (h : (SearchM.generate setup fuel).run s = (.ok result, t)) :
    ∃ (time : Int) (members : List (Nat × Individual σ)) (first : Report σ) (chapters : List (Chapter σ)),
      t.events.toList = s.events.toList ++ Event.opening time members first ++ Event.generations 1 chapters ++
        [.finished .done] ∧
      members.map (·.1) = first.members.map (·.1) ∧ (chapters.length : Int) = result.generations ∧
      first.phase = .ranking ∧
      (∀ c ∈ chapters, (∀ e ∈ c.bred, Event.Breeds .evolving e) ∧ Litter.Told setup .evolving c.bred ∧
        c.report.phase = .filling) ∧ t.phase = .done ∧
      (coverings first chapters).IsChain List.Sublist ∧
      (coverings first chapters).getLast? = some result.covered := by
  have hloop : ∀ first u, u.Told setup s.events.toList first [] →
      wp (SearchM.advanceAll setup fuel) (fun _ v => ∃ chapters, v.Told setup s.events.toList first chapters)
        (fun _ _ => True) u := by
    intro first u hu
    refine wp_imp (SearchM.wp_advanceAll (P := fun _ v => ∃ chapters, v.Told setup s.events.toList first chapters)
      (k := 0) ⟨[], hu⟩ (fun _ v hv _ => ?_) fun _ _ _ => trivial) fun _ _ ⟨_, hv, _⟩ => hv
    obtain ⟨chapters, hv⟩ := hv
    exact wp_imp hv.wp_advance fun _ _ ⟨chapter, hw⟩ => ⟨_, hw⟩
  have hgenerate : wp (SearchM.generate setup fuel) (fun result t => ∃ first chapters, ∃ v : Search σ ω,
      v.Told setup s.events.toList first chapters ∧ t.events = v.events.push (.finished .done) ∧ t.phase = .done ∧
        result.generations = v.generation ∧ result.covered = v.archive.coveredObjectives) (fun _ _ => True) s := by
    unfold SearchM.generate
    refine wp_seq Search.wp_initialise_told fun _ u hu => ?_
    obtain ⟨first, hu⟩ := hu
    refine wp_seq (hloop first u hu) fun _ v hv => ?_
    obtain ⟨chapters, hv⟩ := hv
    exact wp_imp Search.wp_finalise_told fun _ _ ht => ⟨first, chapters, v, hv, ht⟩
  obtain ⟨first, chapters, v, hv, hfinish, hphase, hgenerations, hcovered⟩ := post_of_run_eq hgenerate h
  obtain ⟨time, members, hmembers, hpast⟩ := hv.events
  refine ⟨time, members, first, chapters, ?_, hmembers, ?_, hv.ranked, fun c hc => ?_, hphase, hv.growing, ?_⟩
  · rw [hfinish, Array.toList_push, hpast]
  · rw [hgenerations, hv.generation]
  · exact ⟨Event.breeds_of_told (hv.bred c hc).1, hv.bred c hc⟩
  · rw [hv.last, hcovered]

/-- The small run that makes test cases grow is told of in one chapter, behind which both goals are covered. In it two
offspring are mutated and evaluated, one after the other. -/
theorem events_of_generate_growing : ∃ (t : Search Statement Sample.World) (time : Int)
    (members : List (Nat × Individual Statement)) (first : Report Statement) (chapter : Chapter Statement),
    (SearchM.generate Sample.growing 3).run Sample.unborn =
      (.ok ⟨[0, 2], [(.atom 0, true), (.atom 1, true)], 1⟩, t) ∧
    t.events.toList = Event.opening time members first ++ Event.generations 1 [chapter] ++ [.finished .done] ∧
    chapter.bred.map Event.tried? = [some (2, false), some (2, true), some (3, false), some (3, true)] ∧
    Litter.Told Sample.growing .evolving chapter.bred ∧
    (coverings first [chapter]).getLast? = some [.atom 0, .atom 1] := by
  have hrun : (SearchM.generate Sample.growing 3).run Sample.unborn =
      (.ok ⟨[0, 2], [(.atom 0, true), (.atom 1, true)], 1⟩, _) := run_eq_of_toOption (by decide +kernel)
  obtain ⟨time, members, first, chapters, hevents, -, hlength, -, hchapters, -, -, hlast⟩ := events_of_generate hrun
  obtain ⟨chapter, rfl⟩ := List.length_eq_one_iff.1 (Int.ofNat_inj.1 hlength)
  have htried : ((SearchM.generate Sample.growing 3).run Sample.unborn).2.events.toList.map Event.tried? =
      [none, some (0, true), some (1, true), none, some (2, false), some (2, true), some (3, false), some (3, true),
        none, none] := by decide +kernel
  rw [hevents] at htried
  refine ⟨_, time, members, first, chapter, hrun, hevents, ?_, (hchapters chapter (by simp)).2.1, hlast⟩
  -- there are two members, since the report behind them is about nobody
  rcases members with _ | ⟨m, _ | ⟨m', _ | ⟨m'', rest⟩⟩⟩
  · simp [Event.opening, Event.tried?, Sample.unborn] at htried
  · simp [Event.opening, Event.tried?, Sample.unborn] at htried
  · simp only [Sample.unborn, Array.toList_empty, Event.opening, List.map_cons, List.map_nil, List.cons_append,
      List.nil_append, Event.generations, List.append_assoc, Event.tried?, List.map_append, List.cons.injEq] at htried
    exact List.append_cancel_right htried.2.2.2.2
  · simp [Event.opening, Event.tried?, Sample.unborn] at htried

end GoalSearch
