import GoalSearch.Proofs.Aging
import GoalSearch.Proofs.Search.Loop
import GoalSearch.Proofs.Variation

/-!
# What no step of a search can break

Some kinds of properties of searches survive more and more of what a search does. A `Crediting` one survives it when more
is known about individuals and the archive takes notice, so computing fitness values keeps it. A `Growing` one survives
new individuals and changes of those there are, as long as nobody gets another age than that of the generation, and a
`Rearing` one mutations as well, so that candidates are made without harm to it (`SearchM.keeps_newcomer`). A `Scenic`
property survives whatever happens to the individuals, and an `Archival` one submissions to the archive as well. From
there, an `Idle` one survives what is noted between the parts of a generation: phases, dependencies and a new population.
A `Hardy` property is scenic and survives mutations, and a `Bearing` one survives as well whole evaluations of individuals
that changed, so that breeding keeps it, although it may speak of the phase (`SearchM.keeps_breed`). A `Firm` property is
archival and hardy; a `Fertile` one also survives the end of an evaluation, which makes it bearing. A `Steady`
property is both idle and firm: no step breaks it but those that evaluate, count generations or report. A `Stable` one
survives evaluations too, so that breeding a whole new population keeps it (`SearchM.keeps_renew`). A `Closed` one
survives any signal and any event, so a whole run keeps it, however it ends (`SearchM.keeps_generate`). What is recorded
stays recorded (`Search.closed_events`), and all that submissions to the archive keep is kept (`Search.closed_archive`).
-/

namespace GoalSearch

variable {σ ω α β : Type}

namespace Search

structure Crediting (P : Search σ ω → Prop) : Prop where
  scene : ∀ s scene, s.scene.Learns scene → P s → P { s with scene := scene }
  submit : ∀ s size i g, P s → P { s with archive := (s.archive.submit size i g).1 }

structure Growing (P : Search σ ω → Prop) : Prop where
  scene : ∀ s scene, s.scene.Ages s.generation scene → P s → P { s with scene := scene }

structure Rearing (P : Search σ ω → Prop) : Prop extends Growing P where
  mutated : ∀ s i, P s → P { s with events := s.events.push (.mutated i s.phase) }

structure Scenic (P : Search σ ω → Prop) : Prop where
  scene : ∀ s scene, P s → P { s with scene := scene }

structure Archival (P : Search σ ω → Prop) : Prop extends Scenic P where
  submit : ∀ s size i g, P s → P { s with archive := (s.archive.submit size i g).1 }

structure Idle (P : Search σ ω → Prop) : Prop extends Archival P where
  note : ∀ s phase, P s → P { s with phase := phase }
  depend : ∀ s dependencies, P s → P { s with dependencies := some dependencies }
  population : ∀ s members, P s → P { s with population := members }

structure Hardy (P : Search σ ω → Prop) : Prop extends Scenic P where
  mutated : ∀ s i, P s → P { s with events := s.events.push (.mutated i s.phase) }

structure Bearing (setup : Setup σ ω) (P : Search σ ω → Prop) : Prop extends Hardy P where
  evaluate : ∀ s i, P s → (s.scene.individual i).changed = true → 0 < (s.scene.individual i).size →
    P ((SearchM.evaluate setup i).run s).2

structure Firm (P : Search σ ω → Prop) : Prop extends Archival P where
  mutated : ∀ s i, P s → P { s with events := s.events.push (.mutated i s.phase) }

structure Fertile (P : Search σ ω → Prop) : Prop extends Firm P where
  evaluated : ∀ s i x, P s → P
    { s with
      conditions := s.conditions.map (Condition.step .evaluation)
      events := s.events.push (.evaluated i x s.phase) }

structure Steady (P : Search σ ω → Prop) : Prop extends Idle P, Firm P

structure Stable (P : Search σ ω → Prop) : Prop extends Steady P, Fertile P

structure Closed (P : Search σ ω → Prop) : Prop where
  scene : ∀ s scene, P s → P { s with scene := scene }
  note : ∀ s generation phase, P s → P { s with generation := generation, phase := phase }
  depend : ∀ s dependencies, P s → P { s with dependencies := some dependencies }
  signal : ∀ s x, P s → P { s with conditions := s.conditions.map (Condition.step x) }
  population : ∀ s members, P s → P { s with population := members }
  record : ∀ s event, P s → P { s with events := s.events.push event }
  submit : ∀ s size i g, P s → P { s with archive := (s.archive.submit size i g).1 }

section Kinds
variable {P : Search σ ω → Prop}

theorem Scenic.growing (h : Scenic P) : Growing P := ⟨fun s scene _ => h.scene s scene⟩

theorem Archival.crediting (h : Archival P) : Crediting P := ⟨fun s scene _ => h.scene s scene, h.submit⟩

theorem Hardy.rearing (h : Hardy P) : Rearing P := ⟨h.growing, h.mutated⟩

theorem Firm.hardy (h : Firm P) : Hardy P := ⟨h.toScenic, h.mutated⟩

end Kinds

theorem Closed.stable {P : Search σ ω → Prop} (h : Closed P) : Stable P where
  scene := h.scene
  note s := h.note s s.generation
  depend := h.depend
  population := h.population
  mutated s i := h.record s (.mutated i s.phase)
  submit := h.submit
  evaluated s i x hs := h.record _ (.evaluated i x s.phase) (h.signal s .evaluation hs)

theorem Stable.and {P Q : Search σ ω → Prop} (hP : Stable P) (hQ : Stable Q) : Stable fun s => P s ∧ Q s where
  scene s scene h := ⟨hP.scene s scene h.1, hQ.scene s scene h.2⟩
  note s phase h := ⟨hP.note s phase h.1, hQ.note s phase h.2⟩
  depend s dependencies h := ⟨hP.depend s dependencies h.1, hQ.depend s dependencies h.2⟩
  population s members h := ⟨hP.population s members h.1, hQ.population s members h.2⟩
  mutated s i h := ⟨hP.mutated s i h.1, hQ.mutated s i h.2⟩
  submit s size i g h := ⟨hP.submit s size i g h.1, hQ.submit s size i g h.2⟩
  evaluated s i x h := ⟨hP.evaluated s i x h.1, hQ.evaluated s i x h.2⟩

end Search

/-- No condition counts mutations. -/
theorem Condition.map_step_mutation (cs : List Condition) : cs.map (Condition.step .mutation) = cs := by
  have hstep : ∀ c ∈ cs, Condition.step .mutation c = c := fun c _ => by cases c <;> rfl
  exact (List.map_congr_left hstep).trans (List.map_id' cs)

namespace SearchM
open Search (Crediting Growing Rearing Scenic Archival Idle Hardy Bearing Firm Fertile Steady Stable Closed)

variable {P : Search σ ω → Prop} (setup : Setup σ ω) (subject : Subject σ ω)

theorem keeps_times {body : SearchM σ ω Unit} (hbody : Keeps P body) (k : Nat) : Keeps P (times body k) := by
  induction k with
  | zero => exact .pure _
  | succ k ih => exact hbody.bind fun _ => ih

theorem keeps_resourcesLeft : Keeps P (resourcesLeft subject) := .bind .get fun _ => .pure _

/-! ### Crediting properties -/

section Crediting
variable (hP : Crediting P)
include hP

theorem keeps_submit (i : Nat) (g : Goal) : Keeps P (submit i g) := by
  refine Keeps.iff_wp.2 fun s hs => wp_submit fun log => ?_
  exact hP.submit _ _ i g (hP.scene s { s.scene with log := log } (.of_pool rfl) hs)

/-- Computing the fitness for a goal, as long as the evaluation is not over. -/
theorem keeps_evaluateFor (i : Nat) (g : Goal) : Keeps P (evaluateFor setup i g) := by
  have hcovers : Keeps P (onScene (Individual.covers setup.subject g i)) := fun s hs =>
    hP.scene s _ (Scene.Learns.keeps_covers g i s.scene (.refl _)) hs
  exact .bind hcovers fun _ => .ite (.bind (keeps_submit hP i g) fun _ => .pure _) (.pure _)

end Crediting

/-! ### Growing properties -/

section Growing
variable (hP : Growing P)
include hP

theorem keeps_aging {y : SceneM σ ω α} (hy : ∀ (s : Scene σ ω) generation, Keeps (s.Ages generation) y) :
    Keeps P (onScene y) := fun s hs => hP.scene s _ (hy s.scene s.generation s.scene (.refl _ _)) hs

theorem keeps_solutions : Keeps P (solutions subject) := by
  have hcovers : ∀ l, Keeps P (onScene (allCover subject l)) := fun l =>
    keeps_aging hP fun _ _ => .keeps_of_learns fun _ => .keeps_allCover l
  unfold solutions
  refine .bind .get fun _ => .bind (hcovers _) fun _ => .ite ?_ (.throw _)
  exact .bind .get fun _ => .pure _

theorem keeps_construct : Keeps P (construct setup) := by
  unfold construct
  refine .bind (keeps_aging hP fun _ _ => .keeps_act _) fun made => ?_
  split
  · exact .bind (keeps_aging hP fun _ _ => Individual.keeps_build Scene.Ages.timeless _) fun _ => .pure _
  · exact .bind (keeps_aging hP fun _ _ => .keeps_of_learns fun _ => .keeps_log _) fun _ => .pure _
  · exact .throw _

theorem keeps_selectParent : Keeps P (selectParent setup) :=
  .bind .get fun _ => .bind (keeps_aging hP fun _ _ => .keeps_act _) fun _ => .pure _

theorem keeps_activeGoals : Keeps P (activeGoals setup) := by
  have hlog (notice : Notice) : Keeps P (log notice) :=
    keeps_aging hP fun _ _ => .keeps_of_learns fun _ => .keeps_log notice
  unfold activeGoals
  refine .bind .get fun s => ?_
  split
  · exact .pure _
  · exact .throw _
  · have hgoals : ∀ goals : List Goal, Keeps P (do log (.activeGoals goals.length); return goals) :=
      fun _ => .bind (hlog _) fun _ => .pure _
    dsimp only
    split
    · exact .bind (hlog _) fun _ => hgoals _
    · exact hgoals _

end Growing

/-! ### Rearing properties -/

section Rearing
variable (hP : Rearing P)
include hP

theorem keeps_onMutation (i : Nat) : Keeps P (onMutation i) := by
  refine Keeps.iff_wp.2 fun s hs => ?_
  unfold onMutation
  rw [wp_bind, wp_signal, Condition.map_step_mutation, wp_bind, wp_get, wp_record]
  exact hP.mutated s i hs

theorem keeps_mutateOnce (i : Nat) : Keeps P (mutateOnce setup i) :=
  .bind (keeps_aging hP.toGrowing fun _ _ => .keeps_mutate i) fun _ => keeps_onMutation hP i

theorem keeps_mutateOffspring (i : Nat) : Keeps P (mutateOffspring setup i) := by
  have hread : Keeps P (onScene (SceneM.individual i)) := fun _ hs => hs
  unfold mutateOffspring
  refine .bind (keeps_mutateOnce setup hP i) fun _ => .bind hread fun _ => ?_
  exact .ite (keeps_mutateOnce setup hP i) (.pure _)

theorem keeps_revive : Keeps P (revive setup) := by
  unfold revive
  refine .bind (keeps_solutions _ hP.toGrowing) fun _ => .bind (keeps_aging hP.toGrowing fun _ _ => .keeps_act _) fun i => ?_
  refine .bind (keeps_aging hP.toGrowing fun _ _ => Individual.keeps_clone Scene.Ages.timeless i) fun i => ?_
  exact .bind (keeps_times (keeps_mutateOnce setup hP i) 2) fun _ => .pure _

theorem keeps_newcomer : Keeps P (newcomer setup) := by
  unfold newcomer
  refine .bind .get fun s => ?_
  have hnew : ∀ fresh : Bool, Keeps P (if fresh = true then construct setup else return some (← revive setup)) :=
    fun fresh => .ite (keeps_construct setup hP.toGrowing) (.bind (keeps_revive setup hP) fun _ => .pure _)
  split
  · exact .bind (.pure _) hnew
  · exact .bind (keeps_aging hP.toGrowing fun _ _ => .keeps_act _) hnew

end Rearing

/-! ### Scenic properties -/

section Scenic
variable (hP : Scenic P)
include hP

theorem keeps_onScene (y : SceneM σ ω α) : Keeps P (onScene y) := fun s hs => hP.scene s (y.run s.scene).2 hs

theorem keeps_log (notice : Notice) : Keeps P (log notice) := keeps_onScene hP _

theorem keeps_snapshot : Keeps P (snapshot subject) := by
  have hbest : ∀ g, Keeps P (bestFitness subject g) := fun g =>
    .bind .get fun _ => .bind (.mapM fun _ => keeps_onScene hP _) fun _ => .pure _
  unfold snapshot
  exact .bind .get fun _ => .bind (.mapM fun g => .bind (hbest g) fun _ => .pure _) fun _ => .pure _

theorem keeps_finalSolutions : Keeps P (finalSolutions setup) := by
  have hfront : ∀ members, Keeps P (nonDominated setup.subject members) := fun _ =>
    .bind .get fun _ => keeps_onScene hP _
  have harchived : Keeps P (archivedSolutions setup) :=
    .bind (keeps_solutions _ hP.growing) fun archived => .ite (hfront archived) (.pure _)
  have hbest : Keeps P (bestIndividuals setup) := .bind .get fun s => hfront s.population
  unfold finalSolutions
  exact .bind harchived fun _ => .ite hbest (.pure _)

end Scenic

/-! ### Archival properties -/

section Archival
variable (hP : Archival P)
include hP

theorem keeps_offer (g : Goal) (i : Nat) : Keeps P (offer subject g i) := by
  unfold offer
  refine .bind (keeps_onScene hP.toScenic _) fun _ => .ite (.pure _) (.bind (keeps_onScene hP.toScenic _) fun _ => ?_)
  exact .ite (keeps_submit hP.crediting i g) (.pure _)

theorem keeps_updateArchive (members : List Nat) : Keeps P (updateArchive subject members) := by
  unfold updateArchive
  refine .bind .get fun _ => .bind (.mapM fun g => .mapM fun i => keeps_offer subject hP g i) fun _ => ?_
  exact .bind .get fun _ => .bind (keeps_log hP.toScenic _) fun _ => .pure _

end Archival

/-! ### Idle properties -/

section Idle
variable (hP : Idle P)
include hP

theorem keeps_enter (phase : Phase) : Keeps P (enter phase) := .modify fun s => hP.note s _

theorem keeps_gatherDependencies : Keeps P (gatherDependencies setup) := by
  unfold gatherDependencies
  split
  · exact .pure _
  · exact .bind .get fun _ => .bind (.forM fun _ => keeps_log hP.toScenic _) fun _ => .modify fun s => hP.depend s _

theorem keeps_computeDominance (members : List Nat) (goals : List Goal) :
    Keeps P (computeDominance subject members goals) :=
  .bind (keeps_enter hP _) fun _ => keeps_onScene hP.toScenic _

end Idle

/-! ### Bearing properties -/

/-- What is constructed is new to the pool and counts as changed. -/
theorem wp_construct_new {s : Search σ ω} : wp (construct setup)
    (fun r t => ∀ i ∈ r, (t.scene.individual i).changed = true ∧ s.scene.pool.size ≤ i ∧ i < t.scene.pool.size)
    (fun _ _ => True) s := by
  unfold construct
  have hpool : wp (onScene (SceneM.act fun w => (.ok (setup.subject.make w).1, (setup.subject.make w).2)))
      (fun _ t => t.scene.pool.size = s.scene.pool.size) (fun _ _ => True) s := rfl
  refine wp_seq hpool fun made t ht => ?_
  split
  · rw [wp_bind, wp_onScene]
    refine wp_mono (Individual.wp_build [] _) (fun k u hpost => ?_) fun _ _ _ => trivial
    obtain ⟨rfl, hsize, hnew, -⟩ := hpost
    rintro i ⟨⟩
    refine ⟨?_, ht.ge, ?_⟩
    · rw [hnew]
    · show t.scene.pool.size < u.pool.size
      rw [hsize]
      exact Nat.lt_succ_self _
  · exact wp_seq wp_any fun _ _ _ => nofun
  · trivial

section Bearing
variable (hP : Bearing setup P)
include hP

theorem keeps_retain (i : Nat) : Keeps P (retain setup i) := by
  refine Keeps.iff_wp.2 fun s hs => ?_
  unfold retain
  rw [wp_bind, wp_onScene, SceneM.wp_individual, wp_ite]
  split
  · rename_i hretained
    unfold isRetained at hretained
    simp only [Bool.and_eq_true, decide_eq_true_eq] at hretained
    have hkept := wp_ends.2 (hP.evaluate s i hs hretained.1.1 hretained.1.2)
    exact wp_seq hkept fun _ _ ht => ht
  · exact hs

theorem keeps_breedFrom (parent i : Nat) : Keeps P (breedFrom setup parent i) := by
  unfold breedFrom
  refine .bind .get fun _ => .bind (keeps_onScene hP.toScenic _) fun _ => ?_
  refine .bind (keeps_onScene hP.toScenic _) fun _ => ?_
  exact .bind (keeps_times (keeps_mutateOffspring setup hP.rearing i) _) fun _ => keeps_retain setup hP i

theorem keeps_breedPairs (k : Nat) : Keeps P (breedPairs setup k) := by
  have hscene {α : Type} (y : SceneM σ ω α) : Keeps P (onScene y) := keeps_onScene hP.toScenic y
  induction k with
  | zero => exact .pure _
  | succ k ih =>
    unfold breedPairs
    refine .bind (keeps_resourcesLeft _) fun _ => .ite ?_ (.bind (hscene _) fun _ => .pure _)
    refine .bind (keeps_selectParent setup hP.growing) fun p₁ => ?_
    refine .bind (keeps_selectParent setup hP.growing) fun p₂ => ?_
    refine .bind (hscene _) fun o₁ => .bind (hscene _) fun o₂ => ?_
    refine .bind (keeps_breedFrom setup hP p₁ o₁) fun _ => .bind (keeps_breedFrom setup hP p₂ o₂) fun _ => ?_
    exact ih.bind fun _ => .pure _

theorem keeps_inject (k : Nat) : Keeps P (inject setup k) := by
  induction k with
  | zero => exact .pure _
  | succ k ih =>
    unfold inject
    refine .bind (keeps_newcomer setup hP.rearing) fun r => ?_
    split
    · refine .bind .get fun _ => .bind (keeps_onScene hP.toScenic _) fun _ => ?_
      exact .bind (keeps_retain setup hP _) fun _ => ih.bind fun _ => .pure _
    · exact ih

theorem keeps_breed : Keeps P (breed setup) := by
  unfold breed breedPopulation
  refine .bind (.bind .get fun _ => .ite (.pure _) (keeps_breedPairs setup hP _)) fun _ => ?_
  refine .bind (keeps_onScene hP.toScenic _) fun _ => .bind (keeps_inject setup hP _) fun _ => ?_
  exact .bind (keeps_log hP.toScenic _) fun _ => .pure _

theorem keeps_newMembers (k : Nat) : Keeps P (newMembers setup k) := by
  induction k with
  | zero => exact .pure _
  | succ k ih =>
    refine Keeps.iff_wp.2 fun s hs => ?_
    have hmade := wp_and (Keeps.iff_wp.1 (keeps_construct setup hP.growing) s hs) (wp_construct_new setup (s := s))
    unfold newMembers
    refine wp_seq (wp_mono hmade (fun _ _ h => h) fun _ _ h => h.1) fun r t ht => ?_
    obtain ⟨ht, hchanged⟩ := ht
    split
    · exact Keeps.iff_wp.1 ih t ht
    · rename_i i
      rw [wp_bind, wp_onScene, SceneM.wp_individual, wp_ite]
      split
      · exact Keeps.iff_wp.1 (.bind (keeps_log hP.toScenic _) fun _ => ih) t ht
      · rename_i hsize
        have haged : t.scene.Keeps [] (t.scene.modify i fun x => { x with age := t.generation }) := .modify fun _ => rfl
        have hbare := haged.bare i (Scene.lt_size_of_size_ne_zero hsize) (by simp)
        have hchanged' := (Individual.bare_eq_iff.1 hbare).2.1.trans (hchanged i rfl).1
        have hsize' : 0 < _ := Nat.pos_of_ne_zero ((Individual.size_of_bare hbare).trans_ne hsize)
        have hkept := wp_ends.2 (hP.evaluate _ i (hP.scene t _ ht) hchanged' hsize')
        rw [wp_bind, wp_get, wp_bind]
        exact wp_seq hkept fun _ _ hu => Keeps.iff_wp.1 (ih.bind fun _ => .pure _) _ hu

theorem keeps_randomPopulation : Keeps P (randomPopulation setup) :=
  .bind (keeps_newMembers setup hP _) fun _ => .bind (keeps_log hP.toScenic _) fun _ => .pure _

end Bearing

/-! ### Fertile properties -/

theorem keeps_evaluate (hP : Fertile P) (i : Nat) : Keeps P (evaluate setup i) := by
  have hover : Keeps P (onEvaluation setup.subject i) := by
    refine Keeps.iff_wp.2 fun s hs => ?_
    unfold onEvaluation
    rw [wp_bind, wp_signal, wp_bind, wp_get, wp_bind, wp_record, wp_notice]
    exact hP.scene _ _ (hP.evaluated s i _ hs)
  exact .bind .get fun _ => .bind (.forM (keeps_evaluateFor setup hP.crediting i)) fun _ => hover

theorem bearing_of_fertile (hP : Fertile P) : Bearing setup P where
  toHardy := hP.toFirm.hardy
  evaluate s i hs _ _ := keeps_evaluate setup hP i s hs

/-- A whole new population is bred. -/
theorem keeps_renew (hP : Bearing setup P) (hnote : ∀ s phase, P s → P { s with phase := phase })
    (hpopulation : ∀ s members, P s → P { s with population := members }) : Keeps P (renew setup) := by
  have henter : ∀ phase, Keeps P (enter phase) := fun phase => .modify fun s => hnote s phase
  unfold renew
  refine .bind (keeps_activeGoals setup hP.growing) fun _ => .bind (keeps_breed setup hP) fun _ => ?_
  refine .bind .get fun _ => .bind (keeps_log hP.toScenic _) fun _ => ?_
  refine .bind (.bind (henter _) fun _ => keeps_onScene hP.toScenic _) fun _ => ?_
  refine .bind (henter _) fun _ => .bind (keeps_onScene hP.toScenic _) fun members => ?_
  exact .bind (.modify fun s => hpopulation s members) fun _ => .pure _

theorem keeps_renew_of_stable (hP : Stable P) : Keeps P (renew setup) :=
  keeps_renew setup (bearing_of_fertile setup hP.toFertile) hP.note hP.population

/-! ### Parts of a run -/

section Parts
variable {Q R : Search σ ω → Prop} {E : Fault → Search σ ω → Prop} {s : Search σ ω}

/-- Populating keeps what holds right after the start and survives evaluations. -/
theorem wp_populate (hP : Stable P) (hs : ∀ time, P
    { s with
      phase := .initializing
      generation := 0
      conditions := s.conditions.map (Condition.step (.start time))
      events := s.events.push (.started time .initializing) }) :
    wp (populate setup) (fun _ => P) (fun _ => P) s := by
  have hmembers : Keeps P (randomPopulation setup >>= fun members => do
      modify fun s => { s with population := members }
      return members) :=
    .bind (keeps_randomPopulation setup (bearing_of_fertile setup hP.toFertile)) fun members =>
      .bind (.modify fun s => hP.population s members) fun _ => .pure _
  unfold populate onStart now
  rw [wp_bind, wp_modify, wp_bind, wp_bind, wp_bind, wp_get, wp_pure, wp_bind, wp_signal,
    wp_bind, wp_get, wp_record]
  refine wp_seq (Keeps.iff_wp.1 (keeps_gatherDependencies setup hP.toIdle) _ (hs _)) fun _ t ht => ?_
  exact Keeps.iff_wp.1 hmembers t ht

theorem wp_initialise (hP : Idle P) (hpopulate : wp (populate setup) (fun _ => P) (fun _ => P) s)
    (hfirst : ∀ t report, P t → P
      { t with
        conditions := t.conditions.map (Condition.step (.first report.snapshot.coverage))
        events := t.events.push (.first report) }) :
    wp (initialise setup) (fun _ => P) (fun _ => P) s := by
  unfold initialise
  refine wp_seq hpopulate fun members t ht => ?_
  refine wp_seq (Keeps.iff_wp.1 (keeps_updateArchive _ hP.toArchival _) t ht) fun _ t ht => ?_
  refine wp_seq (Keeps.iff_wp.1 (keeps_activeGoals setup hP.growing) t ht) fun _ t ht => ?_
  refine wp_seq (Keeps.iff_wp.1 (keeps_computeDominance _ hP _ _) t ht) fun _ t ht => ?_
  refine wp_seq (Keeps.iff_wp.1 (keeps_snapshot _ hP.toScenic) t ht) fun taken t ht => wp_imp wp_onFirst ?_
  rintro - _ ⟨log, report, rfl, rfl⟩
  exact hfirst _ report (hP.scene t { t.scene with log := log } ht)

/-- A generation in three parts: renewing, counting, and reporting. -/
theorem wp_advance (hP : Idle P) (hQ : Idle Q) (hE : ∀ e t, P t ∨ Q t → E e t)
    (hrenew : wp (renew setup) (fun _ => P) E { s with phase := .evolving })
    (hcount : ∀ t, P t → Q { t with generation := t.generation + 1 })
    (hreport : ∀ t generation memory report, Q t → R
      { t with
        conditions := t.conditions.map (Condition.step (.iteration report.snapshot.coverage memory))
        events := t.events.push (.iteration generation report) }) :
    wp (advance setup) (fun _ => R) E s := by
  unfold advance evolve
  rw [wp_bind, wp_enter, wp_bind, wp_bind]
  refine wp_imp hrenew fun union t ht => ?_
  refine wp_seq (wp_mono (Keeps.iff_wp.1 (keeps_updateArchive _ hP.toArchival union) t ht) (fun _ _ h => h)
    fun e t h => hE e t (.inl h)) fun _ t ht => ?_
  rw [wp_modify, wp_bind, wp_get]
  refine wp_seq (wp_mono (Keeps.iff_wp.1 (keeps_snapshot _ hQ.toScenic) _ (hcount t ht)) (fun _ _ h => h)
    fun e t h => hE e t (.inr h)) fun taken u hu => wp_imp wp_onIteration ?_
  rintro - _ ⟨log, memory, report, rfl, rfl⟩
  exact hreport _ _ memory report (hQ.scene u
    { u.scene with outside := setup.subject.notice .generationFinished u.scene.outside, log := log } hu)

theorem wp_finalise (hP : Scenic P) (hs : P
    { s with
      phase := .done
      conditions := s.conditions.map (Condition.step .finish)
      events := s.events.push (.finished .done) }) :
    wp (finalise setup) (fun _ => P) (fun _ => P) s := by
  unfold finalise onFinish
  rw [wp_bind, wp_enter, wp_bind, wp_bind, wp_signal, wp_bind, wp_get, wp_record]
  exact wp_seq (Keeps.iff_wp.1 (keeps_finalSolutions setup hP) _ hs) fun _ _ ht => ht

end Parts

/-! ### Whole runs -/

section Closed
variable (hP : Closed P)
include hP

theorem keeps_initialise : Keeps P (initialise setup) := by
  refine Keeps.iff_wp.2 fun s hs => wp_initialise setup hP.stable.toIdle (wp_populate setup hP.stable fun time => ?_)
    fun t report ht => hP.record _ _ (hP.signal t _ ht)
  exact hP.record _ _ (hP.signal _ _ (hP.note s 0 _ hs))

theorem keeps_evolve : Keeps P (evolve setup) :=
  .bind (keeps_renew_of_stable setup hP.stable) fun union =>
    .bind (keeps_updateArchive _ hP.stable.toArchival union) fun _ => .modify fun s => hP.note s _ _

theorem keeps_advance : Keeps P (advance setup) := by
  have hidle := hP.stable.toIdle
  refine Keeps.iff_wp.2 fun s hs => wp_advance setup hidle hidle (fun _ _ h => h.elim id id) ?_
    (fun t ht => hP.note t _ _ ht) fun t _ _ _ ht => hP.record _ _ (hP.signal t _ ht)
  exact Keeps.iff_wp.1 (keeps_renew_of_stable setup hP.stable) _ (hidle.note s _ hs)

theorem keeps_finalise : Keeps P (finalise setup) :=
  Keeps.iff_wp.2 fun s hs => wp_finalise setup hP.stable.toScenic
    (hP.record _ (.finished .done) (hP.signal _ .finish (hP.stable.note s .done hs)))

/-- A whole run keeps what no step can break. -/
theorem keeps_generate (fuel : Nat) : Keeps P (generate setup fuel) := by
  have hloop : Keeps P (advanceAll setup fuel) := Keeps.iff_wp.2 fun s hs =>
    wp_imp (wp_advanceAll (P := fun _ => P) (k := 0) hs (fun _ t ht _ => Keeps.iff_wp.1 (keeps_advance setup hP) t ht)
      fun _ ht _ => ht) fun _ _ ⟨_, ht, _⟩ => ht
  exact .bind (keeps_initialise setup hP) fun _ => .bind hloop fun _ => keeps_finalise setup hP

end Closed

end SearchM

/-! ### Events, archive and conditions -/

namespace Search

theorem closed_events (past : List (Event σ)) : Closed (ω := ω) fun s => past <+: s.events.toList where
  scene _ _ h := h
  note _ _ _ h := h
  depend _ _ h := h
  signal _ _ h := h
  population _ _ h := h
  record s event h := by
    rw [Array.toList_push]
    exact h.trans (List.prefix_append _ _)
  submit _ _ _ _ h := h

theorem closed_archive {R : Archive Nat → Prop} (hR : ∀ a size i g, R a → R (a.submit size i g).1) :
    Closed (σ := σ) (ω := ω) fun s => R s.archive where
  scene _ _ h := h
  note _ _ _ h := h
  depend _ _ h := h
  signal _ _ h := h
  population _ _ h := h
  record _ _ h := h
  submit s size i g h := hR s.archive size i g h

theorem closed_conditions {R : List Condition → Prop} (hR : ∀ cs x, R cs → R (cs.map (Condition.step x))) :
    Closed (σ := σ) (ω := ω) fun s => R s.conditions where
  scene _ _ h := h
  note _ _ _ h := h
  depend _ _ h := h
  signal s x h := hR s.conditions x h
  population _ _ h := h
  record _ _ h := h
  submit _ _ _ _ h := h

end Search

end GoalSearch
