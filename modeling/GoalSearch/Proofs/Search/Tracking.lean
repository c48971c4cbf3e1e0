import GoalSearch.Proofs.Archive.Minimum
import GoalSearch.Proofs.Search.Credits
import GoalSearch.Proofs.Selection

/-!
# Keeping track of evaluations

`Event.evaluationsFrom n events` lists the evaluations that were recorded behind the first `n` events.
`Tracked goals n population kept own s` ties a search to them: every individual that was evaluated is as it was
then, but for age, rank and distance, and the archive stores for every goal what submitting the evaluated
individuals for the goals they cover makes it store. The members of `kept` are evaluated. Those of `own` are not;
only they may still be changed.
-/

namespace GoalSearch

variable {σ ω : Type}

/-! ### The evaluations -/

namespace Event
variable {events : Array (Event σ)} {n : Nat} {e : Event σ}

/-- The evaluation that an event is: the individual by number and as it was. -/
def evaluation? : Event σ → Option (Nat × Individual σ)
  | evaluated i x _ => some (i, x)
  | _ => none

/-- The evaluations behind the first `n` events. -/
def evaluationsFrom (n : Nat) (events : Array (Event σ)) : List (Nat × Individual σ) :=
  (events.toList.drop n).filterMap evaluation?

theorem evaluationsFrom_size : evaluationsFrom events.size events = [] := by
  unfold evaluationsFrom
  rw [List.drop_of_length_le (by simp), List.filterMap_nil]

theorem evaluationsFrom_push (h : n ≤ events.size) :
    evaluationsFrom n (events.push e) = evaluationsFrom n events ++ e.evaluation?.toList := by
  unfold evaluationsFrom
  rw [Array.toList_push, List.drop_append_of_le_length (by simpa using h), List.filterMap_append]
  cases he : e.evaluation? <;> simp [he]

theorem evaluationsFrom_push_of_none (h : n ≤ events.size) (he : e.evaluation? = none) :
    evaluationsFrom n (events.push e) = evaluationsFrom n events := by
  rw [evaluationsFrom_push h, he]
  exact List.append_nil _

theorem evaluationsFrom_subset_of_le {m : Nat} (h : n ≤ m) : evaluationsFrom m events ⊆ evaluationsFrom n events :=
  ((List.drop_sublist_drop_left _ h).filterMap evaluation?).subset

theorem evaluationsFrom_subset {past : Array (Event σ)} (h : past.toList <+: events.toList) :
    evaluationsFrom n past ⊆ evaluationsFrom n events :=
  ((h.sublist.drop n).filterMap evaluation?).subset

end Event

/-- What evaluations hand in: every individual for the goals that it covers, goal after goal. -/
def submissions (goals : List Goal) (evaluations : List (Nat × Individual σ)) : List (Nat × Goal) :=
  evaluations.flatMap fun e => (goals.filter e.2.knownToCover).map fun g => (e.1, g)

section Submissions
variable {goals : List Goal} {evaluations : List (Nat × Individual σ)} {i : Nat} {g : Goal}

theorem mem_submissions : (i, g) ∈ submissions goals evaluations ↔
    g ∈ goals ∧ ∃ x, (i, x) ∈ evaluations ∧ x.knownToCover g = true := by
  simp only [submissions, List.mem_flatMap, List.mem_map, List.mem_filter, Prod.mk.injEq]
  constructor
  · rintro ⟨⟨_, x⟩, he, _, ⟨hg, hx⟩, rfl, rfl⟩
    exact ⟨hg, x, he, hx⟩
  · rintro ⟨hg, x, he, hx⟩
    exact ⟨(i, x), he, g, ⟨hg, hx⟩, rfl, rfl⟩

theorem submissions_concat {x : Individual σ} : submissions goals (evaluations ++ [(i, x)]) =
    submissions goals evaluations ++ (goals.filter x.knownToCover).map fun g => (i, g) := by
  simp [submissions]

/-- For one goal the covering individuals are handed in, in the order of their evaluations. -/
theorem submittedFor_submissions (hnodup : goals.Nodup) (hg : g ∈ goals) :
    Archive.submittedFor g (submissions goals evaluations) =
      (evaluations.filter (·.2.knownToCover g)).map (·.1) := by
  have hone : ∀ x : Individual σ, (goals.filter x.knownToCover).filter (· = g) =
      if x.knownToCover g then [g] else [] := by
    intro x
    rw [List.filter_eq]
    split
    · rename_i hx
      rw [List.count_filter hx, List.count_eq_one_of_mem hnodup hg]
      rfl
    · rename_i hx
      rw [List.count_eq_zero_of_not_mem fun h => hx (List.mem_filter.1 h).2]
      rfl
  unfold Archive.submittedFor submissions
  induction evaluations with
  | nil => rfl
  | cons e evaluations ih =>
    rw [List.flatMap_cons, List.filter_append, List.map_append, ih, List.filter_map, List.map_map]
    show ((goals.filter e.2.knownToCover).filter (· = g)).map _ ++ _ = _
    rw [hone, List.filter_cons]
    split <;> simp

end Submissions

/-! ### The invariant -/

/-- Searches whose goals are `goals`, over the evaluations behind the first `n` events. -/
structure Tracked (goals : List Goal) (n : Nat) (population kept own : List Nat) (s : Search σ ω) : Prop where
  objectives : s.archive.objectives = goals
  partitioned : s.archive.Partitioned
  events_le : n ≤ s.events.size
  /-- An evaluated individual is as it was. -/
  evaluated : ∀ e ∈ Event.evaluationsFrom n s.events,
    e.2.Evaluated goals ∧ e.1 < s.scene.pool.size ∧ (s.scene.individual e.1).bare = e.2.bare
  smallest : s.archive.StoresSmallest (fun i => (s.scene.individual i).size)
    (submissions goals (Event.evaluationsFrom n s.events))
  population_eq : s.population = population
  of_kept : ∀ i ∈ kept, ∃ x, (i, x) ∈ Event.evaluationsFrom n s.events
  kept_nodup : kept.Nodup
  of_own : ∀ i ∈ own, (s.scene.individual i).IsTestCase ∧ ∀ e ∈ Event.evaluationsFrom n s.events, e.1 ≠ i
  own_nodup : own.Nodup

/-- Every individual that was evaluated is as it was then. -/
def Search.Intact (n : Nat) (s : Search σ ω) : Prop :=
  ∀ e ∈ Event.evaluationsFrom n s.events, (s.scene.individual e.1).bare = e.2.bare

namespace Tracked
variable {goals : List Goal} {n : Nat} {population kept own : List Nat} {s t : Search σ ω} {i : Nat}

theorem intact (h : Tracked goals n population kept own s) : s.Intact n := fun e he => (h.evaluated e he).2.2

theorem goals_nodup (h : Tracked goals n population kept own s) : goals.Nodup :=
  h.objectives ▸ h.partitioned.objectives_nodup

/-- An individual that was evaluated is so still. -/
theorem evaluated_of_mem (h : Tracked goals n population kept own s) {x : Individual σ}
    (hi : (i, x) ∈ Event.evaluationsFrom n s.events) : (s.scene.individual i).Evaluated goals :=
  (h.evaluated _ hi).1.of_bare (h.evaluated _ hi).2.2

theorem evaluated_of_kept (h : Tracked goals n population kept own s) (hi : i ∈ kept) :
    (s.scene.individual i).Evaluated goals := by
  obtain ⟨x, hx⟩ := h.of_kept i hi
  exact h.evaluated_of_mem hx

/-- An evaluated individual is as it was in any intact search that went on to record events. -/
theorem bare_eq_of_intact (h : Tracked goals n population kept own s) (ht : t.Intact n)
    (hevents : s.events.toList <+: t.events.toList) {x : Individual σ}
    (hx : (i, x) ∈ Event.evaluationsFrom n s.events) : (t.scene.individual i).bare = (s.scene.individual i).bare := by
  rw [(h.evaluated _ hx).2.2, ht _ (Event.evaluationsFrom_subset hevents hx)]

theorem bare_eq (h : Tracked goals n population kept own s) {population' kept' own' : List Nat}
    (ht : Tracked goals n population' kept' own' t) (hevents : s.events.toList <+: t.events.toList)
    (hi : i ∈ kept) : (t.scene.individual i).bare = (s.scene.individual i).bare := by
  obtain ⟨x, hx⟩ := h.of_kept i hi
  exact h.bare_eq_of_intact ht.intact hevents hx

theorem mono (h : Tracked goals n population kept own s) {kept' own' : List Nat} (hkept : kept' ⊆ kept)
    (hkept' : kept'.Nodup) (hown : own' ⊆ own) (hown' : own'.Nodup) : Tracked goals n population kept' own' s :=
  { h with
    of_kept := fun i hi => h.of_kept i (hkept hi)
    kept_nodup := hkept'
    of_own := fun i hi => h.of_own i (hown hi)
    own_nodup := hown' }

/-- Owning fewer. -/
theorem disown (h : Tracked goals n population kept own s) {own' : List Nat} (hown : own' ⊆ own)
    (hnodup : own'.Nodup) : Tracked goals n population kept own' s :=
  h.mono (List.Subset.refl _) h.kept_nodup hown hnodup

/-- What leaves the archive, the population and the evaluations, and changes only the owned individuals. -/
theorem frame (h : Tracked goals n population kept own s) (hscene : s.scene.Keeps own t.scene)
    (harchive : t.archive = s.archive) (hpopulation : t.population = s.population)
    (hsize : s.events.size ≤ t.events.size)
    (hevents : Event.evaluationsFrom n t.events = Event.evaluationsFrom n s.events) :
    Tracked goals n population kept own t where
  objectives := harchive ▸ h.objectives
  partitioned := harchive ▸ h.partitioned
  events_le := h.events_le.trans hsize
  evaluated e he := by
    rw [hevents] at he
    obtain ⟨heval, hlt, hbare⟩ := h.evaluated e he
    have hown : e.1 ∉ own := fun hmem => (h.of_own _ hmem).2 e he rfl
    exact ⟨heval, Nat.lt_of_lt_of_le hlt hscene.size_le, (hscene.bare _ hlt hown).trans hbare⟩
  smallest := by
    rw [hevents, harchive]
    refine h.smallest.congr fun p hp => ?_
    obtain ⟨-, x, hx, -⟩ := mem_submissions.1 (show (p.1, p.2) ∈ _ from hp)
    have hown : p.1 ∉ own := fun hmem => (h.of_own _ hmem).2 _ hx rfl
    exact Individual.size_of_bare (hscene.bare _ (h.evaluated _ hx).2.1 hown)
  population_eq := hpopulation.trans h.population_eq
  of_kept i hi := hevents ▸ h.of_kept i hi
  kept_nodup := h.kept_nodup
  of_own i hi := ⟨hscene.testCase i hi (h.of_own i hi).1, hevents ▸ (h.of_own i hi).2⟩
  own_nodup := h.own_nodup

theorem onScene (h : Tracked goals n population kept own s) {u : Scene σ ω} (hu : s.scene.Keeps own u) :
    Tracked goals n population kept own { s with scene := u } :=
  h.frame hu rfl rfl le_rfl rfl

/-- What a search notes beside its scene, archive, population and events is free. -/
theorem note (h : Tracked goals n population kept own s) {generation : Int} {phase : Phase}
    {conditions : List Condition} {dependencies : Option Dependencies} :
    Tracked goals n population kept own
      { s with
        generation := generation
        phase := phase
        conditions := conditions
        dependencies := dependencies } :=
  h.frame (.refl _ _) rfl rfl le_rfl rfl

theorem repopulate (h : Tracked goals n population kept own s) {members : List Nat} :
    Tracked goals n members kept own { s with population := members } :=
  { h with population_eq := rfl }

/-- An event that is no evaluation. -/
theorem wp_record (h : Tracked goals n population kept own s) {e : Event σ} (he : e.evaluation? = none)
    {E : Fault → Search σ ω → Prop} : wp (SearchM.record e) (fun _ => Tracked goals n population kept own) E s :=
  h.frame (.refl _ _) rfl rfl (by simp) (Event.evaluationsFrom_push_of_none h.events_le he)

/-- A test case that is new to the pool may be owned. -/
theorem adopt (h : Tracked goals n population kept own s) {u : Scene σ ω} (hu : s.scene.Keeps own u)
    (hi : s.scene.pool.size ≤ i) (htest : (u.individual i).IsTestCase) :
    Tracked goals n population kept (i :: own) { s with scene := u } := by
  have hu' := h.onScene hu
  refine { hu' with of_own := fun j hj => ?_, own_nodup := List.nodup_cons.2 ⟨fun hmem => ?_, h.own_nodup⟩ }
  · rcases List.mem_cons.1 hj with rfl | hj
    · exact ⟨htest, fun e he => Nat.ne_of_lt (Nat.lt_of_lt_of_le (h.evaluated e he).2.1 hi)⟩
    · exact hu'.of_own j hj
  · exact absurd (Scene.lt_size_of_isTestCase (h.of_own i hmem).1) (Nat.not_lt.2 hi)

/-! ### One more evaluation -/

/-- The individual `y` is `x` measured for the goals `done`. -/
structure Measured (done : List Goal) (x y : Individual σ) : Prop where
  content : y.content = x.content
  known : ∀ g ∈ done, ∃ v, y.refresh.cache.get? g = some v ∧ Fitness.InRange v
  unknown : ∀ g ∉ done, y.refresh.cache.get? g = none
  unchanged : done ≠ [] → y.changed = false

theorem Measured.knowing {done : List Goal} {x y : Individual σ} {g : Goal} {v : Float} (h : Measured done x y)
    (hv : Fitness.InRange v) : Measured (done ++ [g]) x (y.knowing g v) where
  content := Individual.content_knowing.trans h.content
  known k hk := by
    rw [Individual.refresh_knowing, Individual.get?_cache_knowing]
    split
    · exact ⟨v, rfl, hv⟩
    · rename_i hne
      rw [List.mem_append, List.mem_singleton] at hk
      exact h.known k (hk.resolve_right fun e => hne e.symm)
  unknown k hk := by
    rw [List.mem_append, List.mem_singleton, not_or] at hk
    rw [Individual.refresh_knowing, Individual.get?_cache_knowing, ite_eq_right_iff.2 fun e => absurd e.symm hk.2]
    exact h.unknown k hk.1
  unchanged _ := Individual.changed_knowing

theorem Measured.evaluated {x y : Individual σ} (h : Measured goals x y) (htest : x.IsTestCase)
    (hsize : 0 < x.size) : y.Evaluated goals where
  testCase := htest.of_content h.content
  nonempty := by
    show 0 < y.content.size
    rw [h.content]
    exact hsize
  unchanged := h.unchanged
  known g hg := Individual.refresh_of_unchanged (h.unchanged (List.ne_nil_of_mem hg)) ▸ h.known g hg

/-- One more goal is covered or not; what is known for other goals stays. -/
theorem Measured.filter_knowing {done : List Goal} {y : Individual σ} {g : Goal} {v : Float} (hg : g ∉ done) :
    (done ++ [g]).filter (y.knowing g v).refresh.knownToCover =
      done.filter y.refresh.knownToCover ++ if v == 0.0 then [g] else [] := by
  have hself : (y.knowing g v).refresh.knownToCover g = (v == 0.0) := by
    rw [Individual.knownToCover_knowing, ite_eq_left_iff.2 fun h => absurd rfl h]
  have hothers : ∀ k ∈ done, (y.knowing g v).refresh.knownToCover k = y.refresh.knownToCover k := by
    intro k hk
    have hne : g ≠ k := fun e => hg (e ▸ hk)
    rw [Individual.knownToCover_knowing, ite_eq_right_iff.2 fun e => absurd e hne]
  rw [List.filter_append, List.filter_congr hothers, List.filter_singleton, hself]
  cases v == 0.0 <;> rfl

theorem exists_abort_of_sanitised {subject : Subject σ ω} {g : Goal} {content : Content σ} {w : ω} {e : Fault}
    (h : Fitness.sanitised (subject.verdict g content w) = .error e) :
    ∃ k w, (subject.evaluate k content w).1 = .abort e := by
  have habort : ∀ {verdict : Verdict}, Fitness.sanitised verdict = .error e → verdict = .abort e := by
    rintro (_ | _ | _ | fault) h
    · cases h
    · cases h
    · cases h
    · rw [Except.error.inj h]
  cases g with
  | atom k => exact ⟨k, w, habort h⟩
  | overSuite serial inner => cases habort h

/-- The search `t` while the individual `i` is evaluated from `s` on, the goals `done` being done. -/
structure Evaluating (subject : Subject σ ω) (n i : Nat) (s : Search σ ω) (done : List Goal) (t : Search σ ω) :
    Prop where
  outside : t.scene.outside = done.foldl (fun w g => subject.asking g (s.scene.individual i).content w) s.scene.outside
  events : t.events = s.events
  population : t.population = s.population
  objectives : t.archive.objectives = s.archive.objectives
  partitioned : t.archive.Partitioned
  scene : s.scene.Keeps [i] t.scene
  size_eq : ∀ j, (t.scene.individual j).size = (s.scene.individual j).size
  measured : Measured done (s.scene.individual i) (t.scene.individual i)
  smallest : t.archive.StoresSmallest (fun j => (s.scene.individual j).size)
    (submissions s.archive.objectives (Event.evaluationsFrom n s.events) ++
      (done.filter (t.scene.individual i).refresh.knownToCover).map fun g => (i, g))
  credits : s.Credits subject t

variable {setup : Setup σ ω} {done : List Goal} {g : Goal}

/-- From `s` to `t` the individual `i` is evaluated: the evaluators of all goals were asked about it, once each. -/
structure Evaluation (subject : Subject σ ω) (goals : List Goal) (i : Nat) (s t : Search σ ω) : Prop where
  outside : t.scene.outside = subject.notice .evaluated
    (goals.foldl (fun w g => subject.asking g (s.scene.individual i).content w) s.scene.outside)
  scene : s.scene.Keeps [i] t.scene
  events : ∃ x phase, t.events = s.events.push (.evaluated i x phase) ∧ x.content = (s.scene.individual i).content
  credits : s.Credits subject t

/-- An evaluator gave up about the content of the individual, which nobody but that individual notices. -/
structure Abandoned (subject : Subject σ ω) (i : Nat) (s : Search σ ω) (e : Fault) (t : Search σ ω) : Prop where
  aborted : ∃ k w, (subject.evaluate k (s.scene.individual i).content w).1 = .abort e
  scene : s.scene.Keeps [i] t.scene
  events : t.events = s.events
  credits : s.Credits subject t

/-- The fitness for one more goal is computed, and the goal recorded if it is covered. -/
theorem Evaluating.wp_evaluateFor (h : Evaluating setup.subject n i s done t)
    (htest : (s.scene.individual i).IsTestCase) (hdone : g ∉ done) (hg : g ∈ s.archive.objectives) :
    wp (SearchM.evaluateFor setup i g) (fun _ => Evaluating setup.subject n i s (done ++ [g]))
      (Abandoned setup.subject i s) t := by
  have htest' : (t.scene.individual i).IsTestCase := h.scene.testCase i (by simp) htest
  have hi : i < t.scene.pool.size := Scene.lt_size_of_isTestCase htest'
  unfold SearchM.evaluateFor Individual.covers
  simp only [wp_bind, SearchM.wp_onScene]
  have howned : ∀ {y : Individual σ} {u : Scene σ ω}, t.scene.Sets i y u →
      y.content = (t.scene.individual i).content → s.scene.Keeps [i] u := fun hu hcontent =>
    h.scene.trans (.of_sets (List.mem_singleton_self i) hu fun htest => htest.of_content hcontent)
  refine wp_mono (wp_fitness_of_unknown hi htest' (h.measured.unknown g hdone)) (fun v u hpost => ?_) fun e u hpost => ?_
  rotate_left
  · obtain ⟨⟨he, houtside⟩, hu⟩ := hpost
    exact ⟨h.measured.content ▸ exists_abort_of_sanitised he, howned hu Individual.content_refresh, h.events,
      h.credits.trans (.of_asking houtside rfl)⟩
  obtain ⟨⟨hanswer, hasked⟩, hu⟩ := hpost
  have hv := Fitness.inRange_of_sanitised hanswer
  have houtside : u.outside = (done ++ [g]).foldl
      (fun w g => setup.subject.asking g (s.scene.individual i).content w) s.scene.outside := by
    rw [hasked, h.measured.content, h.outside, List.foldl_concat]
  have hsize : ∀ j, (u.individual j).size = (s.scene.individual j).size := by
    intro j
    rw [← h.size_eq j]
    by_cases hj : j = i
    · rw [hj, hu.self]
      exact congrArg Content.size Individual.content_knowing
    · rw [hu.others j hj]
  have hscene : s.scene.Keeps [i] u := howned hu Individual.content_knowing
  have hmeasured : Measured (done ++ [g]) (s.scene.individual i) (u.individual i) :=
    hu.self ▸ h.measured.knowing hv
  have hfilter : (done ++ [g]).filter (u.individual i).refresh.knownToCover =
      done.filter (t.scene.individual i).refresh.knownToCover ++ if v == 0.0 then [g] else [] :=
    hu.self ▸ Measured.filter_knowing hdone
  rw [wp_pure]
  cases hzero : v == 0.0 with
  | false =>
    refine ⟨houtside, h.events, h.population, h.objectives, h.partitioned, hscene, hsize, hmeasured, ?_,
      h.credits.trans (.of_asking hasked rfl)⟩
    rw [hfilter, hzero]
    simpa using h.smallest
  | true =>
    rw [ite_eq_left_iff.2 fun hn => absurd rfl hn, wp_bind]
    refine SearchM.wp_submit fun log =>
      ⟨houtside, h.events, h.population, ?_, h.partitioned.submit, ?_, hsize, hmeasured, ?_,
        h.credits.trans (.of_submit hanswer hzero hasked rfl)⟩
    · exact Archive.objectives_submit.trans h.objectives
    · exact hscene.trans (.of_pool rfl)
    · show Archive.StoresSmallest _ (_ ++ ((done ++ [g]).filter (u.individual i).refresh.knownToCover).map _) _
      rw [hfilter, hzero, ite_eq_left_iff.2 fun hn => absurd rfl hn, List.map_append, ← List.append_assoc]
      exact h.smallest.submit (h.objectives ▸ hg) (fun p _ => hsize p.1) (hsize i)

/-- Nobody who was evaluated is owned, so an owned individual can be kept. -/
theorem nodup_kept_concat (h : Tracked goals n population kept (i :: own) s) : (kept ++ [i]).Nodup := by
  refine List.nodup_append'.2 ⟨h.kept_nodup, List.nodup_singleton i, List.disjoint_singleton.2 fun hmem => ?_⟩
  obtain ⟨x, hx⟩ := h.of_kept i hmem
  exact (h.of_own i List.mem_cons_self).2 _ hx rfl

/-- The evaluation is recorded when all goals are done. -/
theorem Evaluating.finish {subject : Subject σ ω} (h : Tracked goals n population kept (i :: own) s)
    (hsize : 0 < (s.scene.individual i).size) (ht : Evaluating subject n i s goals t) {u : Search σ ω}
    (hpool : u.scene.pool = t.scene.pool) (harchive : u.archive = t.archive)
    (hpopulation : u.population = t.population) {phase : Phase}
    (hevents : u.events = t.events.push (.evaluated i (t.scene.individual i) phase)) :
    Tracked goals n population (kept ++ [i]) own u := by
  obtain ⟨htest, hfresh⟩ := h.of_own i List.mem_cons_self
  obtain ⟨hi, hown⟩ := List.nodup_cons.1 h.own_nodup
  have heval := ht.measured.evaluated htest hsize
  have hsame : ∀ j, u.scene.individual j = t.scene.individual j := fun j => by
    unfold Scene.individual
    rw [hpool]
  have hall : Event.evaluationsFrom n u.events =
      Event.evaluationsFrom n s.events ++ [(i, t.scene.individual i)] := by
    rw [hevents, ht.events, Event.evaluationsFrom_push h.events_le]
    rfl
  have hcovered : goals.filter (t.scene.individual i).refresh.knownToCover =
      goals.filter (t.scene.individual i).knownToCover := List.filter_congr fun g hg => by
    rw [Individual.refresh_of_unchanged (heval.unchanged (List.ne_nil_of_mem hg))]
  exact {
    objectives := harchive ▸ ht.objectives.trans h.objectives
    partitioned := harchive ▸ ht.partitioned
    events_le := by
      rw [hevents, ht.events, Array.size_push]
      exact Nat.le_succ_of_le h.events_le
    evaluated := by
      intro e he
      rw [hall, List.mem_append, List.mem_singleton] at he
      rw [hpool, hsame]
      rcases he with he | rfl
      · obtain ⟨hx, hlt, hbare⟩ := h.evaluated e he
        exact ⟨hx, Nat.lt_of_lt_of_le hlt ht.scene.size_le,
          (ht.scene.bare _ hlt (by simpa using hfresh e he)).trans hbare⟩
      · exact ⟨heval, Scene.lt_size_of_isTestCase heval.testCase, rfl⟩
    smallest := by
      have hsmall := ht.smallest
      rw [h.objectives, hcovered] at hsmall
      rw [hall, submissions_concat, harchive]
      exact hsmall.congr fun p _ => by rw [hsame, ht.size_eq]
    population_eq := hpopulation.trans (ht.population.trans h.population_eq)
    of_kept := by
      intro j hj
      rw [hall]
      rcases List.mem_append.1 hj with hj | hj
      · obtain ⟨x, hx⟩ := h.of_kept j hj
        exact ⟨x, List.mem_append_left _ hx⟩
      · rw [List.mem_singleton.1 hj]
        exact ⟨_, List.mem_append_right _ (List.mem_singleton_self _)⟩
    kept_nodup := h.nodup_kept_concat
    of_own := by
      intro j hj
      obtain ⟨htest, hne⟩ := h.of_own j (List.mem_cons_of_mem i hj)
      have hij : j ≠ i := fun e => hi (e ▸ hj)
      refine ⟨?_, fun e he => ?_⟩
      · rw [hsame]
        exact htest.of_bare (ht.scene.bare j (Scene.lt_size_of_isTestCase htest) (by simpa using hij))
      · rw [hall, List.mem_append, List.mem_singleton] at he
        rcases he with he | rfl
        · exact hne e he
        · exact hij.symm
    own_nodup := hown }

/-- A new individual is evaluated: it is kept from now on, and the archive takes notice of what it covers. -/
theorem wp_evaluate (h : Tracked goals n population kept (i :: own) s)
    (hchanged : (s.scene.individual i).changed = true) (hsize : 0 < (s.scene.individual i).size) :
    wp (SearchM.evaluate setup i)
      (fun _ t => Tracked goals n population (kept ++ [i]) own t ∧ Evaluation setup.subject goals i s t)
      (Abandoned setup.subject i s) s := by
  have htest : (s.scene.individual i).IsTestCase := (h.of_own i (by simp)).1
  have hloop : wp (s.archive.objectives.forM (SearchM.evaluateFor setup i))
      (fun _ => Evaluating setup.subject n i s s.archive.objectives) (Abandoned setup.subject i s) s := by
    refine wp_forM (fun done g rest hsplit t ht => ?_) ?_
    · have hnodup : (done ++ g :: rest).Nodup := by rw [← hsplit, h.objectives]; exact h.goals_nodup
      have hdone : g ∉ done := fun hmem => (List.nodup_append'.1 hnodup).2.2 hmem (by simp)
      exact ht.wp_evaluateFor htest hdone (by simp [hsplit])
    · refine ⟨rfl, rfl, rfl, rfl, h.partitioned, .refl _ _, fun _ => rfl, ⟨rfl, by simp, fun g _ => ?_, by simp⟩, ?_,
        .refl _ _⟩
      · rw [Individual.cache_refresh hchanged]; rfl
      · rw [h.objectives]
        simpa using h.smallest
  unfold SearchM.evaluate
  rw [wp_bind, wp_get, wp_bind]
  refine wp_mono hloop (fun _ t ht => ?_) fun _ _ h => h
  rw [h.objectives] at ht
  refine ⟨Evaluating.finish h hsize ht rfl rfl rfl rfl, ?_, ht.scene.trans (.of_pool rfl),
    ⟨_, t.phase, ?_, ht.measured.content⟩, ht.credits.trans (.of_quiet ((Subject.Quiet.refl _ _).notice _) rfl)⟩
  · rw [← ht.outside]
  · rw [← ht.events]

end Tracked

end GoalSearch
