import GoalSearch.Proofs.Search.Budget
import GoalSearch.Proofs.Search.Course

/-!
# Offspring

The offspring of a generation are new to the pool, of the age of the generation, not empty and not trivial, they are
evaluated, and nobody else is (`offspring_of_breed`). That they are the individuals which breeding adds to the accounts is
known from there (`Audited.wp_breed`). The rest is seen along the way: `Reared` searches have stamped with the present
generation whatever they evaluated, and a candidate is made, stamped and tried before it is evaluated.
-/

namespace GoalSearch

open Event (evaluationsFrom)

variable {σ ω : Type} {setup : Setup σ ω} {goals : List Goal} {start s t u : Search σ ω} {scene : Scene σ ω} {m i : Nat}

namespace Search

/-- On the scene there is the individual `i`, made since the search `u` and of its generation. -/
structure Stamped (u : Search σ ω) (i : Nat) (scene : Scene σ ω) : Prop where
  new : u.scene.pool.size ≤ i
  inPool : i < scene.pool.size
  age : (scene.individual i).age = u.generation

/-- In the generation of the search `u` the pool grew to `m` individuals at least, and whoever was evaluated since was
stamped and is not trivial. -/
structure Reared (setup : Setup σ ω) (u : Search σ ω) (m : Nat) (s : Search σ ω) : Prop where
  generation : s.generation = u.generation
  le : u.scene.pool.size ≤ m
  size_le : m ≤ s.scene.pool.size
  events_le : u.events.size ≤ s.events.size
  evaluated : ∀ e ∈ evaluationsFrom u.events.size s.events, u.Stamped e.1 s.scene ∧ setup.trivial e.2.content = false

theorem Stamped.ages (h : u.Stamped i s.scene) (hs : s.scene.Ages u.generation scene) : u.Stamped i scene where
  new := h.new
  inPool := Nat.lt_of_lt_of_le h.inPool hs.size_le
  age := (hs.age i h.inPool).elim (fun hage => hage.trans h.age) id

namespace Reared

theorem refl (setup : Setup σ ω) (u : Search σ ω) : Reared setup u u.scene.pool.size u where
  generation := rfl
  le := le_rfl
  size_le := le_rfl
  events_le := le_rfl
  evaluated e he := by simp [Event.evaluationsFrom_size] at he

theorem mono (h : Reared setup u m s) {n : Nat} (hle : u.scene.pool.size ≤ n) (hn : n ≤ m) : Reared setup u n s :=
  { h with le := hle, size_le := hn.trans h.size_le }

theorem rearing : Rearing (Reared setup u m) where
  scene s scene hs h :=
    { generation := h.generation
      le := h.le
      size_le := h.size_le.trans hs.size_le
      events_le := h.events_le
      evaluated := fun e he => ⟨(h.evaluated e he).1.ages (h.generation ▸ hs), (h.evaluated e he).2⟩ }
  mutated s i h :=
    { generation := h.generation
      le := h.le
      size_le := h.size_le
      events_le := by simpa using Nat.le_succ_of_le h.events_le
      evaluated := by
        rw [Event.evaluationsFrom_push_of_none h.events_le rfl]
        exact h.evaluated }

theorem rearing_stamped : Rearing fun s => Reared setup u m s ∧ u.Stamped i s.scene where
  scene s scene hs h := ⟨rearing.scene s scene hs h.1, h.2.ages (h.1.generation ▸ hs)⟩
  mutated s i h := ⟨rearing.mutated s i h.1, h.2⟩

theorem onPool (h : Reared setup u m s) (hpool : scene.pool = s.scene.pool) :
    Reared setup u m { s with scene := scene } := rearing.scene s scene (.of_learns (.of_pool hpool)) h

theorem setAge (h : Reared setup u m s) (i : Nat) :
    Reared setup u m { s with scene := s.scene.modify i fun x => { x with age := s.generation } } :=
  rearing.scene s _ (.modify (fun _ => .inr rfl) fun _ => ⟨rfl, rfl⟩) h

/-- While somebody is evaluated the content stays as it is. -/
theorem crediting_stamped (setup : Setup σ ω) (u : Search σ ω) (m i : Nat) (content : Content σ) : Crediting fun s =>
    Reared setup u m s ∧ u.Stamped i s.scene ∧ (s.scene.individual i).content = content where
  scene s scene hs h :=
    ⟨rearing.scene s scene (.of_learns hs) h.1, h.2.1.ages (.of_learns hs), (hs.content i).trans h.2.2⟩
  submit _ _ _ _ h := ⟨⟨h.1.generation, h.1.le, h.1.size_le, h.1.events_le, h.1.evaluated⟩, h.2⟩

/-- Somebody who is stamped and not trivial was evaluated. -/
theorem told (h : Reared setup u m s) (hi : u.Stamped i s.scene)
    (haccepted : setup.trivial (s.scene.individual i).content = false) {conditions : List Condition} {phase : Phase} :
    Reared setup u m
      { s with conditions := conditions, events := s.events.push (.evaluated i (s.scene.individual i) phase) } where
  generation := h.generation
  le := h.le
  size_le := h.size_le
  events_le := by simpa using Nat.le_succ_of_le h.events_le
  evaluated e he := by
    rw [Event.evaluationsFrom_push h.events_le, List.mem_append] at he
    rcases he with he | he
    · exact h.evaluated e he
    · obtain rfl : e = (i, s.scene.individual i) := by simpa [Event.evaluation?] using he
      exact ⟨hi, haccepted⟩

end Reared

end Search

namespace Search.Reared
open SearchM

theorem wp_evaluate (h : Reared setup u m s) (hi : u.Stamped i s.scene)
    (haccepted : setup.trivial (s.scene.individual i).content = false) :
    wp (evaluate setup i) (fun _ => Reared setup u m) (fun _ _ => True) s := by
  have hloop := Keeps.forM (l := s.archive.objectives)
    (keeps_evaluateFor setup (crediting_stamped setup u m i (s.scene.individual i).content) i)
  unfold evaluate onEvaluation
  rw [wp_bind, wp_get]
  refine wp_seq (hloop.wp_kept ⟨h, hi, rfl⟩) fun _ t hpost => ?_
  obtain ⟨ht, hi, hcontent⟩ := hpost
  rw [wp_bind, wp_signal, wp_bind, wp_get, wp_bind, wp_record, wp_notice]
  exact (ht.told hi (hcontent ▸ haccepted)).onPool rfl

theorem wp_retain (h : Reared setup u m s) (hi : u.Stamped i s.scene) :
    wp (retain setup i) (fun _ => Reared setup u m) (fun _ _ => True) s := by
  unfold retain
  rw [wp_bind, wp_onScene, SceneM.wp_individual]
  split
  · rename_i hretained
    simp only [isRetained, Bool.and_eq_true, Bool.not_eq_true'] at hretained
    exact wp_seq (h.wp_evaluate hi hretained.2) fun _ t ht => ht
  · exact h

/-- A candidate that is new to the pool is stamped. -/
theorem wp_stamp (h : Reared setup u m s) (hnew : u.scene.pool.size ≤ i) (hi : i < s.scene.pool.size) :
    wp (onScene (Individual.setAge i s.generation)) (fun _ t => Reared setup u m t ∧ u.Stamped i t.scene)
      (fun _ _ => True) s := by
  refine ⟨h.setAge i, hnew, ?_, ?_⟩
  · show i < (s.scene.modify i _).pool.size
    rwa [Scene.size_modify]
  · show ((s.scene.modify i _).individual i).age = u.generation
    rw [Scene.individual_modify_self hi]
    exact h.generation

theorem wp_breedFrom (h : Reared setup u m s) (hnew : u.scene.pool.size ≤ i) (hi : i < s.scene.pool.size) (parent : Nat) :
    wp (breedFrom setup parent i) (fun _ => Reared setup u m) (fun _ _ => True) s := by
  unfold breedFrom
  rw [wp_bind, wp_get, wp_bind]
  refine wp_seq ((h.setAge parent).wp_stamp hnew ?_) fun _ t ht => ?_
  · rwa [Scene.size_modify]
  · refine wp_seq ((keeps_times (keeps_mutateOffspring setup rearing_stamped i) _).wp_kept ht) fun _ t ht => ?_
    exact ht.1.wp_retain ht.2

/-- A copy is new to the pool. -/
theorem wp_clone (h : Reared setup u m s) (i : Nat) :
    wp (onScene (Individual.clone i)) (fun k t => m ≤ k ∧ Reared setup u (k + 1) t) (fun _ _ => True) s := by
  rw [SearchM.wp_onScene]
  refine wp_mono (Scene.Ages.wp_clone s.scene s.generation i) (fun k v hpost => ?_) fun _ _ _ => trivial
  obtain ⟨hk, hv, hages⟩ := hpost
  have hkept := rearing.scene s v hages h
  exact ⟨h.size_le.trans hk, { hkept with le := (h.le.trans (h.size_le.trans hk)).trans (Nat.le_succ k), size_le := hv }⟩

theorem wp_breedPairs (h : Reared setup u m s) (k : Nat) :
    wp (breedPairs setup k) (fun _ => Reared setup u m) (fun _ _ => True) s := by
  induction k generalizing s m with
  | zero => exact h
  | succ k ih =>
    unfold breedPairs
    rw [wp_bind, wp_resourcesLeft, wp_ite]
    split
    · refine wp_seq ((keeps_selectParent setup rearing.toGrowing).wp_kept h) fun p₁ t ht => ?_
      refine wp_seq ((keeps_selectParent setup rearing.toGrowing).wp_kept ht) fun p₂ t ht => ?_
      refine wp_seq (ht.wp_clone p₁) fun o₁ t hpost => ?_
      obtain ⟨ho₁, ht⟩ := hpost
      refine wp_seq (ht.wp_clone p₂) fun o₂ t hpost => ?_
      obtain ⟨ho₂, ht⟩ := hpost
      have hnew₁ := h.le.trans ho₁
      have hnew₂ : u.scene.pool.size ≤ o₂ := hnew₁.trans ((Nat.le_succ o₁).trans ho₂)
      refine wp_seq (ht.wp_breedFrom hnew₁ (by have := ht.size_le; omega) p₁) fun l₁ t ht => ?_
      refine wp_seq (ht.wp_breedFrom hnew₂ (by have := ht.size_le; omega) p₂) fun l₂ t ht => ?_
      refine wp_seq (ih ht) fun l t ht => ?_
      exact ht.mono h.le (by omega)
    · exact h.onPool rfl

theorem wp_revive (h : Reared setup u m s) :
    wp (revive setup) (fun k t => m ≤ k ∧ Reared setup u (k + 1) t) (fun _ _ => True) s := by
  unfold revive
  refine wp_seq ((keeps_solutions _ rearing.toGrowing).wp_kept h) fun _ t ht => ?_
  refine wp_seq ((keeps_aging rearing.toGrowing fun _ _ => .keeps_act _).wp_kept ht) fun i t ht => ?_
  refine wp_seq (ht.wp_clone i) fun k t hpost => ?_
  obtain ⟨hk, ht⟩ := hpost
  exact wp_seq ((keeps_times (keeps_mutateOnce setup rearing k) 2).wp_kept ht) fun _ t ht => ⟨hk, ht⟩

theorem wp_newcomer (h : Reared setup u m s) :
    wp (newcomer setup)
      (fun r t => Reared setup u m t ∧ ∀ i ∈ r, u.scene.pool.size ≤ i ∧ i < t.scene.pool.size) (fun _ _ => True) s := by
  have hconstruct : ∀ {s : Search σ ω}, Reared setup u m s → wp (construct setup)
      (fun r t => Reared setup u m t ∧ ∀ i ∈ r, u.scene.pool.size ≤ i ∧ i < t.scene.pool.size) (fun _ _ => True) s := by
    intro s h
    refine wp_mono (wp_and ((keeps_construct setup rearing.toGrowing).wp_kept h) (wp_construct_new setup)) ?_
      fun _ _ _ => trivial
    rintro r t ⟨ht, hr⟩
    exact ⟨ht, fun i hi => ⟨h.le.trans (h.size_le.trans (hr i hi).2.1), (hr i hi).2.2⟩⟩
  have hnew : ∀ (fresh : Bool) {s : Search σ ω}, Reared setup u m s →
      wp (if fresh = true then construct setup else return some (← revive setup))
        (fun r t => Reared setup u m t ∧ ∀ i ∈ r, u.scene.pool.size ≤ i ∧ i < t.scene.pool.size) (fun _ _ => True) s := by
    intro fresh s h
    split
    · exact hconstruct h
    · refine wp_seq h.wp_revive fun k t hpost => ?_
      obtain ⟨hk, ht⟩ := hpost
      refine ⟨ht.mono h.le (by omega), ?_⟩
      rintro i ⟨⟩
      exact ⟨h.le.trans hk, ht.size_le⟩
  unfold newcomer
  rw [wp_bind, wp_get]
  split
  · exact hnew true h
  · refine wp_seq ((keeps_aging rearing.toGrowing fun _ _ => .keeps_act _).wp_kept h) fun fresh t ht => ?_
    exact hnew fresh ht

theorem wp_inject (h : Reared setup u m s) (k : Nat) :
    wp (inject setup k) (fun _ => Reared setup u m) (fun _ _ => True) s := by
  induction k generalizing s with
  | zero => exact h
  | succ k ih =>
    unfold inject
    refine wp_seq h.wp_newcomer fun r t hpost => ?_
    obtain ⟨ht, hr⟩ := hpost
    cases r with
    | none => exact ih ht
    | some i =>
      obtain ⟨hnew, hi⟩ := hr i rfl
      dsimp only
      rw [wp_bind, wp_get]
      refine wp_seq (ht.wp_stamp hnew hi) fun _ t ht => ?_
      refine wp_seq (ht.1.wp_retain ht.2) fun l t ht => ?_
      exact wp_seq (ih ht) fun _ _ ht => ht

theorem wp_breed (h : Reared setup u m s) : wp (breed setup) (fun _ => Reared setup u m) (fun _ _ => True) s := by
  unfold breed breedPopulation
  refine wp_seq (Q := fun _ => Reared setup u m) ?_ fun bred t ht => ?_
  · rw [wp_bind, wp_get, wp_ite]
    split
    · exact h
    · exact h.wp_breedPairs _
  · refine wp_seq ((keeps_aging rearing.toGrowing fun _ _ => .keeps_act _).wp_kept ht) fun k t ht => ?_
    refine wp_seq (ht.wp_inject k) fun injected t ht => ?_
    exact ht.onPool rfl

end Search.Reared

/-! ### The offspring of a generation -/

/-- In the search `t` the individual `i` is an offspring of the generation that was to be bred in the search `u`. -/
structure Search.Offspring (setup : Setup σ ω) (u : Search σ ω) (i : Nat) (t : Search σ ω) : Prop where
  new : u.scene.pool.size ≤ i ∧ i < t.scene.pool.size
  not_mem_population : i ∉ u.population
  not_mem_solutions : i ∉ u.archive.solutions
  nonempty : 0 < (t.scene.individual i).size
  accepted : setup.trivial (t.scene.individual i).content = false
  age : (t.scene.individual i).age = u.generation
  evaluated : (t.scene.individual i).Evaluated u.archive.objectives

/-- Breeding from the search `u` on came back with `offspring` in the search `t`. -/
structure Search.Bears (setup : Setup σ ω) (u : Search σ ω) (offspring : List Nat) (t : Search σ ω) : Prop where
  bred : ∀ i ∈ offspring, u.Offspring setup i t
  nodup : offspring.Nodup
  /-- Observers are told of each offspring once, and of nobody else. -/
  told : (evaluationsFrom u.events.size t.events).map (·.1) = offspring
  /-- The evaluator of every goal is asked about each offspring once, and about nobody else. -/
  asked : ∀ asked, setup.subject.Records asked → ∀ n, asked t.scene.outside n = asked u.scene.outside n ++
    if .atom n ∈ u.archive.objectives then offspring.map fun i => (t.scene.individual i).content else []
  /-- There are no more than two for every pair of members, and one for every injection. -/
  length_le : offspring.length ≤ 2 * (Int.fdiv setup.options.population 2).toNat + setup.options.injections

theorem Settled.wp_breed (setup : Setup σ ω) {n : Nat} (h : Settled goals n u) :
    wp (SearchM.breed setup) (fun offspring t => u.Bears setup offspring t) (fun _ _ => True) u := by
  have haudited : Audited setup.subject .none u goals n u.population u.population [] [] u :=
    Tracked.audited h (fun _ _ => Contract.fits_none _) setup.subject
  have hspends := SearchM.spends_breed (n := u.events.size) setup 0 u ⟨le_rfl, by simp [Event.evaluationsFrom_size]⟩
  have hbred := wp_and (haudited.wp_breed setup.honours_none (List.Subset.refl _)) (Search.Reared.refl setup u).wp_breed
  refine wp_mono (wp_and hbred hspends) ?_ fun _ _ _ => trivial
  rintro offspring t ⟨⟨ht, hreared⟩, hwithin⟩
  have htold : (evaluationsFrom u.events.size t.events).map (·.1) = offspring := ht.accounts.made_eq
  have hlater : evaluationsFrom u.events.size t.events ⊆ evaluationsFrom n t.events :=
    Event.evaluationsFrom_subset_of_le h.events_le
  refine ⟨fun i hi => ?_, ht.accounts.nodup, htold, fun asked hasked k => ?_, ?_⟩
  · rw [← htold] at hi
    obtain ⟨⟨i, x⟩, he, rfl⟩ := List.mem_map.1 hi
    obtain ⟨hstamped, haccepted⟩ := hreared.evaluated _ he
    have hevaluated := ht.evaluated_of_mem (hlater he)
    have hcontent := (Individual.bare_eq_iff.1 (ht.evaluated _ (hlater he)).2.2).1
    -- whoever was evaluated before is in the pool already
    have hold : ∀ j, j ∈ u.population ∨ j ∈ u.archive.solutions → j ≠ i := by
      intro j hj
      obtain ⟨y, hy⟩ := h.exists_evaluation hj
      exact Nat.ne_of_lt (Nat.lt_of_lt_of_le (h.evaluated _ hy).2.1 hstamped.new)
    exact {
      new := ⟨hstamped.new, hstamped.inPool⟩
      not_mem_population := fun hi => hold i (.inl hi) rfl
      not_mem_solutions := fun hi => hold i (.inr hi) rfl
      nonempty := hevaluated.nonempty
      accepted := by rw [hcontent, haccepted]
      age := hstamped.age
      evaluated := h.objectives ▸ hevaluated }
  · have hcontents : (evaluationsFrom u.events.size t.events).map (·.2.content) =
        offspring.map fun i => (t.scene.individual i).content := by
      rw [← htold, List.map_map]
      exact List.map_congr_left fun e he => (Individual.bare_eq_iff.1 (ht.evaluated e (hlater he)).2.2).1.symm
    rw [h.objectives, ← hcontents]
    exact ht.accounts.asked_eq asked hasked k
  · rw [← htold, List.length_map, ← Nat.zero_add (_ + _)]
    exact hwithin.length_le

/-- Whatever breeding comes back with in a run is an offspring: new to the pool, neither of the population nor archived,
not empty, not trivial, of the age of the generation, and evaluated for all goals. The offspring are distinct, and nobody
else is evaluated on the way. -/
theorem offspring_of_breed (hs : Boundary setup goals start s) {active : List Goal}
    (hactive : (SearchM.activeGoals setup).run { s with phase := .evolving } = (.ok active, u)) {offspring : List Nat}
    (h : (SearchM.breed setup).run u = (.ok offspring, t)) : u.Bears setup offspring t := by
  have hsettled : Settled (Distinct.ofList goals) start.events.size { s with phase := .evolving } :=
    Tracked.note hs.settled
  have haudited := Tracked.audited hsettled (fun _ _ => Contract.fits_none _) setup.subject
  obtain ⟨-, hu⟩ := post_of_run_eq (haudited.wp_activeGoals (Contract.started_none setup _)) hactive
  have husettled : Settled (Distinct.ofList goals) start.events.size u :=
    hu.toTracked.settled (List.Subset.refl _) hsettled.kept_nodup
  exact post_of_run_eq (husettled.wp_breed setup) h

/-- Growing test cases, of which the short ones are trivial. One is injected in every generation. -/
def Sample.pruning : Setup Statement World :=
  { growing with
    options := { growing.options with testInsertionProbability := 0.5 }
    trivial := fun content => content.size == 1 }

/-- The first generation bears two longer test cases. A short one was made to be injected, but it is not kept. -/
theorem offspring_of_breed_pruning : ∃ s u t, Boundary Sample.pruning [.atom 0, .atom 1] Sample.unborn s ∧
    (SearchM.activeGoals Sample.pruning).run { s with phase := .evolving } = (.ok [.atom 1], u) ∧
    (SearchM.breed Sample.pruning).run u = (.ok [2, 3], t) ∧ u.Bears Sample.pruning [2, 3] t ∧
    u.population = [0, 1] ∧ t.scene.pool.size = 5 := by
  have hb : Boundary Sample.pruning [.atom 0, .atom 1] Sample.unborn _ :=
    .first (.new rfl) (run_eq_of_toOption (by decide +kernel))
  obtain ⟨u, hactive, t, hbreed, hends⟩ : ∃ u, (SearchM.activeGoals Sample.pruning).run
      { ((SearchM.initialise Sample.pruning).run Sample.unborn).2 with phase := .evolving } = (.ok [.atom 1], u) ∧
      ∃ t, (SearchM.breed Sample.pruning).run u = (.ok [2, 3], t) ∧ u.population = [0, 1] ∧ t.scene.pool.size = 5 :=
    ⟨_, run_eq_of_toOption (by decide +kernel), _, run_eq_of_toOption (by decide +kernel), by decide +kernel,
      by decide +kernel⟩
  exact ⟨_, u, t, hb, hactive, hbreed, offspring_of_breed hb hactive hbreed, hends⟩

end GoalSearch
