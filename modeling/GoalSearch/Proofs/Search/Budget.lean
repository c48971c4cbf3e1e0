import GoalSearch.Proofs.Search.Closed
import GoalSearch.Proofs.Search.Run
import GoalSearch.Proofs.Session

/-!
# The budget of evaluations

A search looks at its budget in front of every generation and in front of every pair of offspring. So it may evaluate
the first population, or behind the last look at the budget one pair and the individuals to be injected, beyond its
limit but no more (`evaluations_le_of_run`). What a part of a search may evaluate at most is told by `Spends`.
-/

namespace GoalSearch

variable {σ ω α β : Type} {setup : Setup σ ω} {session : Session σ ω} {s t : Search σ ω} {n m k limit : Nat}

/-- The individuals that a generation may inject. -/
def SearchOptions.injections (options : SearchOptions) : Nat := (SearchM.injectionCount options).toOption.getD 0

theorem SearchOptions.injections_eq {options : SearchOptions} (h : SearchM.injectionCount options = .ok k) :
    options.injections = k := by
  rw [injections, h]
  rfl

/-! ### Spending -/

namespace Event
variable {events : Array (Event σ)} {e : Event σ}

/-- Behind the first `n` events at most `m` individuals are evaluated. -/
structure Within (n m : Nat) (events : Array (Event σ)) : Prop where
  le_size : n ≤ events.size
  length_le : (evaluationsFrom n events).length ≤ m

theorem Within.mono (h : Within n m events) {m' : Nat} (hm : m ≤ m') : Within n m' events :=
  ⟨h.le_size, h.length_le.trans hm⟩

theorem Within.push (h : Within n m events) (he : e.evaluation? = none) : Within n m (events.push e) where
  le_size := by simpa using Nat.le_succ_of_le h.le_size
  length_le := evaluationsFrom_push_of_none h.le_size he ▸ h.length_le

theorem Within.evaluated (h : Within n m events) (e : Event σ) : Within n (m + 1) (events.push e) where
  le_size := by simpa using Nat.le_succ_of_le h.le_size
  length_le := by
    rw [evaluationsFrom_push h.le_size, List.length_append]
    exact Nat.add_le_add h.length_le (by cases e.evaluation? <;> simp)

end Event

open Event (Within evaluationsFrom)

theorem Search.steady_within : Search.Steady (σ := σ) (ω := ω) fun s => Within n m s.events where
  scene _ _ h := h
  note _ _ h := h
  depend _ _ h := h
  population _ _ h := h
  mutated _ _ h := h.push rfl
  submit _ _ _ _ h := h

namespace SearchM

/-- The computation evaluates at most `k` individuals, however it ends. -/
def Spends (n k : Nat) (x : SearchM σ ω α) : Prop :=
  ∀ m s, Within n m s.events → wp x (fun _ t => Within n (m + k) t.events) (fun _ t => Within n (m + k) t.events) s

namespace Spends
variable {x : SearchM σ ω α} {f : α → SearchM σ ω β} {l : Nat}

theorem of_keeps (h : ∀ m, Keeps (fun s => Within n m s.events) x) : Spends n 0 x :=
  fun m s hs => Keeps.iff_wp.1 (h m) s hs

theorem mono (h : Spends n k x) (hk : k ≤ l) : Spends n l x := fun m s hs =>
  have hle : m + k ≤ m + l := Nat.add_le_add_left hk m
  wp_mono (h m s hs) (fun _ _ ht => ht.mono hle) fun _ _ ht => ht.mono hle

theorem pure (a : α) : Spends n k (Pure.pure a : SearchM σ ω α) :=
  (of_keeps fun _ => .pure a).mono (Nat.zero_le k)

theorem bind (hx : Spends n k x) (hf : ∀ a, Spends n l (f a)) : Spends n (k + l) (x >>= f) := by
  intro m s hs
  rw [wp_bind, ← Nat.add_assoc]
  exact wp_mono (hx m s hs) (fun a t ht => hf a (m + k) t ht) fun _ t ht => ht.mono (Nat.le_add_right _ l)

/-- In front nothing is spent. -/
theorem bind_free (hx : ∀ m, Keeps (fun s => Within n m s.events) x) (hf : ∀ a, Spends n k (f a)) :
    Spends n k (x >>= f) :=
  (bind (of_keeps hx) hf).mono (Nat.zero_add k).le

theorem then_pure (hx : Spends n k x) (v : α → β) : Spends n k (x >>= fun a => Pure.pure (v a)) :=
  hx.bind (l := 0) fun _ => .pure _

theorem ite {c : Prop} [Decidable c] {y : SearchM σ ω α} (hx : Spends n k x) (hy : Spends n k y) :
    Spends n k (if c then x else y) := by
  split
  · exact hx
  · exact hy

end Spends

variable (setup)

theorem spends_evaluate (i : Nat) : Spends n 1 (evaluate setup i) := by
  have hover : Spends n 1 (onEvaluation setup.subject i) := fun m s hs => by
    unfold onEvaluation
    rw [wp_bind, wp_signal, wp_bind, wp_get, wp_bind, wp_record, wp_notice]
    exact hs.evaluated _
  exact .bind_free (fun _ => .get) fun _ =>
    .bind_free (fun _ => .forM fun g => keeps_evaluateFor setup Search.steady_within.crediting i g) fun _ => hover

theorem spends_retain (i : Nat) : Spends n 1 (retain setup i) :=
  .bind_free (fun _ => keeps_onScene Search.steady_within.toScenic _) fun _ =>
    .ite ((spends_evaluate setup i).then_pure _) (.pure _)

theorem spends_breedFrom (parent i : Nat) : Spends n 1 (breedFrom setup parent i) :=
  .bind_free (fun _ => .get) fun _ => .bind_free (fun _ => keeps_onScene Search.steady_within.toScenic _) fun _ =>
    .bind_free (fun _ => keeps_onScene Search.steady_within.toScenic _) fun _ =>
      .bind_free (fun _ => keeps_times (keeps_mutateOffspring setup Search.steady_within.hardy.rearing i) _) fun _ =>
        spends_retain setup i

theorem spends_inject (k : Nat) : Spends n k (inject setup k) := by
  induction k with
  | zero => exact .pure _
  | succ k ih =>
    unfold inject
    refine .bind_free (fun _ => keeps_newcomer setup Search.steady_within.hardy.rearing) fun r => ?_
    split
    · refine .bind_free (fun _ => .get) fun _ => ?_
      refine .bind_free (fun _ => keeps_onScene Search.steady_within.toScenic _) fun _ => ?_
      exact ((spends_retain setup _).bind fun kept => ih.then_pure _).mono (Nat.add_comm 1 k).le
    · exact ih.mono (Nat.le_succ k)

theorem spends_breedPairs (k : Nat) : Spends n (2 * k) (breedPairs setup k) := by
  have hclone (i : Nat) (m : Nat) : Keeps (fun s : Search σ ω => Within n m s.events) (onScene (Individual.clone i)) :=
    keeps_onScene Search.steady_within.toScenic _
  induction k with
  | zero => exact .pure _
  | succ k ih =>
    unfold breedPairs
    refine .bind_free (fun _ => keeps_resourcesLeft _) fun _ => .ite ?_ ?_
    · refine .bind_free (fun _ => keeps_selectParent setup Search.steady_within.growing) fun p₁ => ?_
      refine .bind_free (fun _ => keeps_selectParent setup Search.steady_within.growing) fun p₂ => ?_
      refine .bind_free (hclone p₁) fun o₁ => .bind_free (hclone p₂) fun o₂ => ?_
      have hpair := (spends_breedFrom (n := n) setup p₁ o₁).bind fun kept₁ =>
        (spends_breedFrom setup p₂ o₂).bind fun kept₂ => ih.then_pure fun l => kept₁ ++ kept₂ ++ l
      exact hpair.mono (by omega)
    · exact .bind_free (fun _ => keeps_log Search.steady_within.toScenic _) fun _ => .pure _

theorem spends_breed :
    Spends n (2 * (Int.fdiv setup.options.population 2).toNat + setup.options.injections) (breed setup) := by
  unfold breed breedPopulation
  refine .bind (.bind_free (fun _ => .get) fun _ => .ite (.pure _) (spends_breedPairs setup _)) fun bred m s hs => ?_
  rw [wp_bind, wp_onScene, SceneM.wp_act]
  cases hcount : injectionCount setup.options with
  | error e => exact hs.mono (Nat.le_add_right _ _)
  | ok k =>
    rw [SearchOptions.injections_eq hcount]
    exact (spends_inject setup k).bind (l := 0)
      (fun _ => .bind_free (fun _ => keeps_log Search.steady_within.toScenic _) fun _ => .pure _) m _ hs

theorem spends_newMembers (k : Nat) : Spends n k (newMembers setup k) := by
  induction k with
  | zero => exact .pure _
  | succ k ih =>
    have hmore := ih.mono (Nat.le_succ k)
    unfold newMembers
    refine .bind_free (fun _ => keeps_construct setup Search.steady_within.growing) fun r => ?_
    split
    · exact hmore
    · refine .bind_free (fun _ => keeps_onScene Search.steady_within.toScenic _) fun _ => .ite ?_ ?_
      · exact .bind_free (fun _ => keeps_log Search.steady_within.toScenic _) fun _ => hmore
      · refine .bind_free (fun _ => .get) fun _ => ?_
        refine .bind_free (fun _ => keeps_onScene Search.steady_within.toScenic _) fun _ => ?_
        exact ((spends_evaluate setup _).bind fun _ => ih.then_pure _).mono (Nat.add_comm 1 k).le

theorem spends_populate : Spends n setup.options.population.toNat (populate setup) := by
  have hstart : ∀ m, Keeps (fun s => Within n m s.events) (onStart setup.subject) := fun m =>
    .bind (.bind .get fun _ => .pure _) fun _ => .bind (.modify fun _ h => h) fun _ => .modify fun _ h => h.push rfl
  unfold populate randomPopulation
  refine .bind_free (fun _ => .modify fun _ h => h) fun _ => .bind_free hstart fun _ => ?_
  refine .bind_free (fun _ => keeps_gatherDependencies setup Search.steady_within.toIdle) fun _ => ?_
  refine ((spends_newMembers setup _).bind (l := 0) fun members => ?_).bind (l := 0) fun members => ?_
  · exact .bind_free (fun _ => keeps_log Search.steady_within.toScenic _) fun _ => .pure _
  · exact .bind_free (fun _ => .modify fun _ h => h) fun _ => .pure _

end SearchM

/-! ### Keeping to the budget -/

namespace Search

/-- All conditions that count evaluations show the number of those behind the first `n` events. -/
structure Tallied (n : Nat) (s : Search σ ω) : Prop where
  le_size : n ≤ s.events.size
  shows : Tally.evaluations.Shows (evaluationsFrom n s.events).length s.conditions

theorem Tallied.told (h : s.Tallied n) {x : Signal} {e : Event σ} (he : e.evaluation? = none)
    (hx : ∀ k, Tally.evaluations.after x k = k) :
    Tallied n { s with conditions := s.conditions.map (Condition.step x), events := s.events.push e } where
  le_size := by simpa using Nat.le_succ_of_le h.le_size
  shows := by
    show Tally.Shows _ (evaluationsFrom n (s.events.push e)).length _
    rw [Event.evaluationsFrom_push_of_none h.le_size he, ← hx (List.length _)]
    exact h.shows.step x

theorem stable_tallied : Stable (σ := σ) (ω := ω) (Tallied n) where
  scene _ _ h := ⟨h.le_size, h.shows⟩
  note _ _ h := ⟨h.le_size, h.shows⟩
  depend _ _ h := ⟨h.le_size, h.shows⟩
  population _ _ h := ⟨h.le_size, h.shows⟩
  mutated s i h := by
    have ht := h.told (x := .mutation) (e := .mutated i s.phase) rfl fun _ => rfl
    rwa [Condition.map_step_mutation] at ht
  submit _ _ _ _ h := ⟨h.le_size, h.shows⟩
  evaluated s i x h := by
    refine ⟨by simpa using Nat.le_succ_of_le h.le_size, ?_⟩
    show Tally.Shows _ (evaluationsFrom n (s.events.push _)).length _
    rw [Event.evaluationsFrom_push h.le_size, List.length_append]
    exact h.shows.step .evaluation

/-- A search that was told to start has counted nothing. -/
theorem tallied_started {time : Int} {phase : Phase} {generation : Int} : Tallied s.events.size
    { s with
      phase := phase
      generation := generation
      conditions := s.conditions.map (Condition.step (.start time))
      events := s.events.push (.started time .initializing) } where
  le_size := by simp
  shows := by
    show Tally.Shows _ (evaluationsFrom s.events.size (s.events.push (.started time .initializing))).length _
    rw [Event.evaluationsFrom_push_of_none le_rfl rfl, Event.evaluationsFrom_size]
    exact Tally.shows_start _ time s.conditions

theorem Tallied.wp_advance (h : s.Tallied n) :
    wp (SearchM.advance setup) (fun _ => Tallied n) (fun _ => Tallied n) s := by
  have hidle : Idle (σ := σ) (ω := ω) (Tallied n) := stable_tallied.toIdle
  refine SearchM.wp_advance setup hidle hidle (fun _ _ h => h.elim id id) ?_
    (fun t ht => ⟨ht.le_size, ht.shows⟩) fun t _ _ _ ht => ht.told rfl fun _ => rfl
  exact Keeps.iff_wp.1 (SearchM.keeps_renew_of_stable setup stable_tallied) _ (hidle.note s .evolving h)

/-- However a run ends, its conditions show how many individuals it evaluated. -/
theorem wp_generate_tallied (fuel : Nat) :
    wp (SearchM.generate setup fuel) (fun _ => Tallied s.events.size) (fun _ => Tallied s.events.size) s := by
  have hidle : Idle (σ := σ) (ω := ω) (Tallied s.events.size) := stable_tallied.toIdle
  unfold SearchM.generate
  refine wp_seq (SearchM.wp_initialise setup hidle (SearchM.wp_populate setup stable_tallied fun _ => tallied_started)
    fun t _ ht => ht.told rfl fun _ => rfl) fun _ t ht => ?_
  refine wp_seq (SearchM.wp_advanceAll (P := fun _ => Tallied s.events.size) (k := 0) ht
    (fun _ t ht _ => ht.wp_advance) fun _ ht _ => ht) fun _ t ht => ?_
  obtain ⟨-, ht, -⟩ := ht
  exact SearchM.wp_finalise setup hidle.toScenic (hidle.note _ .done (ht.told rfl fun _ => rfl))

/-- Evaluations are counted and limited. -/
def Watched (n limit : Nat) (s : Search σ ω) : Prop :=
  s.Tallied n ∧ Tally.evaluations.Limited limit s.conditions

theorem stable_watched : Stable (σ := σ) (ω := ω) (Watched n limit) :=
  stable_tallied.and (closed_conditions (R := Tally.evaluations.Limited limit) fun _ x h => h.step x).stable

theorem bearing_watched (setup : Setup σ ω) : Bearing setup (Watched n limit) :=
  SearchM.bearing_of_fertile setup stable_watched.toFertile

/-- Evaluations are limited, and at most `m` were made. -/
structure Budgeted (n limit m : Nat) (s : Search σ ω) : Prop where
  watched : s.Watched n limit
  within : Within n m s.events

theorem steady_budgeted : Steady (σ := σ) (ω := ω) (Budgeted n limit m) where
  scene s scene h := ⟨stable_watched.scene s scene h.watched, h.within⟩
  note s _ h := ⟨stable_watched.note s _ h.watched, h.within⟩
  depend s _ h := ⟨stable_watched.depend s _ h.watched, h.within⟩
  population s members h := ⟨stable_watched.population s members h.watched, h.within⟩
  mutated s i h := ⟨stable_watched.mutated s i h.watched, h.within.push rfl⟩
  submit s size i g h := ⟨stable_watched.submit s size i g h.watched, h.within⟩

namespace Budgeted
open SearchM

theorem mono (h : s.Budgeted n limit m) {m' : Nat} (hm : m ≤ m') : s.Budgeted n limit m' :=
  ⟨h.watched, h.within.mono hm⟩

theorem told (h : s.Budgeted n limit m) {x : Signal} {e : Event σ} (he : e.evaluation? = none)
    (hx : ∀ k, Tally.evaluations.after x k = k) : Budgeted n limit m
      { s with conditions := s.conditions.map (Condition.step x), events := s.events.push e } :=
  ⟨⟨h.watched.1.told he hx, h.watched.2.step x⟩, h.within.push he⟩

/-- As long as resources are left the limit is not reached. -/
theorem spare (h : s.Budgeted n limit m) {now : Int} (hleft : resourcesLeft now s.conditions = true) :
    ∃ j, j < limit ∧ s.Budgeted n limit j :=
  ⟨_, Tally.lt_of_resourcesLeft h.watched.1.shows h.watched.2 hleft, h.watched, h.within.le_size, le_rfl⟩

section Steps
variable {x : SearchM σ ω α} {f : α → SearchM σ ω β} {j : Nat}

/-- What a part of a search may spend has to fit in. -/
theorem wp_spend (h : s.Budgeted n limit j) (hx : Spends n k x) (hwatched : Keeps (Watched n limit) x)
    (hfits : j + k ≤ m) (hf : ∀ a t, t.Budgeted n limit (j + k) →
      wp (f a) (fun _ => Budgeted n limit m) (fun _ => Budgeted n limit m) t) :
    wp (x >>= f) (fun _ => Budgeted n limit m) (fun _ => Budgeted n limit m) s := by
  have hboth := wp_and (Keeps.iff_wp.1 hwatched s h.watched) (hx j s h.within)
  rw [wp_bind]
  exact wp_mono hboth (fun a t ht => hf a t ⟨ht.1, ht.2⟩) fun _ t ht => ⟨ht.1, ht.2.mono hfits⟩

theorem wp_free (h : s.Budgeted n limit j) (hx : Keeps (Budgeted n limit j) x) (hfits : j ≤ m)
    (hf : ∀ a t, t.Budgeted n limit j →
      wp (f a) (fun _ => Budgeted n limit m) (fun _ => Budgeted n limit m) t) :
    wp (x >>= f) (fun _ => Budgeted n limit m) (fun _ => Budgeted n limit m) s := by
  rw [wp_bind]
  exact wp_mono (Keeps.iff_wp.1 hx s h) hf fun _ t ht => ht.mono hfits

end Steps

/-- Pairs are bred until the limit is reached, so the last one may go one beyond it. -/
theorem wp_breedPairs (h : s.Budgeted n limit (limit + 1)) (k : Nat) :
    wp (breedPairs setup k) (fun _ => Budgeted n limit (limit + 1)) (fun _ => Budgeted n limit (limit + 1)) s := by
  induction k generalizing s with
  | zero => exact h
  | succ k ih =>
    unfold breedPairs
    rw [wp_bind, wp_resourcesLeft, wp_ite]
    split
    · obtain ⟨j, hj, h⟩ := h.spare ‹_›
      have hfits : j ≤ limit + 1 := by omega
      have hclone (i : Nat) : Keeps (Budgeted (σ := σ) (ω := ω) n limit j) (onScene (Individual.clone i)) :=
        keeps_onScene steady_budgeted.toScenic _
      refine h.wp_free (keeps_selectParent setup steady_budgeted.growing) hfits fun p₁ t h => ?_
      refine h.wp_free (keeps_selectParent setup steady_budgeted.growing) hfits fun p₂ t h => ?_
      refine h.wp_free (hclone p₁) hfits fun o₁ t h => h.wp_free (hclone p₂) hfits fun o₂ t h => ?_
      refine h.wp_spend (spends_breedFrom setup p₁ o₁) (keeps_breedFrom setup (bearing_watched setup) p₁ o₁) (by omega)
        fun kept₁ t h => ?_
      refine h.wp_spend (spends_breedFrom setup p₂ o₂) (keeps_breedFrom setup (bearing_watched setup) p₂ o₂) (by omega)
        fun kept₂ t h => ?_
      exact wp_seq (ih (h.mono (by omega))) fun _ _ ht => ht
    · exact steady_budgeted.scene _ _ h

theorem wp_breed (h : s.Budgeted n limit (limit + 1)) :
    wp (breed setup) (fun _ => Budgeted n limit (limit + 1 + setup.options.injections))
      (fun _ => Budgeted n limit (limit + 1 + setup.options.injections)) s := by
  have hpairs : wp (breedPopulation setup) (fun _ => Budgeted n limit (limit + 1))
      (fun _ => Budgeted n limit (limit + 1)) s := by
    unfold breedPopulation
    rw [wp_bind, wp_get, wp_ite]
    split
    · exact h
    · exact h.wp_breedPairs _
  have hle : limit + 1 ≤ limit + 1 + setup.options.injections := Nat.le_add_right _ _
  unfold breed
  rw [wp_bind]
  refine wp_mono hpairs (fun bred t ht => ?_) fun _ t ht => ht.mono hle
  rw [wp_bind, wp_onScene, SceneM.wp_act]
  cases hcount : injectionCount setup.options with
  | error e => exact (steady_budgeted.scene t _ ht).mono hle
  | ok k =>
    rw [SearchOptions.injections_eq hcount] at hle ⊢
    refine (steady_budgeted.scene t _ ht).wp_spend (spends_inject setup k)
      (keeps_inject setup (bearing_watched setup) k) le_rfl fun injected u hu => ?_
    exact hu.wp_free (keeps_log steady_budgeted.toScenic _) le_rfl fun _ _ hv => hv

theorem wp_renew (h : s.Budgeted n limit (limit + 1)) (hm : limit + 1 + setup.options.injections ≤ m) :
    wp (renew setup) (fun _ => Budgeted n limit m) (fun _ => Budgeted n limit m) s := by
  have hle : limit + 1 ≤ m := (Nat.le_add_right _ _).trans hm
  unfold renew
  refine h.wp_free (keeps_activeGoals setup steady_budgeted.growing) hle fun active t ht => ?_
  rw [wp_bind]
  refine wp_mono ht.wp_breed (fun offspring t ht => ?_) fun _ t ht => ht.mono hm
  rw [wp_bind, wp_get]
  refine (ht.mono hm).wp_free (keeps_log steady_budgeted.toScenic _) le_rfl fun _ t ht => ?_
  refine ht.wp_free (keeps_computeDominance _ steady_budgeted.toIdle _ _) le_rfl fun _ t ht => ?_
  refine ht.wp_free (keeps_enter steady_budgeted.toIdle _) le_rfl fun _ t ht => ?_
  refine ht.wp_free (keeps_onScene steady_budgeted.toScenic _) le_rfl fun members t ht => ?_
  exact steady_budgeted.population t members ht

/-- A generation that begins with resources left keeps to the budget. -/
theorem wp_advance (h : s.Budgeted n limit m) (hgo : s.goesOn setup = true)
    (hm : limit + 1 + setup.options.injections ≤ m) :
    wp (advance setup) (fun _ => Budgeted n limit m) (fun _ => Budgeted n limit m) s := by
  obtain ⟨j, hj, h⟩ := h.spare (Bool.and_eq_true_iff.1 hgo).1
  refine SearchM.wp_advance setup steady_budgeted.toIdle steady_budgeted.toIdle (fun _ _ h => h.elim id id) ?_
    (fun t ht => ⟨⟨⟨ht.watched.1.le_size, ht.watched.1.shows⟩, ht.watched.2⟩, ht.within⟩)
    fun t _ _ _ ht => ht.told rfl fun _ => rfl
  exact wp_renew (steady_budgeted.note s .evolving (h.mono (by omega))) hm

theorem wp_finalise (h : s.Budgeted n limit m) :
    wp (finalise setup) (fun _ => Budgeted n limit m) (fun _ => Budgeted n limit m) s :=
  SearchM.wp_finalise setup steady_budgeted.toScenic (steady_budgeted.note _ .done (h.told rfl fun _ => rfl))

theorem wp_initialise (h : Tally.evaluations.Limited limit s.conditions)
    (hm : setup.options.population.toNat ≤ m) :
    wp (initialise setup) (fun _ => Budgeted s.events.size limit m) (fun _ t => Within s.events.size m t.events) s := by
  have hstart : Within s.events.size 0 s.events := ⟨le_rfl, (congrArg List.length Event.evaluationsFrom_size).le⟩
  have hpopulate := wp_and (wp_populate setup stable_watched fun time => ⟨tallied_started, h.step (.start time)⟩)
    (spends_populate setup 0 s hstart)
  rw [Nat.zero_add] at hpopulate
  exact wp_mono (SearchM.wp_initialise setup steady_budgeted.toIdle
    (wp_mono hpopulate (fun _ _ ht => ⟨ht.1, ht.2.mono hm⟩) fun _ _ ht => ⟨ht.1, ht.2.mono hm⟩)
    fun t _ ht => ht.told rfl fun _ => rfl) (fun _ _ ht => ht) fun _ _ ht => ht.within

end Budgeted

/-- A run evaluates no more than its first population has places, or no more than one pair and the injected individuals
beyond its limit. -/
theorem wp_generate_within (fuel : Nat) (h : Tally.evaluations.Limited limit s.conditions)
    (hm : m = max setup.options.population.toNat (limit + 1 + setup.options.injections)) :
    wp (SearchM.generate setup fuel) (fun _ t => Within s.events.size m t.events)
      (fun _ t => Within s.events.size m t.events) s := by
  unfold SearchM.generate
  refine wp_seq (Budgeted.wp_initialise h (hm ▸ Nat.le_max_left _ _)) fun _ t ht => ?_
  refine wp_seq (SearchM.wp_advanceAll (P := fun _ => Budgeted s.events.size limit m) (k := 0) ht (fun _ t ht hgo => ?_)
    fun t ht _ => ht.within) fun _ t ht => ?_
  · exact wp_mono (ht.wp_advance hgo (hm ▸ Nat.le_max_right _ _)) (fun _ _ h => h) fun _ _ h => h.within
  · obtain ⟨-, ht, -⟩ := ht
    exact wp_mono ht.wp_finalise (fun _ _ h => h.within) fun _ _ h => h.within

end Search

/-! ### Sessions -/

namespace Session

theorem keeps_reportEnd : Keeps (fun s => Within n m s.events) (reportEnd setup) := by
  have hlog (notice : Notice) : Keeps (fun s => Within n m s.events) (SearchM.log notice : SearchM σ ω Unit) :=
    SearchM.keeps_log Search.steady_within.toScenic notice
  unfold reportEnd
  refine .bind (SearchM.keeps_resourcesLeft _) fun _ => .ite (hlog _) (.bind (hlog _) fun _ => ?_)
  exact .bind (.bind .get fun _ => .pure _) fun _ => .bind .get fun _ => .forM fun _ => hlog _

theorem wp_run_within (hlimit : session.config.stopping.maximumFitnessEvaluations = limit) (fuel : Nat)
    (hm : m = max session.config.search.population.toNat (limit + 1 + session.config.search.injections)) :
    wp (session.run fuel) (fun _ t => Within s.events.size m t.events)
      (fun _ t => Within s.events.size m t.events) s := by
  have hnone : Within s.events.size m s.events :=
    ⟨le_rfl, (congrArg List.length Event.evaluationsFrom_size).le.trans (Nat.zero_le m)⟩
  have hsearch {setup : Setup σ ω} {t : Search σ ω} (ht : session.Prepared s setup t) :
      wp (session.search fuel setup) (fun _ u => Within s.events.size m u.events)
        (fun _ u => Within s.events.size m u.events) t := by
    unfold search
    rw [wp_bind, SearchM.wp_log, ← ht.events]
    refine wp_seq (Search.wp_generate_within fuel ⟨0, ht.conditions .evaluations limit hlimit⟩ (by rw [hm, ht.options]))
      fun result u hu => ?_
    exact wp_seq (Keeps.iff_wp.1 keeps_reportEnd u hu) fun _ _ h => h
  unfold run
  rw [wp_bind]
  refine wp_mono wp_prepare (fun setup t ht => ?_) fun _ t ht => by rwa [ht]
  rw [wp_bind, wp_always]
  exact wp_mono (hsearch ht) (fun result u hu => hu) fun _ u hu => hu

end Session

/-- With a limit on evaluations a session never evaluates more individuals than its first population has places, or, if
that is more, than a pair and the individuals to be injected beyond the limit: at no point of its run, and in no run
that fails. -/
theorem evaluations_le_of_run (hlimit : session.config.stopping.maximumFitnessEvaluations = limit) (fuel : Nat)
    (s : Search σ ω) {past : List (Event σ)} (hpast : past <+: ((session.run fuel).run s).2.events.toList) :
    ((past.drop s.events.size).filterMap Event.evaluation?).length ≤
      max session.config.search.population.toNat (limit + 1 + session.config.search.injections) := by
  have hend := wp_ends.1 (Session.wp_run_within (s := s) hlimit fuel rfl)
  exact (((hpast.sublist.drop _).filterMap _).length_le).trans hend.length_le

/-- Two places, one individual to be injected, and a limit of three evaluations. -/
def Sample.limited : Session Statement World where
  config :=
    { search := { population := 2, testInsertionProbability := 0.5 }
      stopping := { maximumFitnessEvaluations := 3 } }
  goals := [.atom 0, .atom 1]
  subject := shortAndLong.subject

/-- Below the limit by one, the search breeds a pair and injects one individual more. -/
theorem evaluations_le_of_run_limited :
    (((Sample.limited.run 5).run Sample.unborn).2.events.toList.filterMap Event.evaluation?).length = 5 ∧
    (((Sample.limited.run 5).run Sample.unborn).2.events.toList.filterMap Event.evaluation?).length ≤
      max 2 (3 + 1 + Sample.limited.config.search.injections) ∧
    max 2 (3 + 1 + Sample.limited.config.search.injections) = 5 :=
  ⟨by decide +kernel,
    @evaluations_le_of_run _ _ Sample.limited 3 rfl 5 Sample.unborn _ (List.prefix_refl _),
    by decide +kernel⟩

end GoalSearch
