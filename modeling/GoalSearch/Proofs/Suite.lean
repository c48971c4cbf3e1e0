import GoalSearch.Proofs.Variation
import GoalSearch.Search.Evolution

/-!
# Suites of evaluated individuals

A suite covers a goal if one of its members does (`Gathers.yields_covers`), so its coverage is the share of the
goals that some member covers (`wp_coverage`). The suite made of a search result has copies of the solutions as
its members and the goals of the search as its goals (`SearchResult.wp_toSuite`).
-/

namespace GoalSearch

variable {σ ω : Type} {subject : Subject σ ω} {s t u : Scene σ ω} {goals : List Goal} {members : List Nat}
  {suite : Nat}

/-- In `t` the individual `suite` holds the members, which are as in `u`, and it knows nothing wrong about which
goals they cover. -/
structure Gathers (goals : List Goal) (members : List Nat) (suite : Nat) (u t : Scene σ ω) : Prop where
  lt_size : suite < t.pool.size
  outside : t.outside = u.outside
  content : (t.individual suite).content = .suite members
  functions : (t.individual suite).functions = (u.individual suite).functions
  member : ∀ k ∈ members, t.individual k = u.individual k ∧ (u.individual k).Evaluated goals
  known : ∀ n, ∀ g ∈ goals, ∀ v, (t.individual suite).refresh.cache.get? (.overSuite n g) = some v →
    (v == 0.0) = members.any fun k => (u.individual k).knownToCover g

namespace Gathers

theorem ne_suite (h : Gathers goals members suite u t) {k : Nat} (hk : k ∈ members) : k ≠ suite := by
  rintro rfl
  obtain ⟨heq, heval⟩ := h.member k hk
  obtain ⟨statements, operator, e⟩ := heval.testCase
  rw [← heq, h.content] at e
  cases e

/-- What a suite learns of its members. -/
theorem run_values (h : Gathers goals members suite u t) {g : Goal} (hg : g ∈ goals) :
    (members.mapM (fitness subject g)).run t =
      (.ok (members.map fun k => (u.individual k).knownFitness g), t) := by
  refine (Yields.mapM fun k hk => Yields.of_run_eq ?_).run_eq
  obtain ⟨heq, heval⟩ := h.member k hk
  rw [← heq] at heval ⊢
  exact heval.run_fitness hg

theorem of_sets (h : Gathers goals members suite u t) {y : Individual σ} {t' : Scene σ ω}
    (ht : t.Sets suite y t') (houtside : t'.outside = t.outside) (hcontent : y.content = (t.individual suite).content)
    (hfunctions : y.functions = (t.individual suite).functions)
    (hknown : ∀ n, ∀ g ∈ goals, ∀ v, y.refresh.cache.get? (.overSuite n g) = some v →
      (v == 0.0) = members.any fun k => (u.individual k).knownToCover g) : Gathers goals members suite u t' where
  lt_size := ht.size.symm ▸ h.lt_size
  outside := houtside.trans h.outside
  content := by rw [ht.self, hcontent, h.content]
  functions := by rw [ht.self, hfunctions, h.functions]
  member k hk := by
    rw [ht.others k (h.ne_suite hk)]
    exact h.member k hk
  known := ht.self.symm ▸ hknown

theorem refresh (h : Gathers goals members suite u t) {t' : Scene σ ω}
    (ht : t.Sets suite (t.individual suite).refresh t') (houtside : t'.outside = t.outside) :
    Gathers goals members suite u t' := by
  refine h.of_sets ht houtside Individual.content_refresh Individual.functions_refresh fun n g hg v hv => ?_
  refine h.known n g hg v ?_
  rwa [Individual.refresh_of_unchanged Individual.changed_refresh] at hv

/-- The suite learns something right. -/
theorem knowing (h : Gathers goals members suite u t) {n : Nat} {g : Goal} {v : Float}
    (hv : (v == 0.0) = members.any fun k => (u.individual k).knownToCover g) {t' : Scene σ ω}
    (ht : t.Sets suite ((t.individual suite).knowing (.overSuite n g) v) t') (houtside : t'.outside = t.outside) :
    Gathers goals members suite u t' := by
  refine h.of_sets ht houtside Individual.content_refresh Individual.functions_refresh fun m k hk w hw => ?_
  rw [Individual.refresh_knowing, Individual.get?_cache_knowing] at hw
  split at hw
  · rename_i e
    obtain ⟨-, hgk⟩ := Goal.overSuite.inj e
    rw [← Option.some.inj hw, hv, hgk]
  · exact h.known m k hk w hw

/-- A suite covers a goal if a member does. -/
theorem yields_covers {g : Goal} (hg : g ∈ goals) (n : Nat) :
    Yields (Gathers goals members suite u) (Individual.covers subject (.overSuite n g) suite)
      (members.any fun k => (u.individual k).knownToCover g) := by
  intro t ht
  unfold Individual.covers
  rw [wp_bind]
  suffices h : wp (fitness subject (.overSuite n g) suite)
      (fun v t' => (v == 0.0) = (members.any fun k => (u.individual k).knownToCover g) ∧
        Gathers goals members suite u t') (fun _ _ => False) t from h
  cases hget : (t.individual suite).refresh.cache.get? (.overSuite n g) with
  | some v =>
    -- only an unchanged suite knows anything
    have hchanged : (t.individual suite).changed = false := by
      rw [Bool.eq_false_iff]
      intro hchanged
      rw [Individual.cache_refresh hchanged] at hget
      cases hget
    have hv := ht.known n g hg v hget
    rw [Individual.refresh_of_unchanged hchanged] at hget
    rw [wp_of_run_eq (run_fitness_of_known hchanged hget)]
    exact ⟨hv, ht⟩
  | none =>
    have hvalues : ∀ v ∈ members.map fun k => (u.individual k).knownFitness g, Fitness.InRange v := by
      intro v hv
      obtain ⟨k, hk, rfl⟩ := List.mem_map.1 hv
      exact (ht.member k hk).2.inRange hg
    rw [fitness]
    refine wp_imp (Q := fun v t' => ((v == 0.0) = (members.any fun k => (u.individual k).knownToCover g) ∧
      t'.outside = t.outside) ∧ t.Sets suite ((t.individual suite).knowing (.overSuite n g) v) t') ?_
      fun v t' hpost => ⟨hpost.1.1, ht.knowing hpost.1.1 hpost.2 hpost.1.2⟩
    refine wp_remember_of_unknown (R := fun v w => (v == 0.0) = (members.any fun k => (u.individual k).knownToCover g) ∧
      w = t.outside) ht.lt_size hget fun t₁ houtside ht₁ => ?_
    have hgathers := ht.refresh ht₁ houtside
    rw [wp_bind, SceneM.wp_individual, hgathers.content]
    dsimp only
    rw [wp_bind, wp_of_run_eq (hgathers.run_values hg),
      wp_of_run_eq (Fitness.run_check_of_inRange (Fitness.inRange_least hvalues))]
    refine ⟨⟨?_, houtside⟩, ht₁⟩
    rw [Fitness.least_beq_zero hvalues, List.any_map]
    rfl

/-- The coverage of a suite is the share of its goals that a member covers. No evaluator is asked for it. -/
theorem wp_coverage (h : Gathers goals members suite u t) (subject : Subject σ ω) {l : List Goal}
    (hl : l ⊆ goals) (hfunctions : (u.individual suite).functions = l.map (.overSuite suite)) :
    wp (Individual.coverage subject suite)
      (fun v t' => v =
        coverageRatio (l.countP fun g => members.any fun k => (u.individual k).knownToCover g) l.length ∧
        t'.outside = u.outside)
      (fun _ _ => False) t := by
  unfold Individual.coverage
  rw [wp_bind, SceneM.wp_individual, h.functions, hfunctions]
  dsimp only
  have hverdict : ∀ g ∈ l, Yields (Gathers goals members suite u)
      (Individual.covers subject (.overSuite suite g) suite)
      (members.any fun k => (u.individual k).knownToCover g) := fun g hg => yields_covers (hl hg) suite
  rw [List.mapM_map]
  refine wp_seq (Yields.mapM hverdict t h) fun verdicts t' hpost => ?_
  obtain ⟨hv, ht'⟩ := hpost
  refine ⟨?_, ht'.outside⟩
  rw [hv, List.length_map, List.count_eq_countP, List.countP_map]
  congr 1
  exact List.countP_congr fun g _ => by simp

/-- A suite can be summed up. -/
theorem wp_summary (h : Gathers goals members suite u t) (subject : Subject σ ω) {l : List Goal}
    (hl : l ⊆ goals) (hfunctions : (u.individual suite).functions = l.map (.overSuite suite)) :
    wp (Individual.summary subject suite)
      (fun r _ => r = ⟨members.length, (members.map fun k => (t.individual k).size).foldl (· + ·) 0,
        coverageRatio (l.countP fun g => members.any fun k => (u.individual k).knownToCover g) l.length⟩)
      (fun _ _ => False) t := by
  have hmembers : (Individual.members suite : SceneM σ ω (List Nat)).run t = (.ok members, t) := by
    refine run_eq_of_wp ?_
    unfold Individual.members
    rw [wp_bind, SceneM.wp_individual, h.content]
    exact ⟨rfl, rfl⟩
  have hindividual : ∀ k ∈ members, Yields (· = t) (SceneM.individual k) (t.individual k) := fun k _ => .of_run_eq rfl
  unfold Individual.summary Individual.statementCount
  rw [wp_bind, wp_of_run_eq hmembers, wp_bind, wp_bind, wp_of_run_eq (Yields.mapM hindividual).run_eq, wp_pure]
  refine wp_seq (h.wp_coverage subject hl hfunctions) fun x t' hx => ?_
  rw [wp_pure, hx.1, List.map_map]
  rfl

/-- A suite that counts as changed knows nothing, so nothing wrong. -/
theorem of_changed (hsuite : suite < u.pool.size) (hcontent : (u.individual suite).content = .suite members)
    (hchanged : (u.individual suite).changed = true) (hm : ∀ k ∈ members, (u.individual k).Evaluated goals) :
    Gathers goals members suite u u where
  lt_size := hsuite
  outside := rfl
  content := hcontent
  functions := rfl
  member k hk := ⟨rfl, hm k hk⟩
  known n g _ v hv := by
    rw [Individual.cache_refresh hchanged] at hv
    cases hv

end Gathers

/-! ### The suite of a search result -/

/-- Copies are what the originals are. -/
theorem Individual.wp_mapM_clone {E : Fault → Scene σ ω → Prop} {l : List Nat}
    (hl : ∀ i ∈ l, (s.individual i).IsTestCase) (hst : s.Keeps [] t) :
    wp (l.mapM clone) (fun ks u => t.Keeps [] u ∧
      ks.map (fun k => (u.individual k).bare) = l.map fun i => (s.individual i).bare) E t := by
  induction l generalizing t with
  | nil => exact ⟨.refl _ _, rfl⟩
  | cons i l ih =>
    have hbare := hst.bare i (Scene.lt_size_of_isTestCase (hl i (by simp))) (by simp)
    rw [List.mapM_cons, wp_bind, wp_of_run_eq (run_clone ((hl i (by simp)).of_bare hbare))]
    refine wp_seq (ih (fun j hj => hl j (by simp [hj])) (hst.trans .push)) fun ks u hpost => ?_
    obtain ⟨hu, hks⟩ := hpost
    refine ⟨Scene.Keeps.push.trans hu, ?_⟩
    rw [List.map_cons, List.map_cons, hks, hu.bare _ (by simp) (by simp), Scene.individual_push_size, hbare]

/-- The suite has copies of the solutions, and covers what they cover. -/
theorem SearchResult.wp_toSuite (subject : Subject σ ω) {E : Fault → Scene σ ω → Prop} {r : SearchResult}
    (hr : ∀ i ∈ r.solutions, (s.individual i).Evaluated goals) :
    wp (r.toSuite subject) (fun suite u => ∃ members, Gathers goals members suite u u ∧
      (u.individual suite).functions = (r.perGoal.map (·.1)).map (.overSuite suite) ∧
      ∀ g, (members.any fun k => (u.individual k).knownToCover g) =
        r.solutions.any fun i => (s.individual i).knownToCover g) E s := by
  unfold SearchResult.toSuite
  refine wp_seq (Individual.wp_mapM_clone (fun i hi => (hr i hi).testCase) (.refl _ _))
    fun members t hpost => ?_
  obtain ⟨ht, hmembers⟩ := hpost
  rw [wp_bind, SceneM.wp_add]
  have hforM :
      (r.perGoal.forM fun p => Individual.addFunction subject t.pool.size (.overSuite t.pool.size p.1)) =
      ((r.perGoal.map (·.1)).map (Goal.overSuite t.pool.size)).forM
        (Individual.addFunction subject t.pool.size) := by
    rw [List.map_map]
    exact (List.forM_map (l := r.perGoal) (g := Goal.overSuite t.pool.size ∘ fun p => p.1)
      (f := Individual.addFunction subject t.pool.size)).symm
  rw [hforM]
  refine wp_seq (Individual.wp_addFunctions (by simp) fun g hg hmax _ _ _ => ?_) fun _ u hu => ?_
  · obtain ⟨h, -, rfl⟩ := List.mem_map.1 hg
    cases hmax
  · have heval : ∀ k ∈ members, (t.individual k).Evaluated goals := by
      intro k hk
      obtain ⟨i, hi, hbare⟩ := List.mem_map.1 (hmembers ▸ List.mem_map_of_mem hk)
      exact (hr i hi).of_bare hbare.symm
    have hsame : ∀ k ∈ members, u.individual k = t.individual k := by
      intro k hk
      have hlt := Scene.lt_size_of_isTestCase (heval k hk).testCase
      rw [hu.others k (Nat.ne_of_lt hlt), Scene.individual_push_lt hlt]
    have hself := hu.self
    rw [Scene.individual_push_size] at hself
    refine ⟨members, .of_changed (by simp [hu.size]) (by rw [hself]) (by rw [hself]) fun k hk => ?_,
      by rw [hself]; rfl, fun g => ?_⟩
    · rw [hsame k hk]
      exact heval k hk
    · have hany : ∀ (v : Scene σ ω) (l : List Nat), (l.any fun k => (v.individual k).knownToCover g) =
          (l.map fun k => (v.individual k).bare).any (·.knownToCover g) := by
        intro v l
        rw [List.any_map]
        rfl
      have hbare : members.map (fun k => (u.individual k).bare) = members.map fun k => (t.individual k).bare :=
        List.map_congr_left fun k hk => by rw [hsame k hk]
      rw [hany s, ← hmembers, ← hbare, ← hany]

end GoalSearch
