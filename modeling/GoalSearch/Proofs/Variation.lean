import GoalSearch.Proofs.Fitness
import GoalSearch.Proofs.Reading
import GoalSearch.Search.Breeding

/-!
# Steps that leave individuals alone

`s.Keeps own t`: from the scene `s` to the scene `t` no individual of `s` changed but in its age, rank and
distance, save those in `own`, which may have changed in any way but are test cases still. Ranking, crowding
and copying own nobody, a mutation owns its test case.
-/

namespace GoalSearch

variable {σ ω : Type} {subject : Subject σ ω} {s t u : Scene σ ω} {own : List Nat} {i j : Nat}
  {x : Individual σ}

namespace Scene

theorem lt_size_of_isTestCase (h : (s.individual i).IsTestCase) : i < s.pool.size := by
  by_contra hi
  rw [individual_of_le (Nat.not_lt.1 hi)] at h
  obtain ⟨statements, operator, e⟩ := h
  cases e

theorem lt_size_of_size_ne_zero (h : (s.individual i).size ≠ 0) : i < s.pool.size := by
  by_contra hi
  rw [individual_of_le (Nat.not_lt.1 hi)] at h
  exact h rfl

theorem lt_size_of_content {members : List Nat} (h : (s.individual i).content = .suite members) : i < s.pool.size := by
  by_contra hi
  rw [individual_of_le (Nat.not_lt.1 hi)] at h
  cases h

structure Keeps (own : List Nat) (s t : Scene σ ω) : Prop where
  size_le : s.pool.size ≤ t.pool.size
  bare : ∀ i < s.pool.size, i ∉ own → (t.individual i).bare = (s.individual i).bare
  testCase : ∀ i ∈ own, (s.individual i).IsTestCase → (t.individual i).IsTestCase

namespace Keeps

theorem refl (own : List Nat) (s : Scene σ ω) : Keeps own s s := ⟨le_rfl, fun _ _ _ => rfl, fun _ _ h => h⟩

theorem trans (h : Keeps own s t) (h' : Keeps own t u) : Keeps own s u where
  size_le := h.size_le.trans h'.size_le
  bare i hi hown := (h'.bare i (Nat.lt_of_lt_of_le hi h.size_le) hown).trans (h.bare i hi hown)
  testCase i hown hs := h'.testCase i hown (h.testCase i hown hs)

theorem of_bare (hsize : s.pool.size ≤ t.pool.size)
    (h : ∀ i < s.pool.size, (t.individual i).bare = (s.individual i).bare) : Keeps own s t :=
  ⟨hsize, fun i hi _ => h i hi, fun i _ hs => hs.of_bare (h i (lt_size_of_isTestCase hs))⟩

theorem of_pool (hpool : t.pool = s.pool) : Keeps own s t :=
  of_bare (by rw [hpool]) fun i _ => by unfold individual; rw [hpool]

theorem mono (h : Keeps own s t) {own' : List Nat} (hsub : own ⊆ own') : Keeps own' s t where
  size_le := h.size_le
  bare i hi hown := h.bare i hi fun hmem => hown (hsub hmem)
  testCase i _ hs := by
    by_cases hi : i ∈ own
    · exact h.testCase i hi hs
    · exact hs.of_bare (h.bare i (lt_size_of_isTestCase hs) hi)

theorem push : Keeps own s (s.push x) :=
  of_bare (by simp) fun i hi => by rw [individual_push_lt hi]

/-- Notes on any individual are free. -/
theorem modify {f : Individual σ → Individual σ} (hf : ∀ x, (f x).bare = x.bare) :
    Keeps own s (s.modify i f) := by
  refine of_bare (by simp) fun j hj => ?_
  by_cases hij : i = j
  · rw [← hij, individual_modify_self (hij ▸ hj), hf]
  · rw [individual_modify_ne hij]

/-- The owned individual may change at will. -/
theorem of_sets (hi : i ∈ own) (ht : s.Sets i x t) (hx : (s.individual i).IsTestCase → x.IsTestCase) :
    Keeps own s t where
  size_le := ht.size.ge
  bare j _ hj := by rw [ht.others j fun e => hj (e ▸ hi)]
  testCase j _ hs := by
    by_cases hij : j = i
    · rw [hij, ht.self]
      exact hx (hij ▸ hs)
    · rwa [ht.others j hij]

end Keeps

/-- From `s` to `t` nothing happens but that ages, ranks and distances are noted and the log goes on. -/
structure Noted (s t : Scene σ ω) : Prop where
  keeps : s.Keeps [] t
  outside : t.outside = s.outside

namespace Noted

theorem refl (s : Scene σ ω) : s.Noted s := ⟨.refl _ _, rfl⟩

theorem modify (h : s.Noted t) {f : Individual σ → Individual σ} (hf : ∀ x, (f x).bare = x.bare) :
    s.Noted (t.modify i f) := ⟨h.keeps.trans (.modify hf), h.outside⟩

theorem logged (h : s.Noted t) (notice : Notice) : s.Noted (t.logged notice) :=
  ⟨h.keeps.trans (.of_pool rfl), h.outside⟩

end Noted

/-- The scene with some more individuals. -/
def extend (s : Scene σ ω) (xs : List (Individual σ)) : Scene σ ω := { s with pool := s.pool ++ xs.toArray }

variable {xs : List (Individual σ)} {j : Nat}

theorem size_extend : (s.extend xs).pool.size = s.pool.size + xs.length := by simp [extend]

theorem individual_extend_lt (h : j < s.pool.size) : (s.extend xs).individual j = s.individual j := by
  simp [extend, individual, Array.getElem?_append_left h]

theorem individual_extend_add : (s.extend xs).individual (s.pool.size + j) = xs[j]?.getD default := by
  simp [extend, individual, Array.getElem?_append_right]

theorem push_eq_extend : s.push x = s.extend [x] := by simp [extend, push]

theorem push_extend : (s.extend xs).push x = s.extend (xs ++ [x]) := by
  simp [extend, push]

theorem extend_push : (s.push x).extend xs = s.extend (x :: xs) := by
  simp [extend, push]

end Scene

/-! ### Making, copying and changing test cases -/

namespace Individual
variable {E : Fault → Scene σ ω → Prop}

theorem run_cloneWithin {depth : Nat} (hi : (s.individual i).IsTestCase) :
    (cloneWithin (depth + 1) i : SceneM σ ω Nat).run s = (.ok s.pool.size, s.push (s.individual i)) := by
  obtain ⟨statements, operator, hcontent⟩ := hi
  refine run_eq_of_wp ?_
  unfold cloneWithin
  simp only [wp_bind, SceneM.wp_individual, hcontent, SceneM.wp_add, and_self]

theorem run_clone (hi : (s.individual i).IsTestCase) :
    (clone i : SceneM σ ω Nat).run s = (.ok s.pool.size, s.push (s.individual i)) :=
  run_cloneWithin hi

/-- Test cases are copied one after the other. -/
theorem run_mapM_cloneWithin {depth : Nat} {members : List Nat} (h : ∀ k ∈ members, (s.individual k).IsTestCase) :
    (members.mapM (cloneWithin (depth + 1)) : SceneM σ ω (List Nat)).run s =
      (.ok (List.range' s.pool.size members.length), s.extend (members.map s.individual)) := by
  induction members generalizing s with
  | nil => simp [Scene.extend]; rfl
  | cons k members ih =>
    have hlater : ∀ j ∈ members, (s.push (s.individual k)).individual j = s.individual j := fun j hj =>
      Scene.individual_push_lt (Scene.lt_size_of_isTestCase (h j (by simp [hj])))
    rw [List.mapM_cons, run_bind, run_cloneWithin (h k (by simp))]
    dsimp only
    rw [run_bind, ih fun j hj => (hlater j hj).symm ▸ h j (by simp [hj])]
    dsimp only
    rw [List.map_congr_left hlater, Scene.extend_push, Scene.size_push, List.length_cons, List.range'_succ]
    rfl

/-- The members of a suite are copied, then the suite. -/
theorem run_clone_suite {members : List Nat} (hcontent : (s.individual i).content = .suite members)
    (h : ∀ k ∈ members, (s.individual k).IsTestCase) : (clone i : SceneM σ ω Nat).run s =
      (.ok (s.pool.size + members.length), s.extend (members.map s.individual ++
        [{ s.individual i with content := .suite (List.range' s.pool.size members.length) }])) := by
  obtain ⟨depth, hdepth⟩ := Nat.exists_eq_add_one.2 (Nat.zero_lt_of_lt (Scene.lt_size_of_content hcontent))
  refine run_eq_of_wp ?_
  unfold clone
  rw [wp_bind]
  show wp (cloneWithin (s.pool.size + 1) i) _ _ s
  unfold cloneWithin
  rw [wp_bind, SceneM.wp_individual, hcontent]
  dsimp only
  rw [wp_bind]
  have hmembers : (members.mapM (cloneWithin (depth + 1)) : SceneM σ ω (List Nat)).run s = _ := run_mapM_cloneWithin h
  rw [← hdepth] at hmembers
  rw [wp_of_run_eq hmembers, SceneM.wp_add, Scene.push_extend, Scene.size_extend, List.length_map]
  exact ⟨rfl, rfl⟩

/-- A mutation stores the statements that the operator leaves behind, and marks them as changed if the operator says
so. -/
theorem wp_mutate {statements : List σ} {operator : Nat} (hi : i < s.pool.size)
    (hcontent : (s.individual i).content = .testCase statements (some operator)) :
    wp (mutate subject i)
      (fun _ t => ∃ altered, (subject.mutate operator (statements, s.outside)).1 = .ok altered ∧
        t.outside = (subject.mutate operator (statements, s.outside)).2.2 ∧
        s.Sets i
          { s.individual i with
            content := .testCase (subject.mutate operator (statements, s.outside)).2.1 (some operator)
            changed := altered || (s.individual i).changed } t)
      (fun e t => (subject.mutate operator (statements, s.outside)).1 = .error e ∧
        t.outside = (subject.mutate operator (statements, s.outside)).2.2 ∧
        s.Sets i
          { s.individual i with
            content := .testCase (subject.mutate operator (statements, s.outside)).2.1 (some operator) } t) s := by
  unfold mutate
  rw [wp_bind, SceneM.wp_individual, hcontent]
  rcases hrun : subject.mutate operator (statements, s.outside) with ⟨result, altered, w⟩
  let store (x : Individual σ) : Individual σ := { x with content := .testCase altered (some operator) }
  have hstored : s.Sets i (store (s.individual i)) ({ s with outside := w }.modify i store) :=
    ⟨Scene.size_modify, Scene.individual_modify_self hi, fun _ h => Scene.individual_modify_ne h.symm⟩
  dsimp only
  rw [wp_bind, SceneM.wp_act_of_eq (a := (result, altered)) (w := w) (by simp only [hrun]), wp_bind, SceneM.wp_update]
  cases result with
  | error e => exact ⟨rfl, rfl, hstored⟩
  | ok marked =>
    cases marked with
    | false => exact ⟨false, rfl, rfl, hstored⟩
    | true =>
      have hmarked := Scene.sets_modify (f := fun x => { x with changed := true })
        (hstored.size.symm ▸ hi : i < ({ s with outside := w }.modify i store).pool.size)
      rw [hstored.self] at hmarked
      exact ⟨true, rfl, rfl, hstored.trans hmarked⟩

/-- Goals are added one by one, unless one of them wants large values. -/
theorem wp_addFunctions {l : List Goal} (hi : i < s.pool.size)
    (hE : ∀ g ∈ l, subject.isMaximised g = true → ∀ functions t,
      s.Sets i { s.individual i with functions := functions } t → E (.requirement .minimisation) t) :
    wp (l.forM (addFunction subject i))
      (fun _ t => s.Sets i { s.individual i with functions := (s.individual i).functions ++ l } t) E s := by
  refine wp_forM (I := fun done t =>
    s.Sets i { s.individual i with functions := (s.individual i).functions ++ done } t) ?_ ?_
  · rintro done g rest rfl t ht
    unfold addFunction
    split
    · exact hE g (by simp) ‹_› _ t ht
    · rw [SceneM.wp_update]
      have hset := Scene.sets_modify (f := fun x => { x with functions := x.functions ++ [g] })
        (ht.size.symm ▸ hi : i < t.pool.size)
      rw [ht.self] at hset
      simpa using ht.trans hset
  · exact ⟨rfl, by simp, fun _ _ => rfl⟩

/-- A new individual is a test case that counts as changed and knows no fitness. Its goals want small values. -/
theorem wp_build (own : List Nat) (plan : Blueprint σ) :
    wp (build subject plan) (fun k t => k = s.pool.size ∧ t.pool.size = s.pool.size + 1 ∧
      t.individual k = { content := .testCase plan.statements plan.operator, functions := plan.functions } ∧
      s.Keeps own t)
      (fun e t => (e = .requirement .minimisation ∧ ∃ g ∈ plan.functions, subject.isMaximised g = true) ∧
        s.Keeps own t) s := by
  let x : Individual σ := { content := .testCase plan.statements plan.operator }
  have hkeeps : ∀ {y t}, (s.push x).Sets s.pool.size y t → s.Keeps own t := fun ht =>
    .of_bare (by simp [ht.size]) fun j hj => by
      rw [ht.others j (Nat.ne_of_lt hj), Scene.individual_push_lt hj]
  unfold build ofTestCase
  rw [wp_bind, SceneM.wp_add]
  refine wp_seq (wp_addFunctions (by simp) fun g hg hmax _ t ht => ⟨⟨rfl, g, hg, hmax⟩, hkeeps ht⟩) fun _ t ht => ?_
  have hself := ht.self
  rw [Scene.individual_push_size] at hself
  exact ⟨rfl, by simpa using ht.size, hself, hkeeps ht⟩

end Individual

end GoalSearch
