import GoalSearch.Proofs.Benchmark
import GoalSearch.Proofs.Dependency

/-!
# Forests of nested targets

In a forest every goal that has a parent stands behind it, and asks for all that the parent asks for besides its own
target (`NestedGoal.Planted`, `wp_forest_planted`). What meets a goal therefore meets its parent: as long as a target of
the parent is missing, the goal is at least one level away (`sanitised_of_above`). So a subject whose goals are those of
a forest nests them (`Subject.Poses.nests`).
-/

namespace GoalSearch

namespace NestedGoal

variable {ω : Type} {source : RandomSource ω} {valueRange : Int}

/-! ### Fitness -/

section Fitness
variable {target : Int} {values path : List Int} {x y : Float}

theorem branchDistance_nonneg (h : branchDistance target values = .ok x) : 0.0 ≤ x := by
  unfold branchDistance at h
  split at h
  · rw [← Except.ok.inj h]
    exact (by decide +kernel : (0.0 : Float) ≤ Binary64.infinity)
  · rename_i d _
    unfold Scalar.ofInt at h
    split at h
    · rename_i hd
      rw [← Except.ok.inj h]
      exact (Binary64.ofRatio?_finite (Int.natCast_nonneg d) hd).2
    · cases h

theorem normalise_nonneg (hx : 0.0 ≤ x) (h : Scalar.normalise x = .ok y) : 0.0 ≤ y := by
  unfold Scalar.normalise at h
  split at h
  · cases h
  · split at h
    · rw [← Except.ok.inj h]
      exact (by decide +kernel : (0.0 : Float) ≤ 1.0)
    · rename_i hinfinite
      rw [← Except.ok.inj h]
      exact Binary64.div_nonneg_of_lt hx (Binary64.lt_infinity_of_not_beq hx hinfinite)
        (Binary64.add_pos (by decide +kernel) hx)

/-- A level of a path either is not met, which decides the fitness, or is left behind. -/
theorem of_pathFitness_cons (h : pathFitness values (target :: path) = .ok x) :
    ∃ distance : Float, branchDistance target values = .ok distance ∧
      ((0.0 < distance ∧ ∃ level normalised, Scalar.ofInt path.length = .ok level ∧
          Scalar.normalise distance = .ok normalised ∧ x = level + normalised) ∨
        (¬ 0.0 < distance ∧ pathFitness values path = .ok x)) := by
  unfold pathFitness at h
  obtain ⟨distance, hdistance, h⟩ := exists_of_bind_eq_ok h
  refine ⟨distance, hdistance, ?_⟩
  by_cases hmissed : 0.0 < distance
  · rw [if_pos (show Scalar.zero < distance from hmissed)] at h
    obtain ⟨level, hlevel, h⟩ := exists_of_bind_eq_ok h
    obtain ⟨normalised, hnormalised, h⟩ := exists_of_bind_eq_ok h
    exact .inl ⟨hmissed, level, normalised, hlevel, hnormalised, (Except.ok.inj h).symm⟩
  · rw [if_neg (show ¬ Scalar.zero < distance from hmissed)] at h
    exact .inr ⟨hmissed, h⟩

/-- What is some levels away is not met, whatever the distance. -/
theorem approach_pos {n : Nat} (hn : 0 < n) {level distance normalised : Float} (hlevel : Scalar.ofInt n = .ok level)
    (hdistance : 0.0 ≤ distance) (hnormalised : Scalar.normalise distance = .ok normalised) :
    0.0 < level + normalised := by
  have hpos : 0.0 < level := by
    unfold Scalar.ofInt at hlevel
    split at hlevel
    · rename_i hn'
      exact Except.ok.inj hlevel ▸ Binary64.ofInt?_pos hn hn'
    · cases hlevel
  exact Binary64.add_pos hpos (normalise_nonneg hdistance hnormalised)

/-- Values that meet all targets of a path meet those above the last one. -/
theorem pathFitness_of_concat (h : pathFitness values (path ++ [target]) = .ok x) (hx : (x == 0.0) = true) :
    pathFitness values path = .ok (0.0 : Float) := by
  induction path with
  | nil => rfl
  | cons first below ih =>
    rw [List.cons_append] at h
    obtain ⟨distance, hdistance, ⟨-, level, normalised, hlevel, hnormalised, rfl⟩ | ⟨hmet, hbelow⟩⟩ :=
      of_pathFitness_cons h
    · rw [List.length_append] at hlevel
      have hpos := approach_pos (Nat.succ_pos _) hlevel (branchDistance_nonneg hdistance) hnormalised
      exact absurd (Binary64.lt_of_lt_of_beq hpos hx) (Binary64.lt_irrefl _)
    · unfold pathFitness
      rw [hdistance]
      exact (if_neg hmet).trans (ih hbelow)

/-- What meets a goal meets a goal that asks for its other targets. -/
theorem sanitised_of_above {g p : NestedGoal} (habove : g.above = p.path) {content : Content Statement} {v : Float}
    (h : Fitness.sanitised (g.evaluate content) = .ok v) (hv : (v == 0.0) = true) :
    Fitness.sanitised (p.evaluate content) = .ok 0.0 := by
  have hfailure : Fitness.sanitised .failure ≠ .ok v := fun hworst =>
    absurd (Except.ok.inj hworst ▸ hv) (Bool.eq_false_iff.1 Fitness.worst_ne_zero)
  unfold evaluate at h ⊢
  cases content with
  | sized n => exact absurd h hfailure
  | suite members => exact absurd h hfailure
  | testCase statements operator =>
    dsimp only at h ⊢
    split at h
    · rename_i x hx
      obtain ⟨values, hvalues, hfitness⟩ := exists_of_bind_eq_ok hx
      have hvalue : Fitness.sanitise x = v := Except.ok.inj h
      have hzero : (x == 0.0) = true := Fitness.beq_zero_of_sanitise (hvalue ▸ hv)
      have hpath : p.fitness values = .ok (0.0 : Float) := by
        unfold fitness path at hfitness
        rw [habove] at hfitness
        exact pathFitness_of_concat hfitness hzero
      have hmet : integers statements >>= p.fitness = .ok (0.0 : Float) := by
        rw [hvalues]
        exact hpath
      rw [hmet]
      rfl
    · exact absurd h hfailure

theorem exists_sanitised (g : NestedGoal) (content : Content Statement) :
    ∃ v, Fitness.sanitised (g.evaluate content) = .ok v := by
  unfold evaluate
  split
  · split
    · exact ⟨_, rfl⟩
    · exact ⟨_, rfl⟩
  · exact ⟨_, rfl⟩

end Fitness

/-! ### Growing a forest -/

/-- Every goal with a parent stands behind it, and asks for what the parent asks for before its own target. -/
def Planted (nested : List NestedGoal) : Prop :=
  ∀ (n : Nat) (g : NestedGoal) (i : Nat), nested[n]? = some g → g.parent = some i →
    i < n ∧ ∃ p : NestedGoal, nested[i]? = some p ∧ g.above = p.path

/-- What is drawn as a forest is one. -/
theorem wp_forest_planted {depth width : Int} {w : ω} :
    wp (forest source depth width valueRange) (fun goals _ => Planted goals) (fun _ _ => True) w :=
  wp_mono wp_forest_levelOrder (fun _ _ h _ _ _ hg hi => h.1.parent hg hi) fun _ _ _ => trivial

end NestedGoal

/-! ### Nested goals -/

namespace Subject

variable {σ ω : Type}

/-- Parents stand in front of their goals and are met by all that meets the goals; no evaluator gives up. -/
structure Nests (subject : Subject σ ω) (goals : List Goal) : Prop where
  atoms : ∀ g ∈ goals, ∃ n, g = .atom n
  parents : ParentsFirst subject.parentOf goals
  answers : ∀ g ∈ goals, ∀ content w, ∃ v, Fitness.sanitised (subject.verdict g content w) = .ok v
  inherits : ∀ g ∈ goals, ∀ p, subject.parentOf g = some p → ∀ content w w' v v',
    Fitness.sanitised (subject.verdict g content w) = .ok v → (v == 0.0) = true →
      Fitness.sanitised (subject.verdict p content w') = .ok v' → (v' == 0.0) = true

/-- The subject evaluates the goals by their nested targets, and knows their parents. -/
structure Poses (subject : Subject Statement ω) (nested : List NestedGoal) : Prop where
  evaluate : ∀ n g, nested[n]? = some g → ∀ content w, (subject.evaluate n content w).1 = g.evaluate content
  parent : ∀ n g, nested[n]? = some g → subject.parent n = g.parent

/-- The goals are numbered as they were drawn. -/
def posed (nested : List NestedGoal) : List Goal := (List.range nested.length).map .atom

variable {subject : Subject Statement ω} {nested : List NestedGoal}

theorem exists_of_mem_posed {g : Goal} (hg : g ∈ posed nested) : ∃ n x, g = .atom n ∧ nested[n]? = some x := by
  obtain ⟨n, hn, rfl⟩ := List.mem_map.1 hg
  exact ⟨n, _, rfl, List.getElem?_eq_getElem (List.mem_range.1 hn)⟩

theorem nodup_posed : (posed nested).Nodup := List.nodup_range.map fun _ _ h => Goal.atom.inj h

theorem getElem?_posed {n : Nat} (hn : n < nested.length) : (posed nested)[n]? = some (.atom n) := by
  simp [posed, hn]

theorem Poses.verdict_eq (h : subject.Poses nested) {n : Nat} {x : NestedGoal} (hx : nested[n]? = some x)
    {content : Content Statement} {w : ω} : subject.verdict (.atom n) content w = x.evaluate content :=
  h.evaluate n x hx content w

/-- A parent was drawn before the goals that hang on it. -/
theorem Poses.parents (h : subject.Poses nested) (hplanted : NestedGoal.Planted nested) :
    ParentsFirst subject.parentOf (posed nested) := by
  intro done g rest hsplit p hp
  have hg : (posed nested)[done.length]? = some g := by simp [hsplit]
  have hlt : done.length < nested.length := by
    have := congrArg List.length hsplit
    simp [posed] at this
    omega
  rw [getElem?_posed hlt] at hg
  obtain rfl := Option.some.inj hg
  obtain ⟨i, hi, rfl⟩ := Option.map_eq_some_iff.1 (show (subject.parent done.length).map Goal.atom = some p from hp)
  obtain ⟨x, hx⟩ : ∃ x, nested[done.length]? = some x := ⟨_, List.getElem?_eq_getElem hlt⟩
  rw [h.parent _ x hx] at hi
  obtain ⟨hi, -⟩ := hplanted _ x i hx hi
  have hfound := getElem?_posed (hi.trans hlt)
  rw [hsplit, List.getElem?_append_left hi] at hfound
  exact List.mem_of_getElem? hfound

theorem Poses.nests (h : subject.Poses nested) (hplanted : NestedGoal.Planted nested) :
    subject.Nests (posed nested) where
  atoms g hg := by
    obtain ⟨n, -, rfl, -⟩ := exists_of_mem_posed hg
    exact ⟨n, rfl⟩
  parents := h.parents hplanted
  answers g hg content w := by
    obtain ⟨n, x, rfl, hx⟩ := exists_of_mem_posed hg
    rw [h.verdict_eq hx]
    exact x.exists_sanitised content
  inherits g hg p hp content w w' v v' hv hzero hv' := by
    obtain ⟨n, x, rfl, hx⟩ := exists_of_mem_posed hg
    obtain ⟨i, hi, rfl⟩ := Option.map_eq_some_iff.1 (show (subject.parent n).map Goal.atom = some p from hp)
    rw [h.parent n x hx] at hi
    obtain ⟨-, y, hy, habove⟩ := hplanted n x i hx hi
    rw [h.verdict_eq hx] at hv
    rw [h.verdict_eq hy, NestedGoal.sanitised_of_above habove hv hzero] at hv'
    rw [← Except.ok.inj hv']
    decide +kernel

end Subject

/-- The benchmark poses its goals. -/
theorem Benchmark.poses {ω : Type} (b : Benchmark) (around : Surroundings ω) (source : RandomSource ω) :
    (b.subject around source).Poses b.goals.toList where
  evaluate n g hg content w := by
    rw [Array.getElem?_toList] at hg
    simp [subject, hg]
  parent n g hg := by
    rw [Array.getElem?_toList] at hg
    simp [subject, hg]

end GoalSearch
