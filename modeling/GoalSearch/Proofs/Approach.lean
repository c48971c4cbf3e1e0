import GoalSearch.Nested
import GoalSearch.Proofs.Number.Exact
import Mathlib.Algebra.Order.Field.Basic
import Mathlib.Data.ENat.Lattice
import Mathlib.Data.List.MinMax
import Mathlib.Data.Prod.Lex
import Mathlib.Tactic.Linarith

/-!
# Approach levels

What a list of values falls short of on a path of targets is a pair: the number of targets below the first one that is
missing, and the distance of the closest value to that one (`shortfall`). Read exactly, the fitness for a nested goal is
zero if nothing is missing, and grows with this pair in lexicographic order otherwise (`fitness_orders`): a distance
counts for at most one, less than what a further target counts for.
-/

namespace GoalSearch.NestedGoal

variable {target : Int} {values path : List Int} {b c : ℕ∞}

/-! ### Distances -/

/-- The distance of the closest of some values to a target, infinite if there are no values. -/
def closest (target : Int) (values : List Int) : ℕ∞ := (values.map fun v => (v - target).natAbs).minimum

theorem closest_cons {v : Int} :
    closest target (v :: values) = min ((v - target).natAbs : ℕ∞) (closest target values) :=
  List.minimum_cons _ _

theorem closest_eq : closest target values = leastDistance target values := by
  induction values with
  | nil => rfl
  | cons v values ih =>
    rw [closest_cons, ih, leastDistance]
    cases leastDistance target values <;> rfl

theorem closest_eq_zero_iff : closest target values = 0 ↔ target ∈ values := by
  induction values with
  | nil => exact iff_of_false ENat.top_ne_zero List.not_mem_nil
  | cons v values ih =>
    rw [closest_cons, ← bot_eq_zero', min_eq_bot, bot_eq_zero', ih, Nat.cast_eq_zero, Int.natAbs_eq_zero,
      sub_eq_zero, List.mem_cons, eq_comm]

/-- The distance as an exact number. -/
def exactDistance : ℕ∞ → Exact
  | ⊤ => .infinity
  | (n : ℕ) => .finite n

theorem branchDistance_exact : branchDistance target values = .ok (exactDistance (closest target values)) := by
  rw [closest_eq, branchDistance]
  cases leastDistance target values <;> rfl

theorem zero_lt_exactDistance : Scalar.zero < exactDistance b ↔ b ≠ 0 := by
  cases b with
  | top => exact iff_of_true rfl ENat.top_ne_zero
  | coe n =>
    refine Exact.finite_lt.trans ?_
    rw [Nat.cast_pos, Nat.pos_iff_ne_zero, Ne, Ne, Nat.cast_eq_zero]

/-- What a distance adds to the fitness. -/
def share : ℕ∞ → ℚ
  | ⊤ => 1
  | (n : ℕ) => n / (1 + n)

theorem normalise_exactDistance : Scalar.normalise (exactDistance b) = .ok (.finite (share b)) := by
  cases b with
  | top => exact Exact.normalise_infinity
  | coe n => exact Exact.normalise_finite n.cast_nonneg

theorem share_le_one : share b ≤ 1 := by
  cases b with
  | top => exact le_rfl
  | coe n =>
    have hn : (0 : ℚ) ≤ n := n.cast_nonneg
    exact (div_le_one (by linarith)).2 (by linarith)

theorem share_pos (hb : b ≠ 0) : 0 < share b := by
  cases b with
  | top => exact one_pos
  | coe n =>
    have hn : (0 : ℚ) < n := Nat.cast_pos.2 (Nat.pos_of_ne_zero (by simpa using hb))
    exact div_pos hn (by linarith)

theorem share_strictMono : StrictMono share := by
  intro b c hbc
  cases b with
  | top => exact absurd hbc not_top_lt
  | coe n =>
    have hn : (0 : ℚ) ≤ n := n.cast_nonneg
    cases c with
    | top => exact (div_lt_one (by linarith)).2 (by linarith)
    | coe m =>
      have hnm : (n : ℚ) < m := Nat.cast_lt.2 (Nat.cast_lt.1 hbc)
      exact (div_lt_div_iff₀ (by linarith) (by linarith)).2 (by linarith)

/-! ### Shortfalls -/

/-- What some values fall short of on a path: how many targets stand below the first one that is missing, and how far
the closest value is from that one. -/
def shortfall (values path : List Int) : Option (ℕ ×ₗ ℕ∞) :=
  match path.dropWhile (· ∈ values) with
  | [] => none
  | target :: below => some (toLex (below.length, closest target values))

theorem shortfall_cons_of_mem (h : target ∈ values) : shortfall values (target :: path) = shortfall values path := by
  rw [shortfall, List.dropWhile_cons_of_pos (by simpa using h), shortfall]

theorem shortfall_cons_of_not_mem (h : target ∉ values) :
    shortfall values (target :: path) = some (toLex (path.length, closest target values)) := by
  rw [shortfall, List.dropWhile_cons_of_neg (by simpa using h)]

theorem shortfall_eq_none_iff : shortfall values path = none ↔ ∀ t ∈ path, t ∈ values := by
  induction path with
  | nil => exact iff_of_true rfl (by simp)
  | cons target path ih =>
    rw [List.forall_mem_cons]
    by_cases h : target ∈ values
    · rw [shortfall_cons_of_mem h, ih]
      exact (and_iff_right h).symm
    · rw [shortfall_cons_of_not_mem h]
      exact iff_of_false nofun fun hall => h hall.1

/-- The closest value to a missing target is some way off. -/
theorem distance_ne_zero {p : ℕ ×ₗ ℕ∞} (h : shortfall values path = some p) : (ofLex p).2 ≠ 0 := by
  induction path with
  | nil => cases h
  | cons target path ih =>
    by_cases hmem : target ∈ values
    · exact ih (shortfall_cons_of_mem hmem ▸ h)
    · rw [shortfall_cons_of_not_mem hmem] at h
      rw [← Option.some.inj h]
      exact fun hzero => hmem (closest_eq_zero_iff.1 hzero)

/-- The fitness of values that fall short so far. -/
def score : Option (ℕ ×ₗ ℕ∞) → ℚ
  | none => 0
  | some p => (ofLex p).1 + share (ofLex p).2

theorem pathFitness_exact : pathFitness values path = .ok (Exact.finite (score (shortfall values path))) := by
  induction path with
  | nil => rfl
  | cons target path ih =>
    unfold pathFitness
    rw [branchDistance_exact]
    by_cases h : target ∈ values
    · have hmet : ¬ Scalar.zero < exactDistance (closest target values) :=
        zero_lt_exactDistance.not.2 (not_not.2 (closest_eq_zero_iff.2 h))
      rw [shortfall_cons_of_mem h]
      exact (if_neg hmet).trans ih
    · have hmissed : Scalar.zero < exactDistance (closest target values) :=
        zero_lt_exactDistance.2 (closest_eq_zero_iff.not.2 h)
      rw [shortfall_cons_of_not_mem h]
      refine (if_pos hmissed).trans ?_
      rw [Exact.ofInt_eq, normalise_exactDistance]
      rfl

theorem score_pos {p : ℕ ×ₗ ℕ∞} (hp : (ofLex p).2 ≠ 0) : 0 < score (some p) :=
  add_pos_of_nonneg_of_pos (Nat.cast_nonneg _) (share_pos hp)

/-- A further target counts for more than any distance. -/
theorem score_lt_of_fst_lt {p q : ℕ ×ₗ ℕ∞} (hq : (ofLex q).2 ≠ 0) (h : (ofLex p).1 < (ofLex q).1) :
    score (some p) < score (some q) := by
  have hlevel : ((ofLex p).1 : ℚ) + 1 ≤ (ofLex q).1 := by exact_mod_cast h
  calc score (some p)
    _ ≤ (ofLex p).1 + 1 := by simpa [score] using share_le_one
    _ ≤ (ofLex q).1 := hlevel
    _ < score (some q) := lt_add_of_pos_right _ (share_pos hq)

theorem score_lt_score_iff {p q : ℕ ×ₗ ℕ∞} (hp : (ofLex p).2 ≠ 0) (hq : (ofLex q).2 ≠ 0) :
    score (some p) < score (some q) ↔ p < q := by
  have hmono : StrictMonoOn (fun p => score (some p)) {p : ℕ ×ₗ ℕ∞ | (ofLex p).2 ≠ 0} := by
    intro p hp q hq hpq
    rcases Prod.Lex.lt_iff.1 hpq with hlevel | ⟨hlevel, hdistance⟩
    · exact score_lt_of_fst_lt hq hlevel
    · show ((ofLex p).1 : ℚ) + share (ofLex p).2 < (ofLex q).1 + share (ofLex q).2
      rw [hlevel]
      exact add_lt_add_right (share_strictMono hdistance) _
  exact hmono.lt_iff_lt hp hq

/-- Read exactly, the fitness for a goal is zero if the values contain its target and the targets of all goals above it.
Otherwise it orders lists of values by what they fall short of: first by the number of targets below the first missing
one, then by the distance of the closest value to that one. So whoever gets further down the path is ahead, whatever
the distances are. -/
theorem fitness_orders (g : NestedGoal) (values others : List Int) :
    ∃ x y : ℚ, g.fitness values = .ok (Exact.finite x) ∧ g.fitness others = .ok (Exact.finite y) ∧ 0 ≤ x ∧
      (x = 0 ↔ ∀ t ∈ g.path, t ∈ values) ∧
      (shortfall values g.path = none ↔ ∀ t ∈ g.path, t ∈ values) ∧
      ∀ p q, shortfall values g.path = some p → shortfall others g.path = some q →
        (x < y ↔ p < q) ∧ ((ofLex p).1 < (ofLex q).1 → x < y) := by
  refine ⟨_, _, pathFitness_exact, pathFitness_exact, ?_, ?_, shortfall_eq_none_iff, fun p q hp hq => ?_⟩
  · cases h : shortfall values g.path with
    | none => exact le_rfl
    | some p => exact (score_pos (distance_ne_zero h)).le
  · rw [← shortfall_eq_none_iff]
    cases h : shortfall values g.path with
    | none => exact iff_of_true rfl rfl
    | some p => exact iff_of_false (score_pos (distance_ne_zero h)).ne' nofun
  · rw [hp, hq]
    exact ⟨score_lt_score_iff (distance_ne_zero hp) (distance_ne_zero hq), score_lt_of_fst_lt (distance_ne_zero hq)⟩

/-- To have found `3` is better than to be next to it, however far `7` is. -/
theorem fitness_orders_seven_under_three : ∃ x y : ℚ,
    (⟨"1.1", 7, some 0, [3]⟩ : NestedGoal).fitness [3, 100] = .ok (Exact.finite x) ∧
    (⟨"1.1", 7, some 0, [3]⟩ : NestedGoal).fitness [2, 7] = .ok (Exact.finite y) ∧ 0 < x ∧ x < y := by
  obtain ⟨x, y, hx, hy, hnonneg, hzero, -, horder⟩ := fitness_orders ⟨"1.1", 7, some 0, [3]⟩ [3, 100] [2, 7]
  have hlt : x < y := (horder (toLex (0, 4)) (toLex (1, 1)) (by decide) (by decide)).2 (by decide)
  exact ⟨x, y, hx, hy, lt_of_le_of_ne hnonneg fun h => absurd (hzero.1 h.symm) (by decide), hlt⟩

end GoalSearch.NestedGoal
