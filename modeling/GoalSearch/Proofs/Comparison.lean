import GoalSearch.Proofs.Ranks

/-!
# What a comparison says

A comparison stops as soon as each of the two individuals is better somewhere. `Dominance.scan` reads on to the last
goal, and `Dominance.scan_eq` shows that it answers the same. Over values that are no NaN the answers of the comparison
are those of a strict order, whatever the order of the goals and however often they are named (`exists_order`).
-/

namespace GoalSearch.Dominance

section Scan
variable {m : Type → Type} [Monad m] {ι α : Type} [LT α] [DecidableLT α]

/-- Compares over the remaining goals as `compareFrom` does, but reads all of them. -/
def scanFrom (fitness : Goal → ι → m α) (a b : ι) : Bool → Bool → List Goal → m Ordering
  | better, worse, [] => pure (outcome better worse)
  | better, worse, g :: goals => do
    let x ← fitness g a
    let y ← fitness g b
    scanFrom fitness a b (better || decide (x < y)) (worse || decide (y < x)) goals

/-- The comparison without the early exit. -/
def scan (fitness : Goal → ι → m α) (goals : List Goal) (a b : ι) : m Ordering :=
  scanFrom fitness a b false false goals

end Scan

section Values
variable {ι α : Type} [LT α] [DecidableLT α] {value : Goal → ι → α} {goals goals' : List Goal} {a b : ι}

theorem scanFrom_eq {x y : Bool} :
    Id.run (scanFrom value a b x y goals) = outcome (x || better value goals a b) (y || better value goals b a) := by
  induction goals generalizing x y with
  | nil => simp [scanFrom, better]
  | cons g goals ih =>
    show Id.run (scanFrom value a b _ _ goals) = _
    rw [ih]
    simp only [better, List.any_cons, Bool.or_assoc]

/-- Reading on does not change the answer. -/
theorem scan_eq : Id.run (scan value goals a b) = Id.run (compare value goals a b) :=
  scanFrom_eq.trans compare_eq.symm

theorem outcome_swap (x y : Bool) : outcome y x = (outcome x y).swap := by
  cases x <;> cases y <;> rfl

theorem compare_swap : Id.run (compare value goals b a) = (Id.run (compare value goals a b)).swap := by
  rw [compare_eq, compare_eq, outcome_swap]

theorem better_congr (h : ∀ g, g ∈ goals ↔ g ∈ goals') : better value goals a b = better value goals' a b := by
  rw [Bool.eq_iff_iff, better_iff, better_iff]
  simp only [h]

theorem compare_congr (h : ∀ g, g ∈ goals ↔ g ∈ goals') :
    Id.run (compare value goals a b) = Id.run (compare value goals' a b) := by
  rw [compare_eq, compare_eq, better_congr h, better_congr h]

variable {S : Type} {I : S → Prop} {fitness : Goal → ι → ExceptT Fault (StateM S) α}

theorem yields_scan (ha : ∀ g ∈ goals, Yields I (fitness g a) (value g a))
    (hb : ∀ g ∈ goals, Yields I (fitness g b) (value g b)) :
    Yields I (scan fitness goals a b) (Id.run (compare value goals a b)) := by
  rw [← scan_eq]
  suffices h : ∀ x y, Yields I (scanFrom fitness a b x y goals) (Id.run (scanFrom value a b x y goals)) from
    h false false
  induction goals with
  | nil => exact fun x y => .pure _
  | cons g goals ih =>
    intro x y
    exact (ha g (by simp)).bind ((hb g (by simp)).bind
      (ih (fun h hh => ha h (by simp [hh])) (fun h hh => hb h (by simp [hh])) _ _))

theorem yields_compare_of_mem_iff (h : ∀ g, g ∈ goals' ↔ g ∈ goals)
    (ha : ∀ g ∈ goals, Yields I (fitness g a) (value g a)) (hb : ∀ g ∈ goals, Yields I (fitness g b) (value g b)) :
    Yields I (compare fitness goals' a b) (Id.run (compare value goals a b)) := by
  rw [← compare_congr h]
  exact yields_compare (fun g hg => ha g ((h g).1 hg)) fun g hg => hb g ((h g).1 hg)

end Values

/-- Among values that are no NaN, not to be worse is to be less or equal. -/
theorem dominates_iff {ι : Type} {value : Goal → ι → Float} {goals : List Goal} {a b : ι}
    (ha : ∀ g ∈ goals, ¬ Binary64.isNaN (value g a) = true)
    (hb : ∀ g ∈ goals, ¬ Binary64.isNaN (value g b) = true) :
    Dominates value goals a b ↔
      (∀ g ∈ goals, value g a ≤ value g b) ∧ ∃ g ∈ goals, value g a < value g b := by
  refine and_comm.trans (and_congr_left' (forall₂_congr fun g hg => ?_))
  rw [← Binary64.not_le_iff (ha g hg) (hb g hg), not_not]

/-- Members with fixed fitness that is no NaN compare alike in every scene, and with or without the early exit: the
first dominates the second if it is nowhere worse and somewhere better, is dominated by it if the second so
dominates the first, and neither else. Compared the other way round the answer is turned over, nobody dominates
itself, dominance is transitive, and which goals are named counts, but not in which order or how often. -/
theorem exists_order {σ ω : Type} {subject : Subject σ ω} {goals : List Goal} {members : List Nat}
    {value : Goal → Nat → Float} {I : Scene σ ω → Prop}
    (hread : ∀ g ∈ goals, ∀ i ∈ members, Yields I (GoalSearch.fitness subject g i) (value g i))
    (hnan : ∀ g ∈ goals, ∀ i ∈ members, ¬ Binary64.isNaN (value g i) = true) :
    ∃ order : Nat → Nat → Ordering,
      (∀ a ∈ members, ∀ b ∈ members,
        Yields I (compare (GoalSearch.fitness subject) goals a b) (order a b) ∧
        Yields I (scan (GoalSearch.fitness subject) goals a b) (order a b) ∧
        (order a b = .lt ↔ (∀ g ∈ goals, value g a ≤ value g b) ∧ ∃ g ∈ goals, value g a < value g b) ∧
        (order a b = .gt ↔ (∀ g ∈ goals, value g b ≤ value g a) ∧ ∃ g ∈ goals, value g b < value g a) ∧
        order b a = (order a b).swap ∧ order a a = .eq ∧
        ∀ c ∈ members, order a b = .lt → order b c = .lt → order a c = .lt) ∧
      ∀ goals', (∀ g, g ∈ goals' ↔ g ∈ goals) → ∀ a ∈ members, ∀ b ∈ members,
        Yields I (compare (GoalSearch.fitness subject) goals' a b) (order a b) := by
  have hnan' : ∀ i ∈ members, ∀ g ∈ goals, ¬ Binary64.isNaN (value g i) = true := fun i hi g hg => hnan g hg i hi
  have hread' : ∀ i ∈ members, ∀ g ∈ goals, Yields I (GoalSearch.fitness subject g i) (value g i) :=
    fun i hi g hg => hread g hg i hi
  refine ⟨fun a b => Id.run (compare value goals a b), fun a ha b hb => ⟨?_, ?_, ?_, ?_, ?_, ?_, ?_⟩,
    fun goals' hgoals a ha b hb => ?_⟩
  · exact yields_compare (hread' a ha) (hread' b hb)
  · exact yields_scan (hread' a ha) (hread' b hb)
  · rw [compare_eq_lt_iff, dominates_iff (hnan' a ha) (hnan' b hb)]
  · rw [compare_eq_gt_iff, dominates_iff (hnan' b hb) (hnan' a ha)]
  · exact compare_swap
  · exact compare_self Binary64.lt_irrefl
  · intro c hc hab hbc
    rw [compare_eq_lt_iff] at hab hbc ⊢
    exact hab.trans (hnan' b hb) (hnan' c hc) hbc
  · exact yields_compare_of_mem_iff hgoals (hread' a ha) (hread' b hb)

/-- Of five measured test cases the third dominates the first and that the fourth, also with a goal named twice. -/
theorem exists_order_five : ∃ order : Nat → Nat → Ordering,
    order 2 0 = .lt ∧ order 0 3 = .lt ∧ order 2 3 = .lt ∧ order 3 2 = .gt ∧ order 1 0 = .eq ∧
    Yields (Individual.fiveMeasured.Keeps [])
      (compare (GoalSearch.fitness (Sample.Parts.subject { goals := #[] })) [.atom 1, .atom 0, .atom 1] 2 3)
      (order 2 3) := by
  obtain ⟨order, hcompare, hgoals⟩ := exists_order Individual.fixed_fiveMeasured.fitness (by decide +kernel)
  have h20 : order 2 0 = .lt := (hcompare 2 (by simp) 0 (by simp)).2.2.1.2 (by decide +kernel)
  have h03 : order 0 3 = .lt := (hcompare 0 (by simp) 3 (by simp)).2.2.1.2 (by decide +kernel)
  have h23 : order 2 3 = .lt := (hcompare 2 (by simp) 0 (by simp)).2.2.2.2.2.2 3 (by simp) h20 h03
  have h10 : order 1 0 = .eq := by
    have hlt := mt (hcompare 1 (by simp) 0 (by simp)).2.2.1.1 (by decide +kernel)
    have hgt := mt (hcompare 1 (by simp) 0 (by simp)).2.2.2.1.1 (by decide +kernel)
    cases h : order 1 0 with
    | lt => exact absurd h hlt
    | eq => rfl
    | gt => exact absurd h hgt
  have h32 : order 3 2 = .gt := by rw [(hcompare 2 (by simp) 3 (by simp)).2.2.2.2.1, h23]; rfl
  exact ⟨order, h20, h03, h23, h32, h10, hgoals _ (by simp [or_comm]) 2 (by simp) 3 (by simp)⟩

end GoalSearch.Dominance
