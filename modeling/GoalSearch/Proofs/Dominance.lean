import GoalSearch.Dominance
import GoalSearch.Proofs.Number.Order
import Mathlib.Data.List.Basic

/-!
# Dominance over fixed values

With fixed values a comparison is told by two questions: whether the first individual is better for some goal,
and whether it is worse for some goal (`compare_eq`). Stopping early does not change the answer. So a comparison
decides which of the two dominates the other (`compare_eq_lt_iff`, `compare_eq_gt_iff`), and over values that are
no NaN dominance is a strict order (`Dominates.irrefl`, `Dominates.trans`).
-/

namespace GoalSearch.Dominance

variable {ι α : Type} [LT α] [DecidableLT α] {value : Goal → ι → α} {goals : List Goal} {a b : ι}

/-- The outcome for an individual that is better or worse for some goal. -/
def outcome : Bool → Bool → Ordering
  | true, false => .lt
  | false, true => .gt
  | _, _ => .eq

/-- The first individual is better for some goal. -/
def better (value : Goal → ι → α) (goals : List Goal) (a b : ι) : Bool :=
  goals.any fun g => decide (value g a < value g b)

theorem better_iff : better value goals a b = true ↔ ∃ g ∈ goals, value g a < value g b := by
  simp [better]

theorem better_eq_false_iff : better value goals a b = false ↔ ∀ g ∈ goals, ¬ value g a < value g b := by
  simp [better]

/-- Better for some goal and worse for none. -/
def Dominates (value : Goal → ι → α) (goals : List Goal) (a b : ι) : Prop :=
  (∃ g ∈ goals, value g a < value g b) ∧ ∀ g ∈ goals, ¬ value g b < value g a

instance : DecidableRel (Dominates value goals) := fun _ _ => inferInstanceAs (Decidable (_ ∧ _))

theorem compareFrom_eq {x y : Bool} (h : (x && y) = false) :
    Id.run (compareFrom value a b x y goals) =
      outcome (x || better value goals a b) (y || better value goals b a) := by
  induction goals generalizing x y with
  | nil =>
    simp only [better, List.any_nil, Bool.or_false]
    revert h
    cases x <;> cases y <;> intro h
    · rfl
    · rfl
    · rfl
    · cases h
  | cons g goals ih =>
    show (if _ then _ else _ : Ordering) = _
    have hx : (x || better value (g :: goals) a b) =
        ((x || decide (value g a < value g b)) || better value goals a b) := by
      simp [better, Bool.or_assoc]
    have hy : (y || better value (g :: goals) b a) =
        ((y || decide (value g b < value g a)) || better value goals b a) := by
      simp [better, Bool.or_assoc]
    rw [hx, hy]
    split
    · -- both are better somewhere, whatever the other goals say
      rename_i hboth
      obtain ⟨hx, hy⟩ := Bool.and_eq_true_iff.1 hboth
      rw [hx, hy]
      rfl
    · exact ih (Bool.eq_false_iff.2 ‹_›)

theorem compare_eq :
    Id.run (compare value goals a b) = outcome (better value goals a b) (better value goals b a) :=
  compareFrom_eq rfl

theorem compare_eq_lt_iff : Id.run (compare value goals a b) = .lt ↔ Dominates value goals a b := by
  rw [compare_eq, Dominates, ← better_iff, ← better_eq_false_iff]
  cases better value goals a b <;> cases better value goals b a <;> simp [outcome]

theorem compare_eq_gt_iff : Id.run (compare value goals a b) = .gt ↔ Dominates value goals b a := by
  rw [compare_eq, Dominates, ← better_iff, ← better_eq_false_iff]
  cases better value goals a b <;> cases better value goals b a <;> simp [outcome]

/-- Nobody dominates itself. -/
theorem compare_self (hirrefl : ∀ x : α, ¬ x < x) : Id.run (compare value goals a a) = .eq := by
  have h : better value goals a a = false := better_eq_false_iff.2 fun g _ => hirrefl _
  rw [compare_eq, h]
  rfl

/-! ### Dominance as an order -/

omit [DecidableLT α] in
theorem Dominates.congr {goals' : List Goal} (hgoals : ∀ g, g ∈ goals ↔ g ∈ goals') :
    Dominates value goals a b ↔ Dominates value goals' a b := by
  simp only [Dominates, hgoals]

omit [DecidableLT α] in
theorem Dominates.irrefl (hirrefl : ∀ x : α, ¬ x < x) (a : ι) : ¬ Dominates value goals a a := by
  rintro ⟨⟨g, -, hlt⟩, -⟩
  exact hirrefl _ hlt

theorem Dominates.trans {value : Goal → ι → Float} {c : ι} (hb : ∀ g ∈ goals, ¬ Binary64.isNaN (value g b) = true)
    (hc : ∀ g ∈ goals, ¬ Binary64.isNaN (value g c) = true) (hab : Dominates value goals a b)
    (hbc : Dominates value goals b c) : Dominates value goals a c := by
  obtain ⟨⟨g, hg, hlt⟩, hab⟩ := hab
  refine ⟨⟨g, hg, Binary64.lt_of_lt_of_not_lt (hc g hg) hlt (hbc.2 g hg)⟩, fun k hk hca => ?_⟩
  -- if `c` were better than `a` it would be better than `b`, which is nowhere worse than `a`
  exact hbc.2 k hk (Binary64.lt_of_lt_of_not_lt (hb k hk) hca (hab k hk))

end GoalSearch.Dominance
