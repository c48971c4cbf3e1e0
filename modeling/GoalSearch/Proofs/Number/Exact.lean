import GoalSearch.Number.Scalar
import Mathlib.Algebra.Order.Ring.Rat

/-!
# Exact numbers

The rational numbers with an infinity: another instance of the numbers that fitness and distance are computed in,
without rounding. What has no value among them, a quotient by zero for one, is `undefined`, and so is whatever is
computed from it.
-/

namespace GoalSearch

inductive Exact where
  | finite (q : ℚ)
  | infinity
  | undefined
deriving DecidableEq

namespace Exact

protected def add : Exact → Exact → Exact
  | finite a, finite b => finite (a + b)
  | finite _, infinity => infinity
  | infinity, finite _ => infinity
  | infinity, infinity => infinity
  | _, _ => undefined

protected def sub : Exact → Exact → Exact
  | finite a, finite b => finite (a - b)
  | infinity, finite _ => infinity
  | _, _ => undefined

protected def div : Exact → Exact → Exact
  | finite a, finite b => if b = 0 then undefined else finite (a / b)
  | finite _, infinity => finite 0
  | infinity, finite b => if 0 < b then infinity else undefined
  | _, _ => undefined

/-- Strict comparison, never true of what is undefined. -/
protected def less : Exact → Exact → Bool
  | finite a, finite b => decide (a < b)
  | finite _, infinity => true
  | _, _ => false

/-- Equality of values, never true of what is undefined. -/
protected def same : Exact → Exact → Bool
  | finite a, finite b => decide (a = b)
  | infinity, infinity => true
  | _, _ => false

instance : Scalar Exact where
  add := Exact.add
  sub := Exact.sub
  div := Exact.div
  lt x y := x.less y = true
  beq := Exact.same
  decLt x y := inferInstanceAs (Decidable (x.less y = true))
  zero := finite 0
  one := finite 1
  infinity := infinity
  ofInt? n := some (finite n)

variable {a b : ℚ} {x : Exact}

theorem finite_ne_undefined : finite a ≠ undefined := by rintro ⟨⟩

theorem infinity_ne_undefined : infinity ≠ undefined := by rintro ⟨⟩

theorem zero_eq : (Scalar.zero : Exact) = finite 0 := rfl

theorem infinity_eq : (Scalar.infinity : Exact) = infinity := rfl

theorem finite_add : finite a + finite b = finite (a + b) := rfl

theorem finite_sub : finite a - finite b = finite (a - b) := rfl

theorem finite_div (h : b ≠ 0) : finite a / finite b = finite (a / b) := if_neg h

theorem infinity_add_finite : infinity + finite a = infinity := rfl

theorem finite_lt : finite a < finite b ↔ a < b := decide_eq_true_iff

theorem finite_beq : (finite a == finite b) = decide (a = b) := rfl

theorem finite_beq_infinity : (finite a == infinity) = false := rfl

theorem ofInt_eq {n : Int} : (Scalar.ofInt n : Except Fault Exact) = .ok (finite n) := rfl

theorem normalise_infinity : Scalar.normalise infinity = .ok (finite 1) := rfl

theorem normalise_finite (h : 0 ≤ a) : Scalar.normalise (finite a) = .ok (finite (a / (1 + a))) := by
  have hpos : 1 + a ≠ 0 := (add_pos_of_pos_of_nonneg one_pos h).ne'
  unfold Scalar.normalise
  rw [zero_eq, if_neg (fun hlt => (finite_lt.1 hlt).not_ge h), infinity_eq, finite_beq_infinity,
    if_neg Bool.false_ne_true]
  exact congrArg Except.ok (finite_div hpos)

/-- A finite number after another. -/
theorem add_finite_add_finite : x + finite a + finite b = x + finite (a + b) := by
  cases x with
  | finite q => exact congrArg finite (add_assoc q a b)
  | infinity => rfl
  | undefined => rfl

theorem add_finite_zero : x + finite 0 = x := by
  cases x with
  | finite q => exact congrArg finite (add_zero q)
  | infinity => rfl
  | undefined => rfl

theorem add_finite_ne_undefined (h : x ≠ undefined) : x + finite a ≠ undefined := by
  cases x with
  | finite q => exact finite_ne_undefined
  | infinity => exact infinity_ne_undefined
  | undefined => exact absurd rfl h

end Exact

end GoalSearch
