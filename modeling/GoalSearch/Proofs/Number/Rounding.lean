import GoalSearch.Proofs.Number.Finite
import Mathlib.Algebra.Order.Field.Basic
import Mathlib.Algebra.Order.Field.Power
import Mathlib.Tactic.FieldSimp
import Mathlib.Tactic.Linarith
import Mathlib.Tactic.NormNum
import Mathlib.Tactic.Ring

/-!
# Rounding to the nearest

What products and quotients of binary64 values stand for, as long as neither is too large nor too small: the exact
product or quotient, rounded to 53 significant bits (`Rounds`), the even neighbour of two that are equally near. The
residual bits of a significand say where between two integers the exact one lies (`Tells`), so that what is rounded is
the nearest (`Tells.nearest`), and the error is at most half a unit in the last place (`Rounds.error`). `Stands x v`
says that `x` is the number `v`: counts below `2 ^ 53` are what they are (`stands_ofNat`), and `Stands.mul` and
`Stands.div` say what their products and quotients are.
-/

namespace GoalSearch.Binary64

open Float.Model UnpackedFloat

variable {x y : Float} {s : Sign} {m k r : Nat} {e : Int} {q v w : ℚ} {em : ExtendedMantissa}

/-! ### The nearest integer -/

/-- One of the integers nearest to a number, the even one if there are two. -/
structure Nearest (q : ℚ) (r : Nat) : Prop where
  low : q - 1 / 2 ≤ r
  high : (r : ℚ) ≤ q + 1 / 2
  even : (r : ℚ) = q + 1 / 2 ∨ (r : ℚ) = q - 1 / 2 → r % 2 = 0

theorem Nearest.unique {r' : Nat} (h : Nearest q r) (h' : Nearest q r') : r = r' := by
  by_contra hne
  wlog hlt : r < r' generalizing r r'
  · exact this h' h (Ne.symm hne) (by omega)
  -- the two are neighbours, and both are even
  have hle : (r : ℚ) + 1 ≤ r' := by exact_mod_cast hlt
  have hr : (r : ℚ) = q - 1 / 2 := by linarith [h.low, h'.high]
  have hr' : (r' : ℚ) = q + 1 / 2 := by linarith [h.low, h'.high]
  have hstep : r' = r + 1 := by exact_mod_cast (show (r' : ℚ) = r + 1 by linarith)
  have heven := h.even (.inr hr)
  have heven' := h'.even (.inl hr')
  omega

theorem nearest_natCast (n : Nat) : Nearest n n where
  low := by linarith
  high := by linarith
  even h := by rcases h with h | h <;> linarith

/-! ### Rounding to 53 bits -/

theorem two_zpow_pos (e : Int) : (0 : ℚ) < 2 ^ e := zpow_pos two_pos e

/-- A number and the nearest one that has 53 significant bits. -/
inductive Rounds : ℚ → ℚ → Prop
  | zero : Rounds 0 0
  | scaled {q : ℚ} {r : Nat} (e : Int) (hlow : 2 ^ 52 ≤ q) (hhigh : q < 2 ^ 53) (h : Nearest q r) :
      Rounds (q * 2 ^ e) (r * 2 ^ e)

/-- A number has 53 bits before the point for one scale only. -/
theorem eq_of_scaled {q' : ℚ} {e' : Int} (hlow : 2 ^ 52 ≤ q) (hhigh : q < 2 ^ 53) (hlow' : 2 ^ 52 ≤ q')
    (hhigh' : q' < 2 ^ 53) (h : q * 2 ^ e = q' * 2 ^ e') : e = e' ∧ q = q' := by
  have hnot : ∀ {a b : ℚ} {i j : Int}, 2 ^ 52 ≤ b → a < 2 ^ 53 → a * 2 ^ i = b * 2 ^ j → ¬ i < j := by
    intro a b i j hb ha heq hij
    have hpow : (2 : ℚ) ^ j = 2 ^ (j - i) * 2 ^ i := by rw [← zpow_add₀ two_ne_zero, sub_add_cancel]
    have hone : (2 : ℚ) ≤ 2 ^ (j - i) :=
      calc (2 : ℚ) = 2 ^ (1 : Int) := (zpow_one 2).symm
        _ ≤ 2 ^ (j - i) := zpow_le_zpow_right₀ one_le_two (by omega)
    rw [hpow, ← mul_assoc] at heq
    have hab := mul_right_cancel₀ (two_zpow_pos i).ne' heq
    nlinarith
  have he : e = e' := le_antisymm (not_lt.1 (hnot hlow hhigh' h.symm)) (not_lt.1 (hnot hlow' hhigh h))
  subst he
  exact ⟨rfl, mul_right_cancel₀ (two_zpow_pos e).ne' h⟩

theorem scaled_pos (hlow : 2 ^ 52 ≤ q) (e : Int) : 0 < q * 2 ^ e :=
  mul_pos (lt_of_lt_of_le (by norm_num) hlow) (two_zpow_pos e)

theorem Rounds.unique {w' : ℚ} (h : Rounds v w) (h' : Rounds v w') : w = w' := by
  generalize hv : v = v' at h'
  rcases h with _ | ⟨e, hlow, hhigh, h⟩ <;> rcases h' with _ | ⟨e', hlow', hhigh', h'⟩
  · rfl
  · exact absurd hv (scaled_pos hlow' e').ne
  · exact absurd hv (scaled_pos hlow e).ne'
  · obtain ⟨rfl, rfl⟩ := eq_of_scaled hlow hhigh hlow' hhigh' hv
    rw [h.unique h']

/-- The error of rounding is at most half a unit in the last of 53 bits. -/
theorem Rounds.error (h : Rounds v w) : v * (1 - 1 / 2 ^ 53) ≤ w ∧ w ≤ v * (1 + 1 / 2 ^ 53) := by
  rcases h with _ | @⟨q, r, e, hlow, hhigh, h⟩
  · norm_num
  · have hlow' : q * (1 - 1 / 2 ^ 53) ≤ (r : ℚ) := by linarith [h.low]
    have hhigh' : (r : ℚ) ≤ q * (1 + 1 / 2 ^ 53) := by linarith [h.high]
    rw [mul_right_comm q _ (1 - _), mul_right_comm q _ (1 + _)]
    exact ⟨mul_le_mul_of_nonneg_right hlow' (two_zpow_pos e).le,
      mul_le_mul_of_nonneg_right hhigh' (two_zpow_pos e).le⟩

/-! ### Residual bits -/

/-- A significand with two residual bits tells where a number is: at it, or above it by less than a half, by a half or
by more than a half. -/
def Tells : ExtendedMantissa → ℚ → Prop
  | ⟨m, false, false⟩, q => q = m
  | ⟨m, false, true⟩, q => (m : ℚ) < q ∧ q < m + 1 / 2
  | ⟨m, true, false⟩, q => q = m + 1 / 2
  | ⟨m, true, true⟩, q => (m : ℚ) + 1 / 2 < q ∧ q < m + 1

theorem Tells.bounds (h : Tells em q) : (em.mantissa : ℚ) ≤ q ∧ q < em.mantissa + 1 := by
  obtain ⟨m, _ | _, _ | _⟩ := em <;> dsimp only [Tells] at h ⊢ <;> constructor <;> linarith

theorem Tells.nearest (h : Tells em q) : Nearest q em.roundedMantissa := by
  obtain ⟨m, _ | _, _ | _⟩ := em <;> dsimp only [Tells] at h
  · subst h
    exact nearest_natCast m
  · show Nearest q m
    exact ⟨by linarith, by linarith, fun h => by rcases h with h | h <;> linarith⟩
  · -- half way between two neighbours, the even one is taken
    have hparity : ((m % 2 : Nat) : ℚ) = 0 ∨ ((m % 2 : Nat) : ℚ) = 1 := by
      rcases Nat.mod_two_eq_zero_or_one m with h | h <;> simp [h]
    have hcast : ((m + m % 2 : Nat) : ℚ) = m + (m % 2 : Nat) := Nat.cast_add _ _
    show Nearest q (m + m % 2)
    refine ⟨?_, ?_, fun _ => by omega⟩ <;> rcases hparity with hp | hp <;> rw [hcast, hp] <;> linarith
  · have hcast : ((m + 1 : Nat) : ℚ) = m + 1 := Nat.cast_succ m
    show Nearest q (m + 1)
    refine ⟨?_, ?_, fun h => ?_⟩
    · linarith
    · linarith
    · rcases h with h | h <;> linarith

theorem Tells.shiftRightOne (h : Tells em q) : Tells em.shiftRightOne (q / 2) := by
  obtain ⟨m, round, sticky⟩ := em
  have hsplit : ((m / 2 : Nat) : ℚ) * 2 + (m % 2 : Nat) = m := by exact_mod_cast Nat.div_add_mod' m 2
  unfold ExtendedMantissa.shiftRightOne
  dsimp only
  rcases Nat.mod_two_eq_zero_or_one m with hm | hm
  · have hbit : (m % 2 != 0) = false := by rw [hm]; rfl
    rw [hm, Nat.cast_zero] at hsplit
    rw [hbit]
    cases round <;> cases sticky <;> dsimp only [Tells] at h
    · show q / 2 = (m / 2 : Nat)
      linarith
    all_goals exact ⟨by linarith, by linarith⟩
  · have hbit : (m % 2 != 0) = true := by rw [hm]; rfl
    rw [hm, Nat.cast_one] at hsplit
    rw [hbit]
    cases round <;> cases sticky <;> dsimp only [Tells] at h
    · show q / 2 = (m / 2 : Nat) + 1 / 2
      linarith
    all_goals exact ⟨by linarith, by linarith⟩

theorem Tells.shiftRight (h : Tells em q) (k : Nat) : Tells (em >>> k) (q / 2 ^ k) := by
  induction k with
  | zero =>
    rw [pow_zero, div_one]
    exact h
  | succ k ih =>
    rw [pow_succ, ← div_div]
    exact ih.shiftRightOne

theorem tells_exact (m : Nat) : Tells (.ofMantissaAndAccuracy m .exact) m := rfl

/-- The remainder of a division tells where the quotient is. -/
theorem tells_quotient (a : Nat) {b : Nat} (hb : 0 < b) :
    Tells (.ofMantissaAndAccuracy (a / b) (accuracyOfFraction (a % b) b)) (a / b) := by
  have hb' : (0 : ℚ) < b := by exact_mod_cast hb
  have hsplit : (a : ℚ) / b = (a / b : Nat) + ((a % b : Nat) : ℚ) / b := by
    have : (a : ℚ) = b * (a / b : Nat) + (a % b : Nat) := by exact_mod_cast (Nat.div_add_mod a b).symm
    field_simp
    linarith
  rw [hsplit]
  unfold accuracyOfFraction
  by_cases h0 : a % b = 0
  · rw [if_pos h0, h0, Nat.cast_zero, zero_div, add_zero]
    exact tells_exact _
  · have hmore : 0 < ((a % b : Nat) : ℚ) / b := div_pos (by exact_mod_cast Nat.pos_of_ne_zero h0) hb'
    have hless : ((a % b : Nat) : ℚ) / b < 1 := (div_lt_one hb').2 (by exact_mod_cast Nat.mod_lt a hb)
    rw [if_neg h0]
    rcases hc : compare (2 * (a % b)) b with _ | _ | _
    · have hhalf : ((a % b : Nat) : ℚ) * 2 < 1 * b := by
        rw [mul_comm, one_mul]
        exact_mod_cast compare_lt_iff_lt.1 hc
      have hhalf := (div_lt_div_iff₀ hb' two_pos).2 hhalf
      exact ⟨by linarith, by linarith⟩
    · have hhalf : ((a % b : Nat) : ℚ) * 2 = 1 * b := by
        rw [mul_comm, one_mul]
        exact_mod_cast compare_eq_iff_eq.1 hc
      exact congrArg _ ((div_eq_div_iff hb'.ne' two_ne_zero).2 hhalf)
    · have hhalf : 1 * (b : ℚ) < ((a % b : Nat) : ℚ) * 2 := by
        rw [mul_comm _ 2, one_mul]
        exact_mod_cast compare_gt_iff_gt.1 hc
      have hhalf := (div_lt_div_iff₀ two_pos hb').2 hhalf
      exact ⟨by linarith, by linarith⟩

/-! ### Numbers with all the bits of a significand -/

/-- A value is the number, which is zero or has all the bits of a significand. -/
inductive Stands (x : Float) : ℚ → Prop
  | zero {s : Sign} (h : x.toModel.unpack = .zero s) : Stands x 0
  | normal {m : Nat} {e : Int} {hm : 0 < m} (h : x.toModel.unpack = .finite .positive m e hm) (hlow : 2 ^ 52 ≤ m) :
      Stands x (m * 2 ^ e)

/-- A number that is zero, or neither too large nor too small to be rounded to all the bits of a significand. -/
def Moderate (v : ℚ) : Prop := v = 0 ∨ 2 ^ (-900 : Int) ≤ v ∧ v ≤ 2 ^ (900 : Int)

/-- Values that are equal are the same number. -/
theorem Stands.beq (h : Stands x v) (hxy : (x == y) = true) : Stands y v := by
  obtain ⟨a, hx, hy⟩ := beq_iff.1 hxy
  unfold place? at hx hy
  rcases h with ⟨h⟩ | ⟨h, hlow⟩ <;> rw [h] at hx <;> cases hx <;> generalize hu : y.toModel.unpack = u at hy
  · rcases u with ⟨_ | _⟩ | _ | s | ⟨_ | _, m, e, hm⟩ <;> cases hy
    exact .zero hu
  · rcases u with ⟨_ | _⟩ | _ | s | ⟨_ | _, m, e, hm⟩ <;> cases hy
    exact .normal hu hlow

/-- Where a number with 53 bits before the point is, its scale is too. -/
theorem exponent_bounds {i j : Int} (hlow : 2 ^ 52 ≤ q) (hhigh : q < 2 ^ 53) (hi : 2 ^ i ≤ q * 2 ^ e)
    (hj : q * 2 ^ e ≤ 2 ^ j) : i - 53 < e ∧ e ≤ j - 52 := by
  have hpos := two_zpow_pos e
  constructor
  · have h : (2 : ℚ) ^ i < 2 ^ (53 + e) := by
      rw [zpow_add₀ two_ne_zero]
      exact hi.trans_lt (mul_lt_mul_of_pos_right hhigh hpos)
    have := (zpow_lt_zpow_iff_right₀ one_lt_two).1 h
    omega
  · have h : (2 : ℚ) ^ (52 + e) ≤ 2 ^ j := by
      rw [zpow_add₀ two_ne_zero]
      exact (mul_le_mul_of_nonneg_right hlow hpos.le).trans hj
    have := (zpow_le_zpow_iff_right₀ one_lt_two).1 h
    omega

theorem log2_of_bits (hlow : 2 ^ 52 ≤ m) (hhigh : m < 2 ^ 53) : m.log2 = 52 :=
  (Nat.log2_eq_iff (by omega)).2 ⟨hlow, hhigh⟩

/-- What has all the bits of a significand and an exponent that there is, is stored as it is. -/
theorem stored_normal {hm : 0 < m} (hlow : 2 ^ 52 ≤ m) (hhigh : m < 2 ^ 53) (he : -1074 ≤ e) (he' : e ≤ 971) :
    stored (.finite s m e hm) = .finite s m e hm := by
  have hpack : UnpackedFloat.pack .binary64 (.finite s m e hm) =
      packComponents .binary64 s (BitVec.ofNat 11 (e + 1075).toNat) (BitVec.ofNat 52 m) := by
    have hbiased : (e + 1023 + 52).toNat = (e + 1075).toNat := by omega
    have hsmall : ¬ 2048 ≤ (e + 1023 + 52).toNat + 1 := by omega
    have hbits : m.log2 + 1 = 53 := by rw [log2_of_bits hlow hhigh]
    exact (if_neg hsmall).trans ((if_pos hbits).trans
      (congrArg (fun n => packComponents .binary64 s (BitVec.ofNat 11 n) (BitVec.ofNat 52 m)) hbiased))
  have hexponent : (BitVec.ofNat 11 (e + 1075).toNat).toNat = (e + 1075).toNat :=
    (BitVec.toNat_ofNat ..).trans (Nat.mod_eq_of_lt (by omega))
  have hmantissa : (1#1 ++ BitVec.ofNat 52 m).toNat = m := by
    rw [BitVec.toNat_append, ← Nat.shiftLeft_add_eq_or_of_lt (BitVec.isLt _)]
    show 2 ^ 52 + m % 2 ^ 52 = m
    omega
  have hmax : BitVec.ofNat 11 (e + 1075).toNat ≠ -1#11 := by
    intro h
    have h : (BitVec.ofNat 11 (e + 1075).toNat).toNat = 2047 := congrArg BitVec.toNat h
    omega
  have hzero : BitVec.ofNat 11 (e + 1075).toNat ≠ 0#11 := by
    intro h
    have h : (BitVec.ofNat 11 (e + 1075).toNat).toNat = 0 := congrArg BitVec.toNat h
    omega
  have hscale : ((e + 1075).toNat : Int) - (1023 + 52) = e := by omega
  unfold stored
  rw [hpack, unpack_packComponents]
  unfold ofComponents
  dsimp only
  rw [if_neg hmax, if_neg hzero]
  congr 1
  rw [hexponent, hscale]

/-- What is rounded to a value is the nearest number with 53 bits. -/
theorem roundWithAccuracy_rounds {accuracy : Accuracy} (hm : 2 ^ 52 ≤ m) (he : -1074 ≤ e)
    (hq : Tells (.ofMantissaAndAccuracy m accuracy) q) (s : Sign) :
    ∃ m' e' hm', roundWithAccuracy .binary64 s m e accuracy = .finite s m' e' hm' ∧ 2 ^ 52 ≤ m' ∧ m' < 2 ^ 53 ∧
      Rounds (q * 2 ^ e) (m' * 2 ^ e') := by
  have hm0 : 0 < m := by omega
  obtain ⟨hr, hround⟩ := roundWithAccuracy_rounded hm0 he s accuracy
  refine ⟨_, _, hr, hround, ?_⟩
  obtain ⟨k, hk⟩ : ∃ k, k = m.log2 - 52 := ⟨_, rfl⟩
  obtain ⟨r, hr⟩ : ∃ r, r = rounded m accuracy := ⟨_, rfl⟩
  have hlog : m.log2 = 52 + k := by
    have := (Nat.le_log2 hm0.ne').2 hm
    omega
  have hkept : 2 ^ 52 ≤ m / 2 ^ k := by
    rw [Nat.le_div_iff_mul_le (Nat.two_pow_pos k), ← Nat.pow_add, ← hlog]
    exact Nat.log2_self_le hm0.ne'
  have hkept' : m / 2 ^ k < 2 ^ 53 := hk ▸ kept_lt m
  obtain ⟨hlow, hhigh⟩ := hk ▸ hr ▸ rounded_bounds m accuracy
  have htells := hq.shiftRight k
  have hnearest : Nearest (q / 2 ^ k) r := by
    rw [hr, rounded, ← hk]
    exact htells.nearest
  have hbounds := htells.bounds
  rw [mantissa_shiftRight, mantissa_ofMantissaAndAccuracy] at hbounds
  have hrounds := Rounds.scaled (e + k) (q := q / 2 ^ k)
    ((show ((2 ^ 52 : Nat) : ℚ) ≤ (m / 2 ^ k : Nat) by exact_mod_cast hkept).trans' (by norm_num) |>.trans hbounds.1)
    (hbounds.2.trans_le (by exact_mod_cast hkept')) hnearest
  have hscale : q / 2 ^ k * 2 ^ (e + k) = q * 2 ^ e := by
    rw [zpow_add₀ two_ne_zero, zpow_natCast, mul_comm (2 ^ e), ← mul_assoc,
      div_mul_cancel₀ _ (pow_ne_zero k two_ne_zero)]
  rw [hscale] at hrounds
  rw [← hr, ← hk]
  by_cases hcarry : r < 2 ^ 53
  · rw [log2_of_bits (hkept.trans hlow) hcarry, Nat.sub_self, Nat.pow_zero, Nat.div_one, Nat.cast_zero, add_zero]
    exact ⟨hkept.trans hlow, hcarry, hrounds⟩
  · -- all 53 bits were ones
    obtain rfl : r = 2 ^ 53 := by omega
    have hdiv : 2 ^ 53 / 2 ^ ((2 ^ 53).log2 - 52) = 2 ^ 52 := by decide
    have hone : (((2 ^ 53).log2 - 52 : Nat) : Int) = 1 := by decide
    have hscale : ((2 ^ 52 : Nat) : ℚ) * 2 ^ (e + k + 1) = (2 ^ 53 : Nat) * 2 ^ (e + k) := by
      rw [zpow_add₀ two_ne_zero (e + k), zpow_one]
      push_cast
      ring
    rw [hdiv, hone, hscale]
    exact ⟨le_rfl, by decide, hrounds⟩

/-- What a moderate number is rounded to is stored as it is. -/
theorem stands_of_rounds {hm : 0 < m} (hx : x.toModel.unpack = stored (.finite .positive m e hm)) (hlow : 2 ^ 52 ≤ m)
    (hhigh : m < 2 ^ 53) (hv : Moderate v) (h : Rounds v (m * 2 ^ e)) : Stands x (m * 2 ^ e) := by
  have hlow' : (2 : ℚ) ^ 52 ≤ m := by exact_mod_cast hlow
  have hhigh' : (m : ℚ) < 2 ^ 53 := by exact_mod_cast hhigh
  have hpos := scaled_pos hlow' e
  obtain ⟨herror, herror'⟩ := h.error
  have hrange : (2 : ℚ) ^ (-901 : Int) ≤ m * 2 ^ e ∧ (m : ℚ) * 2 ^ e ≤ 2 ^ (901 : Int) := by
    rcases hv with rfl | ⟨hsmall, hlarge⟩
    · linarith
    · have hhalf : (2 : ℚ) ^ (-901 : Int) = 2 ^ (-900 : Int) * (1 / 2) := by
        rw [show (-901 : Int) = -900 + -1 from rfl, zpow_add₀ two_ne_zero, zpow_neg_one, one_div]
      have htwice : (2 : ℚ) ^ (901 : Int) = 2 ^ (900 : Int) * 2 := by
        rw [show (901 : Int) = 900 + 1 from rfl, zpow_add₀ two_ne_zero, zpow_one]
      have hpos := two_zpow_pos (-900)
      rw [hhalf, htwice]
      generalize (2 : ℚ) ^ (-900 : Int) = small at *
      generalize (2 : ℚ) ^ (900 : Int) = large at *
      exact ⟨by linarith only [hpos, hsmall, herror], by linarith only [hpos, hsmall, hlarge, herror']⟩
  obtain ⟨he, he'⟩ := exponent_bounds hlow' hhigh' hrange.1 hrange.2
  rw [stored_normal hlow hhigh (by omega) (by omega)] at hx
  exact .normal hx hlow

/-! ### Products and quotients -/

theorem two_pow_le_cast (h : 2 ^ k ≤ m) : (2 : ℚ) ^ k ≤ m := by exact_mod_cast h

theorem cast_lt_two_pow (h : m < 2 ^ k) : (m : ℚ) < 2 ^ k := by exact_mod_cast h

/-- A product is the nearest number to what it is the product of. -/
theorem Stands.mul (hx : Stands x v) (hy : Stands y w) (h : Moderate (v * w)) :
    ∃ p, Stands (x * y) p ∧ Rounds (v * w) p := by
  have hmul : (x * y).toModel.unpack =
      stored (UnpackedFloat.mul .binary64 x.toModel.unpack y.toModel.unpack) := rfl
  rcases hx with @⟨s, hx⟩ | @⟨m, e, hm, hx, hlow⟩ <;>
    rcases hy with @⟨s', hy⟩ | @⟨m', e', hm', hy, hlow'⟩ <;> rw [hx, hy] at hmul
  · exact ⟨0, .zero (hmul.trans stored_zero), by rw [zero_mul]; exact .zero⟩
  · exact ⟨0, .zero (hmul.trans stored_zero), by rw [zero_mul]; exact .zero⟩
  · exact ⟨0, .zero (hmul.trans stored_zero), by rw [mul_zero]; exact .zero⟩
  · have hhigh := (unpack_finite_bounds hx).1
    have hhigh' := (unpack_finite_bounds hy).1
    have hproduct : (m : ℚ) * 2 ^ e * (m' * 2 ^ e') = (m * m' : Nat) * 2 ^ (e + e') := by
      rw [zpow_add₀ two_ne_zero, Nat.cast_mul]
      ring
    have hbits : 2 ^ 52 ≤ m * m' := hlow.trans (Nat.le_mul_of_pos_right m hm')
    have he : -1074 ≤ e + e' := by
      rcases h with h | ⟨h, -⟩
      · exact absurd h (hproduct ▸ (scaled_pos (two_pow_le_cast hbits) _).ne')
      · have hless : ((m * m' : Nat) : ℚ) < 2 ^ 106 :=
          cast_lt_two_pow (lt_of_lt_of_eq (Nat.mul_lt_mul_of_lt_of_lt hhigh hhigh') (by decide))
        have hless : (2 : ℚ) ^ (-900 : Int) < 2 ^ (106 + (e + e')) := by
          rw [zpow_add₀ two_ne_zero]
          exact (hproduct ▸ h).trans_lt (mul_lt_mul_of_pos_right hless (two_zpow_pos _))
        have := (zpow_lt_zpow_iff_right₀ one_lt_two).1 hless
        omega
    obtain ⟨k, f, hk, hround, hlow, hhigh, hrounds⟩ := roundWithAccuracy_rounds hbits he (tells_exact _) .positive
    replace hmul := hmul.trans (congrArg stored hround)
    rw [← hproduct] at hrounds
    exact ⟨_, stands_of_rounds hmul hlow hhigh h hrounds, hrounds⟩

theorem divCore_eq {m' : Nat} {e' : Int} (hlow : 2 ^ 52 ≤ m) (hhigh : m < 2 ^ 53) (hlow' : 2 ^ 52 ≤ m')
    (hhigh' : m' < 2 ^ 53) (he : -1021 ≤ e - e') : divCore .binary64 m e m' e' =
      (m * 2 ^ 53 / m', e - e' - 53, accuracyOfFraction (m * 2 ^ 53 % m') m') := by
  have htarget : Format.binary64.targetExponent (totalExponent m e - totalExponent m' e') = e - e' - 53 := by
    show max ((m.log2 + 1 + e) - (m'.log2 + 1 + e') - 53) (-1074) = _
    rw [log2_of_bits hlow hhigh, log2_of_bits hlow' hhigh']
    omega
  have hmin : min (e - e') (e - e' - 53) = e - e' - 53 := by omega
  have hshift : (e - e' - (e - e' - 53)).toNat = 53 := by omega
  unfold divCore
  dsimp only
  rw [htarget, hmin, hshift, Nat.shiftLeft_eq]

/-- A quotient is the nearest number to what it is the quotient of. -/
theorem Stands.div (hx : Stands x v) (hy : Stands y w) (hw : w ≠ 0) (h : Moderate (v / w)) :
    ∃ p, Stands (x / y) p ∧ Rounds (v / w) p := by
  have hdiv : (x / y).toModel.unpack =
      stored (UnpackedFloat.div .binary64 x.toModel.unpack y.toModel.unpack) := rfl
  rcases hy with _ | @⟨m', e', hm', hy, hlow'⟩
  · exact absurd rfl hw
  rcases hx with @⟨s, hx⟩ | @⟨m, e, hm, hx, hlow⟩ <;> rw [hx, hy] at hdiv
  · exact ⟨0, .zero (hdiv.trans stored_zero), by rw [zero_div]; exact .zero⟩
  · have hhigh := (unpack_finite_bounds hx).1
    have hhigh' := (unpack_finite_bounds hy).1
    have hm0 : (m' : ℚ) ≠ 0 := by exact_mod_cast hm'.ne'
    have hquotient : (m : ℚ) * 2 ^ e / (m' * 2 ^ e') = ((m * 2 ^ 53 : Nat) : ℚ) / m' * 2 ^ (e - e' - 53) := by
      rw [zpow_sub₀ two_ne_zero (e - e'), zpow_sub₀ two_ne_zero, Nat.cast_mul, Nat.cast_pow, Nat.cast_ofNat]
      field_simp
    have he : -1021 ≤ e - e' := by
      rcases h with h | ⟨h, -⟩
      · have hpos := div_pos (scaled_pos (two_pow_le_cast hlow) e) (scaled_pos (two_pow_le_cast hlow') e')
        exact absurd h hpos.ne'
      · have hless : (m : ℚ) / m' < 2 := by
          rw [div_lt_iff₀ (by exact_mod_cast hm')]
          exact_mod_cast (show m < 2 * m' by omega)
        have hless : (2 : ℚ) ^ (-900 : Int) < 2 ^ (1 + (e - e')) := by
          rw [zpow_add₀ two_ne_zero, zpow_one, zpow_sub₀ two_ne_zero]
          rw [mul_div_mul_comm] at h
          exact h.trans_lt (mul_lt_mul_of_pos_right hless (div_pos (two_zpow_pos e) (two_zpow_pos e')))
        have := (zpow_lt_zpow_iff_right₀ one_lt_two).1 hless
        omega
    have hbits : 2 ^ 52 ≤ m * 2 ^ 53 / m' := by
      rw [Nat.le_div_iff_mul_le hm']
      omega
    have hcore := divCore_eq hlow hhigh hlow' hhigh' he
    have htells := tells_quotient (m * 2 ^ 53) hm'
    obtain ⟨k, f, hk, hround, hlow, hhigh, hrounds⟩ := 
      roundWithAccuracy_rounds hbits (show -1074 ≤ e - e' - 53 by omega) htells .positive
    have hresult : UnpackedFloat.div .binary64 (.finite .positive m e hm) (.finite .positive m' e' hm') =
        .finite .positive k f hk := by
      unfold UnpackedFloat.div
      dsimp only
      rw [hcore]
      exact hround
    rw [hresult] at hdiv
    rw [← hquotient] at hrounds
    exact ⟨_, stands_of_rounds hdiv hlow hhigh h hrounds, hrounds⟩

/-! ### Counts -/

theorem rounds_of_bits (hlow : 2 ^ 52 ≤ m) (hhigh : m < 2 ^ 53) (e : Int) : Rounds (m * 2 ^ e) (m * 2 ^ e) :=
  .scaled e (two_pow_le_cast hlow) (cast_lt_two_pow hhigh) (nearest_natCast m)

theorem moderate_natCast (hm : m < 2 ^ 53) : Moderate m := by
  rcases Nat.eq_zero_or_pos m with rfl | h0
  · exact .inl Nat.cast_zero
  · refine .inr ⟨?_, ?_⟩
    · calc (2 : ℚ) ^ (-900 : Int) ≤ 2 ^ (0 : Int) := zpow_le_zpow_right₀ one_le_two (by decide)
        _ ≤ m := by rw [zpow_zero]; exact_mod_cast h0
    · calc (m : ℚ) ≤ 2 ^ (53 : Int) := by exact_mod_cast hm.le
        _ ≤ 2 ^ (900 : Int) := zpow_le_zpow_right₀ one_le_two (by decide)

/-- Shifting a count up to all the bits of a significand. -/
theorem exists_bits (h0 : 0 < m) (hm : m < 2 ^ 53) :
    ∃ j, j ≤ 52 ∧ 2 ^ 52 ≤ m <<< j ∧ m <<< j < 2 ^ 53 ∧ j = 52 - m.log2 := by
  have hlog : m.log2 < 53 := (Nat.log2_lt h0.ne').2 hm
  refine ⟨52 - m.log2, Nat.sub_le _ _, ?_, ?_, rfl⟩ <;> rw [Nat.shiftLeft_eq]
  · calc 2 ^ 52 = 2 ^ m.log2 * 2 ^ (52 - m.log2) := by rw [← Nat.pow_add, Nat.add_sub_cancel' (by omega)]
      _ ≤ m * 2 ^ (52 - m.log2) := Nat.mul_le_mul_right _ (Nat.log2_self_le h0.ne')
  · calc m * 2 ^ (52 - m.log2) < 2 ^ (m.log2 + 1) * 2 ^ (52 - m.log2) :=
          Nat.mul_lt_mul_of_pos_right Nat.lt_log2_self (Nat.two_pow_pos _)
      _ = 2 ^ 53 := by rw [← Nat.pow_add]; congr 1; omega

theorem shiftLeft_scale (m j : Nat) : ((m <<< j : Nat) : ℚ) * 2 ^ (-j : Int) = m := by
  rw [Nat.shiftLeft_eq, Nat.cast_mul, Nat.cast_pow, Nat.cast_ofNat, mul_assoc, ← zpow_natCast,
    ← zpow_add₀ two_ne_zero, add_neg_cancel, zpow_zero, mul_one]

theorem rounds_natCast (hm : m < 2 ^ 53) : Rounds m m := by
  rcases Nat.eq_zero_or_pos m with rfl | h0
  · rw [Nat.cast_zero]
    exact .zero
  · obtain ⟨j, -, hlow, hhigh, -⟩ := exists_bits h0 hm
    rw [← shiftLeft_scale m j]
    exact rounds_of_bits hlow hhigh _

theorem stands_ofInt (hm : m < 2 ^ 53) (hx : x.toModel.unpack = stored (UnpackedFloat.ofInt .binary64 m)) :
    Stands x m := by
  rcases Nat.eq_zero_or_pos m with rfl | h0
  · rw [Nat.cast_zero]
    exact .zero (hx.trans stored_zero)
  · obtain ⟨j, hj, hlow, hhigh, hlog⟩ := exists_bits h0 hm
    have htarget : Format.binary64.targetExponent (totalExponent m 0) = max ((m.log2 : Int) + 1 + 0 - 53) (-1074) := rfl
    have hshift : (0 - max ((m.log2 : Int) + 1 + 0 - 53) (-1074)).toNat = j := by omega
    obtain ⟨k, f, hk, hround, hlow', hhigh', hrounds⟩ :=
      roundWithAccuracy_rounds hlow (e := 0 - j) (by omega) (tells_exact _) .positive
    have hresult : UnpackedFloat.ofInt .binary64 m = .finite .positive k f hk := by
      rw [UnpackedFloat.ofInt, normalize_of_pos h0, UnpackedFloat.round, decreaseExponent]
      dsimp only
      rw [htarget, hshift]
      exact hround
    rw [hresult] at hx
    have hvalue : (m <<< j : Nat) * (2 : ℚ) ^ (0 - j : Int) = m := by rw [zero_sub, shiftLeft_scale]
    rw [hvalue] at hrounds
    rw [(rounds_natCast hm).unique hrounds]
    exact stands_of_rounds hx hlow' hhigh' (moderate_natCast hm) hrounds

theorem stands_one : Stands 1.0 1 := by
  obtain ⟨m, e, hm, h, hvalue⟩ : ∃ m e h, (1.0 : Float).toModel.unpack = .finite .positive m e h ∧
      m = 2 ^ 52 ∧ e = -52 := by
    have hplace := place?_one
    unfold place? at hplace
    generalize (1.0 : Float).toModel.unpack = u at hplace
    rcases u with ⟨_ | _⟩ | _ | s | ⟨_ | _, m, e, hm⟩ <;> cases hplace
    exact ⟨_, _, hm, rfl, rfl, rfl⟩
  obtain ⟨rfl, rfl⟩ := hvalue
  have hone : ((2 ^ 52 : Nat) : ℚ) * 2 ^ (-52 : Int) = 1 := by norm_num
  exact hone ▸ .normal h le_rfl

/-- Counts below `2 ^ 53` are what they are. -/
theorem stands_ofNat (hm : m < 2 ^ 53) : Stands (Float.ofNat m) m := by
  have hexact : m.toUInt64.toNat = m := UInt64.toNat_ofNat_of_lt' (hm.trans (by decide))
  show Stands (Float.ofScientific m false 0) m
  unfold Float.ofScientific
  rw [dif_pos ⟨hm, by decide⟩, if_neg (by decide),
    show Float.exactlyRepresentablePowersOfTen[0] = 1.0 from by decide +kernel]
  have hcount : Stands m.toUInt64.toFloat m := by
    refine stands_ofInt hm ?_
    show stored (UnpackedFloat.ofInt .binary64 m.toUInt64.toNat) = _
    rw [hexact]
  obtain ⟨p, hp, hrounds⟩ := hcount.mul stands_one (by rw [mul_one]; exact moderate_natCast hm)
  rw [mul_one] at hrounds
  rwa [(rounds_natCast hm).unique hrounds]

end GoalSearch.Binary64
