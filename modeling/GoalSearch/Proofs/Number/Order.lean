import GoalSearch.Number.Binary64
import Mathlib.Data.Prod.Lex

/-!
# The order of binary64 values

`place? x` is the place of `x` in the order of all values, by class, exponent and significand; a NaN has none,
and the two zeros share one. Comparison and equality compare places (`lt_iff`, `le_iff`, `beq_iff`), so among the
values that are no NaN the order is linear up to the two zeros.
-/

namespace GoalSearch.Binary64

open Float.Model

/-- Places are compared by class, then by exponent, then by significand. -/
abbrev Place := Int ×ₗ Int ×ₗ Int

/-- The place of an unpacked value; negative values stand in mirrored order. -/
def unpackedPlace? : UnpackedFloat → Option Place
  | .notANumber => none
  | .infinity .negative => some (toLex (-2, toLex (0, 0)))
  | .finite .negative m e _ => some (toLex (-1, toLex (-e, -(m : Int))))
  | .zero _ => some (toLex (0, toLex (0, 0)))
  | .finite .positive m e _ => some (toLex (1, toLex (e, (m : Int))))
  | .infinity .positive => some (toLex (2, toLex (0, 0)))

theorem unpacked_lt_iff (u v : UnpackedFloat) :
    u.lt v = true ↔ ∃ a b, unpackedPlace? u = some a ∧ unpackedPlace? v = some b ∧ a < b := by
  show (u.compare v == some .lt) = true ↔ _
  rcases u with ⟨_ | _⟩ | _ | ⟨_ | _⟩ | ⟨_ | _, m, e, hm⟩ <;>
    rcases v with ⟨_ | _⟩ | _ | ⟨_ | _⟩ | ⟨_ | _, m', e', hm'⟩ <;>
    dsimp only [UnpackedFloat.compare, unpackedPlace?] <;>
    simp [Prod.Lex.toLex_lt_toLex, Ordering.then_eq_lt, Ordering.then_eq_gt, compare_lt_iff_lt,
      compare_gt_iff_gt]
  rfl

theorem unpacked_beq_iff (u v : UnpackedFloat) :
    u.beq v = true ↔ ∃ a, unpackedPlace? u = some a ∧ unpackedPlace? v = some a := by
  show (u.compare v == some .eq) = true ↔ _
  rcases u with ⟨_ | _⟩ | _ | ⟨_ | _⟩ | ⟨_ | _, m, e, hm⟩ <;>
    rcases v with ⟨_ | _⟩ | _ | ⟨_ | _⟩ | ⟨_ | _, m', e', hm'⟩ <;>
    dsimp only [UnpackedFloat.compare, unpackedPlace?] <;>
    simp [Ordering.then_eq_eq]
  · rfl
  · rfl
  · omega
  · omega

theorem unpacked_le_iff (u v : UnpackedFloat) :
    u.le v = true ↔ ∃ a b, unpackedPlace? u = some a ∧ unpackedPlace? v = some b ∧ a ≤ b := by
  have hle : u.le v = true ↔ u.lt v = true ∨ u.beq v = true := by
    show (u.compare v).any (·.isLE) = true ↔ (u.compare v == some .lt) = true ∨ (u.compare v == some .eq) = true
    rcases u.compare v with _ | _ | _ | _ <;> decide
  rw [hle, unpacked_lt_iff, unpacked_beq_iff]
  constructor
  · rintro (⟨a, b, ha, hb, hab⟩ | ⟨a, ha, hb⟩)
    · exact ⟨a, b, ha, hb, hab.le⟩
    · exact ⟨a, a, ha, hb, le_rfl⟩
  · rintro ⟨a, b, ha, hb, hab⟩
    rcases hab.lt_or_eq with hab | rfl
    · exact .inl ⟨a, b, ha, hb, hab⟩
    · exact .inr ⟨a, ha, hb⟩

/-- The place of a value in the order, none for a NaN. -/
def place? (x : Float) : Option Place := unpackedPlace? x.toModel.unpack

variable {x y z : Float}

theorem lt_iff : x < y ↔ ∃ a b, place? x = some a ∧ place? y = some b ∧ a < b := by
  rw [place?, place?, ← unpacked_lt_iff]
  show decide (x.toModel < y.toModel) = true ↔ _
  rw [decide_eq_true_iff]
  exact Iff.rfl

theorem beq_iff : (x == y) = true ↔ ∃ a, place? x = some a ∧ place? y = some a := by
  rw [place?, place?, ← unpacked_beq_iff]
  exact Iff.rfl

theorem le_iff : x ≤ y ↔ ∃ a b, place? x = some a ∧ place? y = some b ∧ a ≤ b := by
  rw [place?, place?, ← unpacked_le_iff]
  show decide (x.toModel ≤ y.toModel) = true ↔ _
  rw [decide_eq_true_iff]
  exact Iff.rfl

/-! ### Values that are no NaN -/

theorem exponentField_eq :
    exponentField x = (@UnpackedFloat.unpackExponent .binary64 x.toModel.toBits.toBitVec).toNat := by
  unfold exponentField UnpackedFloat.unpackExponent
  simp only [UInt64.toNat_and, UInt64.toNat_shiftRight, BitVec.toNat_cast, BitVec.extractLsb_toNat]
  exact Nat.and_two_pow_sub_one_eq_mod _ 11

theorem fractionField_eq :
    fractionField x = (@UnpackedFloat.unpackMantissa .binary64 x.toModel.toBits.toBitVec).toNat := by
  unfold fractionField UnpackedFloat.unpackMantissa
  simp only [UInt64.toNat_and, BitVec.toNat_cast, BitVec.extractLsb_toNat]
  exact Nat.and_two_pow_sub_one_eq_mod _ 52

theorem isNaN_iff : isNaN x = true ↔ place? x = none := by
  have he : exponentField x = 0x7FF ↔
      @UnpackedFloat.unpackExponent .binary64 x.toModel.toBits.toBitVec = -1#_ := by
    rw [exponentField_eq, ← BitVec.toNat_inj]; rfl
  have hf : fractionField x = 0 ↔ @UnpackedFloat.unpackMantissa .binary64 x.toModel.toBits.toBitVec = 0#_ := by
    rw [fractionField_eq, ← BitVec.toNat_inj]; rfl
  have hplace : ∀ s m e hm, unpackedPlace? (.finite s m e hm) ≠ none := by
    intro s m e hm
    cases s <;> exact Option.some_ne_none _
  unfold isNaN place? Float.Model.unpack UnpackedFloat.unpack
  rw [Bool.and_eq_true, beq_iff_eq, bne_iff_ne, ne_eq, he, hf]
  dsimp only
  by_cases h₁ : @UnpackedFloat.unpackExponent .binary64 x.toModel.toBits.toBitVec = -1#_
  · rw [if_pos h₁]
    by_cases h₂ : @UnpackedFloat.unpackMantissa .binary64 x.toModel.toBits.toBitVec = 0#_
    · rw [if_pos h₂]
      refine iff_of_false (fun h => h.2 h₂) ?_
      cases UnpackedFloat.Sign.ofBitVec _ <;> exact Option.some_ne_none _
    · rw [if_neg h₂]
      exact iff_of_true ⟨h₁, h₂⟩ rfl
  · -- only an infinity or a NaN has the largest exponent field
    rw [if_neg h₁]
    refine iff_of_false (fun h => h₁ h.1) ?_
    by_cases h₃ : @UnpackedFloat.unpackExponent .binary64 x.toModel.toBits.toBitVec = 0#_
    · rw [if_pos h₃]
      by_cases h₂ : @UnpackedFloat.unpackMantissa .binary64 x.toModel.toBits.toBitVec = 0#_
      · rw [dif_pos h₂]
        exact Option.some_ne_none _
      · rw [dif_neg h₂]
        exact hplace _ _ _ _
    · rw [if_neg h₃]
      exact hplace _ _ _ _

/-- A value that is no NaN has a place. -/
theorem exists_place (hx : ¬ isNaN x = true) : ∃ a, place? x = some a :=
  Option.ne_none_iff_exists'.1 fun h => hx (isNaN_iff.2 h)

theorem lt_irrefl (x : Float) : ¬ x < x := by
  rw [lt_iff]
  rintro ⟨a, b, ha, hb, hab⟩
  rw [ha] at hb
  exact absurd (Option.some.inj hb) hab.ne

theorem lt_of_lt_of_beq (h : x < y) (he : (y == z) = true) : x < z := by
  obtain ⟨a, b, ha, hb, hab⟩ := lt_iff.1 h
  obtain ⟨c, hc, hc'⟩ := beq_iff.1 he
  rw [hb] at hc
  exact lt_iff.2 ⟨a, b, ha, (Option.some.inj hc) ▸ hc', hab⟩

theorem lt_of_lt_of_not_lt (hz : ¬ isNaN z = true) (h : x < y) (h' : ¬ z < y) : x < z := by
  obtain ⟨a, b, ha, hb, hab⟩ := lt_iff.1 h
  obtain ⟨c, hc⟩ := exists_place hz
  have hbc : ¬ c < b := fun hcb => h' (lt_iff.2 ⟨c, b, hc, hb, hcb⟩)
  exact lt_iff.2 ⟨a, c, ha, hc, lt_of_lt_of_le hab (not_lt.1 hbc)⟩

theorem lt_trans (h : x < y) (h' : y < z) : x < z := by
  obtain ⟨a, b, ha, hb, hab⟩ := lt_iff.1 h
  obtain ⟨b', c, hb', hc, hbc⟩ := lt_iff.1 h'
  obtain rfl : b = b' := Option.some.inj (hb.symm.trans hb')
  exact lt_iff.2 ⟨a, c, ha, hc, hab.trans hbc⟩

/-- What is not above the lesser of two values is above neither. -/
theorem not_lt_of_lesser (hx : ¬ isNaN x = true) (h : ¬ (if y < x then y else x) < z) : ¬ x < z ∧ ¬ y < z := by
  split at h
  · exact ⟨fun hxz => h (lt_trans ‹y < x› hxz), h⟩
  · exact ⟨h, fun hyz => ‹¬ y < x› (lt_of_lt_of_not_lt hx hyz h)⟩

/-- Of two values that are no NaN, one is less or both are equal. -/
theorem beq_of_not_lt (hx : ¬ isNaN x = true) (hy : ¬ isNaN y = true) (hxy : ¬ x < y) (hyx : ¬ y < x) :
    (x == y) = true := by
  obtain ⟨a, ha⟩ := exists_place hx
  obtain ⟨b, hb⟩ := exists_place hy
  have hab : ¬ a < b := fun h => hxy (lt_iff.2 ⟨a, b, ha, hb, h⟩)
  have hba : ¬ b < a := fun h => hyx (lt_iff.2 ⟨b, a, hb, ha, h⟩)
  exact beq_iff.2 ⟨a, ha, (le_antisymm (not_lt.1 hab) (not_lt.1 hba)) ▸ hb⟩

theorem le_of_lt (h : x < y) : x ≤ y := by
  obtain ⟨a, b, ha, hb, hab⟩ := lt_iff.1 h
  exact le_iff.2 ⟨a, b, ha, hb, hab.le⟩

theorem le_trans (h : x ≤ y) (h' : y ≤ z) : x ≤ z := by
  obtain ⟨a, b, ha, hb, hab⟩ := le_iff.1 h
  obtain ⟨b', c, hb', hc, hbc⟩ := le_iff.1 h'
  obtain rfl : b = b' := Option.some.inj (hb.symm.trans hb')
  exact le_iff.2 ⟨a, c, ha, hc, hab.trans hbc⟩

theorem lt_of_le_of_lt (h : x ≤ y) (h' : y < z) : x < z := by
  obtain ⟨a, b, ha, hb, hab⟩ := le_iff.1 h
  obtain ⟨b', c, hb', hc, hbc⟩ := lt_iff.1 h'
  obtain rfl : b = b' := Option.some.inj (hb.symm.trans hb')
  exact lt_iff.2 ⟨a, c, ha, hc, hab.trans_lt hbc⟩

theorem le_of_not_lt (hx : ¬ isNaN x = true) (hy : ¬ isNaN y = true) (h : ¬ y < x) : x ≤ y := by
  obtain ⟨a, ha⟩ := exists_place hx
  obtain ⟨b, hb⟩ := exists_place hy
  exact le_iff.2 ⟨a, b, ha, hb, not_lt.1 fun hba => h (lt_iff.2 ⟨b, a, hb, ha, hba⟩)⟩

theorem not_le_iff (hx : ¬ isNaN x = true) (hy : ¬ isNaN y = true) : ¬ x ≤ y ↔ y < x :=
  ⟨fun h => not_not.1 fun hlt => h (le_of_not_lt hx hy hlt), fun h hle => lt_irrefl x (lt_of_le_of_lt hle h)⟩

theorem not_nan_of_le (h : x ≤ y) : ¬ isNaN x = true ∧ ¬ isNaN y = true := by
  obtain ⟨a, b, ha, hb, -⟩ := le_iff.1 h
  rw [isNaN_iff, isNaN_iff, ha, hb]
  exact ⟨Option.some_ne_none a, Option.some_ne_none b⟩

end GoalSearch.Binary64
