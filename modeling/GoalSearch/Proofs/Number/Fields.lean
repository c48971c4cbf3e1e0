import GoalSearch.Proofs.Number.Rounding

/-!
# Numbers read off the bits

The fields of a value are those that it is unpacked to (`fields_of_finite`), so the quotient that they are read as is
the number that the value stands for (`Stands.ratio`). Cutting it off to an integer and comparing it with an integer are
therefore exact (`Stands.le_truncate`, `Stands.lt_int`).
-/

namespace GoalSearch.Binary64

open Float.Model UnpackedFloat

variable {x : Float} {s : Sign} {m : Nat} {e : Int} {v : ℚ}

theorem unpack_fields : x.toModel.unpack =
    ofComponents (Sign.ofBitVec (@unpackSign .binary64 x.toModel.toBits.toBitVec))
      (@unpackExponent .binary64 x.toModel.toBits.toBitVec) (@unpackMantissa .binary64 x.toModel.toBits.toBitVec) :=
  unpack_eq _

/-- The fields of a finite value are those that it is unpacked to. -/
theorem fields_of_finite {hm : 0 < m} (hx : x.toModel.unpack = .finite s m e hm) :
    isFinite x = true ∧ significand x = m ∧ exponent x = e := by
  unfold isFinite significand exponent
  rw [exponentField_eq, fractionField_eq]
  rw [unpack_fields] at hx
  generalize @unpackExponent .binary64 x.toModel.toBits.toBitVec = E at hx ⊢
  generalize @unpackMantissa .binary64 x.toModel.toBits.toBitVec = M at hx ⊢
  rcases ofComponents_cases (Sign.ofBitVec (@unpackSign .binary64 x.toModel.toBits.toBitVec)) E M with
    ⟨-, -, h⟩ | ⟨-, -, h⟩ | ⟨-, -, h⟩ | ⟨rfl, -, _, h⟩ | ⟨hmax, hzero, _, h⟩ <;> cases h.symm.trans hx
  · exact ⟨rfl, rfl, rfl⟩
  · have hfinite : (E.toNat != 0x7FF) = true := bne_iff_ne.2 fun h => hmax (BitVec.eq_of_toNat_eq h)
    have hfield : ¬ (E.toNat == 0) = true := fun h => hzero (BitVec.eq_of_toNat_eq (beq_iff_eq.1 h))
    rw [if_neg hfield, if_neg hfield]
    exact ⟨hfinite, (toNat_one_append M).symm, rfl⟩

theorem significand_of_zero (hx : x.toModel.unpack = .zero s) : isFinite x = true ∧ significand x = 0 := by
  unfold isFinite significand
  rw [exponentField_eq, fractionField_eq]
  rw [unpack_fields] at hx
  generalize @unpackExponent .binary64 x.toModel.toBits.toBitVec = E at hx ⊢
  generalize @unpackMantissa .binary64 x.toModel.toBits.toBitVec = M at hx ⊢
  rcases ofComponents_cases (Sign.ofBitVec (@unpackSign .binary64 x.toModel.toBits.toBitVec)) E M with
    ⟨-, -, h⟩ | ⟨-, -, h⟩ | ⟨rfl, rfl, h⟩ | ⟨-, -, _, h⟩ | ⟨-, -, _, h⟩ <;> cases h.symm.trans hx
  exact ⟨rfl, rfl⟩

theorem signField_eq :
    (x.toBits >>> 63).toNat = (@unpackSign .binary64 x.toModel.toBits.toBitVec).toNat := by
  unfold unpackSign
  simp only [UInt64.toNat_shiftRight, BitVec.toNat_cast, BitVec.extractLsb_toNat]
  have hbits : x.toBits.toNat < 2 ^ 64 := x.toBits.toNat_lt
  show x.toBits.toNat >>> 63 = x.toBits.toNat >>> 63 % 2
  rw [Nat.shiftRight_eq_div_pow]
  omega

theorem sign?_ofComponents {E : BitVec 11} {M : BitVec 52} {s' : Sign} (h : sign? (ofComponents s E M) = some s') :
    s = s' := by
  rcases ofComponents_cases s E M with
    ⟨-, -, e⟩ | ⟨-, -, e⟩ | ⟨-, -, e⟩ | ⟨-, -, _, e⟩ | ⟨-, -, _, e⟩ <;> rw [e] at h <;> cases h <;> rfl

theorem isNegative_of_positive (hx : sign? x.toModel.unpack = some .positive) : isNegative x = false := by
  rw [unpack_fields] at hx
  have hsign := sign?_ofComponents hx
  have hzero : @unpackSign .binary64 x.toModel.toBits.toBitVec = 0#1 := by
    unfold Sign.ofBitVec at hsign
    split at hsign
    · assumption
    · cases hsign
  have hfield : (x.toBits >>> 63).toNat = 0 := by rw [signField_eq, hzero]; rfl
  exact beq_eq_false_iff_ne.2 fun h => by rw [h] at hfield; cases hfield

/-- The number is the exact value that is read off the bits, which has a sign only if it is not zero. -/
theorem Stands.ratio (h : Stands x v) : isFinite x = true ∧ 0 < (ratio x).2 ∧
    ((ratio x).1 : ℚ) = v * (ratio x).2 ∧ (isNegative x = true → (ratio x).1 = 0) := by
  refine ⟨?_, Nat.two_pow_pos _, ?_, fun hnegative => ?_⟩
  · rcases h with ⟨h⟩ | ⟨h, -⟩
    · exact (significand_of_zero h).1
    · exact (fields_of_finite h).1
  · unfold Binary64.ratio
    dsimp only [Nat.pow_eq]
    rcases h with ⟨h⟩ | ⟨h, hlow⟩
    · rw [(significand_of_zero h).2, Nat.zero_mul, Nat.cast_zero, zero_mul]
    · obtain ⟨-, hm, he⟩ := fields_of_finite h
      rw [hm, he, Nat.cast_mul, Nat.cast_pow, Nat.cast_pow, Nat.cast_ofNat, mul_assoc, ← zpow_natCast, ← zpow_natCast,
        ← zpow_add₀ two_ne_zero]
      congr 2
      omega
  · unfold Binary64.ratio
    rcases h with ⟨h⟩ | ⟨h, -⟩
    · exact (congrArg (· * _) (significand_of_zero h).2).trans (Nat.zero_mul _)
    · rw [isNegative_of_positive (by rw [h]; rfl)] at hnegative
      cases hnegative

theorem withSign_eq {n : Nat} (h : isNegative x = true → n = 0) : withSign x n = n := by
  unfold withSign
  split
  · rw [h ‹_›]
    rfl
  · rfl

/-- An integer is not above the integer part of a number if it is not above the number. -/
theorem Stands.le_truncate (h : Stands x v) (p : Nat) :
    ∃ n : Nat, truncate? x = some (n : Int) ∧ (p ≤ n ↔ (p : ℚ) ≤ v) := by
  obtain ⟨hfinite, hden, hnum, hnegative⟩ := h.ratio
  have hden' : (0 : ℚ) < (Binary64.ratio x).2 := by exact_mod_cast hden
  refine ⟨(Binary64.ratio x).1 / (Binary64.ratio x).2, ?_, ?_⟩
  · unfold truncate?
    rw [if_pos hfinite]
    exact congrArg some (withSign_eq fun h => (congrArg (· / _) (hnegative h)).trans (Nat.zero_div _))
  · rw [Nat.le_div_iff_mul_le hden, ← mul_le_mul_iff_left₀ hden', ← hnum, ← Nat.cast_mul, Nat.cast_le]

/-- Numbers are compared with integers exactly. -/
theorem Stands.lt_int (h : Stands x v) (p : Nat) : (Number.real x).lt (.int p) = true ↔ v < p := by
  obtain ⟨hfinite, hden, hnum, hnegative⟩ := h.ratio
  have hden' : (0 : ℚ) < (Binary64.ratio x).2 := by exact_mod_cast hden
  have hexponent : (exponentField x == 0x7FF) = false := by
    rw [isFinite, bne_iff_ne] at hfinite
    exact beq_eq_false_iff_ne.2 hfinite
  have hcompare : compareInt? p x =
      some (compare ((p : Int) * (Binary64.ratio x).2) ((Binary64.ratio x).1 : Int)) := by
    unfold compareInt? isNaN isInfinite
    rw [hexponent, if_neg (by simp), if_neg (by simp)]
    exact congrArg (fun n => some (compare ((p : Int) * (Binary64.ratio x).2) n)) (withSign_eq hnegative)
  show (compareInt? p x == some .gt) = true ↔ _
  rw [hcompare, beq_iff_eq, Option.some.injEq, compare_gt_iff_gt, ← mul_lt_mul_iff_left₀ hden', ← hnum]
  exact_mod_cast Iff.rfl

end GoalSearch.Binary64
