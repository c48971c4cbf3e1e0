import GoalSearch.Proofs.Number.Order
import Mathlib.Algebra.Group.Nat.Defs

/-!
# Arithmetic from zero on

Differences, sums and quotients of binary64 values that are not below zero, as far as distances need them: what is
rounded keeps its sign, and what is below a finite value rounds to a finite value that is not zero (`exists_round`).
So none of the operations gives a NaN or a negative value (`sub_nonneg`, `add_nonneg`, `div_nonneg`), different finite
values have a difference that may be divided by (`sub_pos`), and a sum vanishes with its values only (`add_pos`).
Counts of things, and their shares of one, are numbers (`not_nan_ofNat`, `not_nan_one_div`).
-/

namespace GoalSearch.Binary64

open Float.Model UnpackedFloat

variable {x y : Float} {u v : UnpackedFloat} {s : Sign} {m : Nat} {e : Int}

/-! ### Packing -/

/-- The sign of a value, none for a NaN. -/
def sign? : UnpackedFloat → Option Sign
  | .notANumber => none
  | .infinity s => some s
  | .zero s => some s
  | .finite s _ _ _ => some s

/-- A value as it is after it was stored. -/
def stored (u : UnpackedFloat) : UnpackedFloat := UnpackedFloat.unpack .binary64 (UnpackedFloat.pack .binary64 u)

theorem unpackSign_packComponents {exponent : BitVec 11} {mantissa : BitVec 52} :
    unpackSign (packComponents .binary64 s exponent mantissa) = s.toBitVec := by
  show (s.toBitVec ++ exponent ++ mantissa).extractLsb' 63 1 = _
  rw [BitVec.extractLsb'_append_eq_of_le (by decide), BitVec.extractLsb'_append_eq_of_le (by decide)]
  cases s <;> rfl

theorem ofBitVec_toBitVec : Sign.ofBitVec s.toBitVec = s := by cases s <;> rfl

theorem one_append_pos (mantissa : BitVec 52) : 0 < (1#1 ++ mantissa).toNat := by
  rw [BitVec.toNat_append]
  exact Nat.lt_of_lt_of_le (by decide) Nat.left_le_or

/-- The value that sign, exponent and significand are stored for. -/
def ofComponents (s : Sign) (exponent : BitVec 11) (mantissa : BitVec 52) : UnpackedFloat :=
  let scale : Int := exponent.toNat - (1023 + 52)
  if exponent = -1#11 then
    if mantissa = 0#52 then .infinity s else .notANumber
  else if exponent = 0#11 then
    if h : mantissa = 0#52 then .zero s
    else .finite s mantissa.toNat (scale + 1) (Nat.pos_of_ne_zero fun h0 => h (BitVec.eq_of_toNat_eq h0))
  else .finite s (1#1 ++ mantissa).toNat scale (one_append_pos mantissa)

theorem unpack_eq (b : BitVec Format.binary64.numBits) : UnpackedFloat.unpack .binary64 b =
    ofComponents (Sign.ofBitVec (unpackSign b)) (unpackExponent b) (unpackMantissa b) := rfl

theorem unpack_packComponents {exponent : BitVec 11} {mantissa : BitVec 52} :
    UnpackedFloat.unpack .binary64 (packComponents .binary64 s exponent mantissa) =
      ofComponents s exponent mantissa := by
  rw [unpack_eq, unpackMantissa_packComponents, unpackExponent_packComponents, unpackSign_packComponents,
    ofBitVec_toBitVec]

theorem sign?_dite {p : Prop} [Decidable p] {f : p → UnpackedFloat} {g : ¬ p → UnpackedFloat}
    (hf : ∀ h, sign? (f h) = some s) (hg : ∀ h, sign? (g h) = some s) : sign? (dite p f g) = some s := by
  by_cases h : p
  · rw [dif_pos h, hf h]
  · rw [dif_neg h, hg h]

/-- All that components can be unpacked to. -/
theorem ofComponents_cases (s : Sign) (E : BitVec 11) (M : BitVec 52) :
    (E = -1#11 ∧ M = 0#52 ∧ ofComponents s E M = .infinity s) ∨
    (E = -1#11 ∧ M ≠ 0#52 ∧ ofComponents s E M = .notANumber) ∨
    (E = 0#11 ∧ M = 0#52 ∧ ofComponents s E M = .zero s) ∨
    (E = 0#11 ∧ M ≠ 0#52 ∧ ∃ hm, ofComponents s E M = .finite s M.toNat (-1074) hm) ∨
    (E ≠ -1#11 ∧ E ≠ 0#11 ∧ ∃ hm, ofComponents s E M = .finite s (1#1 ++ M).toNat (E.toNat - 1075) hm) := by
  unfold ofComponents
  dsimp only
  by_cases hmax : E = -1#11
  · rw [if_pos hmax]
    by_cases hm : M = 0#52
    · exact .inl ⟨hmax, hm, if_pos hm⟩
    · exact .inr (.inl ⟨hmax, hm, if_neg hm⟩)
  · rw [if_neg hmax]
    by_cases hzero : E = 0#11
    · subst hzero
      rw [if_pos rfl]
      by_cases hm : M = 0#52
      · exact .inr (.inr (.inl ⟨rfl, hm, dif_pos hm⟩))
      · have hpos : 0 < M.toNat := Nat.pos_of_ne_zero fun h0 => hm (BitVec.eq_of_toNat_eq h0)
        exact .inr (.inr (.inr (.inl ⟨rfl, hm, hpos, dif_neg hm⟩)))
    · rw [if_neg hzero]
      exact .inr (.inr (.inr (.inr ⟨hmax, hzero, one_append_pos M, rfl⟩)))

theorem toNat_one_append (M : BitVec 52) : (1#1 ++ M).toNat = 2 ^ 52 + M.toNat := by
  rw [BitVec.toNat_append, ← Nat.shiftLeft_add_eq_or_of_lt M.isLt]
  rfl

/-- Packed components are a NaN only with the largest exponent and a significand beside it. -/
theorem sign?_unpack_packComponents {exponent : BitVec 11} {mantissa : BitVec 52}
    (h : exponent = -1#11 → mantissa = 0#52) :
    sign? (UnpackedFloat.unpack .binary64 (packComponents .binary64 s exponent mantissa)) = some s := by
  rw [unpack_packComponents]
  rcases ofComponents_cases s exponent mantissa with
    ⟨-, -, e⟩ | ⟨hmax, hm, -⟩ | ⟨-, -, e⟩ | ⟨-, -, _, e⟩ | ⟨-, -, _, e⟩
  · rw [e]; rfl
  · exact absurd (h hmax) hm
  · rw [e]; rfl
  · rw [e]; rfl
  · rw [e]; rfl

theorem ofComponents_finite {exponent : BitVec 11} {mantissa : BitVec 52} (h : exponent ≠ -1#11)
    (hm : exponent = 0#11 → mantissa ≠ 0#52) : ∃ m e hm, ofComponents s exponent mantissa = .finite s m e hm := by
  rcases ofComponents_cases s exponent mantissa with
    ⟨hmax, -⟩ | ⟨hmax, -⟩ | ⟨hzero, hm0, -⟩ | ⟨-, -, hpos, e⟩ | ⟨-, -, hpos, e⟩
  · exact absurd hmax h
  · exact absurd hmax h
  · exact absurd hm0 (hm hzero)
  · exact ⟨_, _, hpos, e⟩
  · exact ⟨_, _, hpos, e⟩

theorem unpack_packComponents_finite {exponent : BitVec 11} {mantissa : BitVec 52} (h : exponent ≠ -1#11)
    (hm : exponent = 0#11 → mantissa ≠ 0#52) : ∃ m e hm,
      UnpackedFloat.unpack .binary64 (packComponents .binary64 s exponent mantissa) = .finite s m e hm := by
  rw [unpack_packComponents]
  exact ofComponents_finite h hm

/-- Stored finite values are bounded, and have all the bits of a significand unless their exponent is least. -/
theorem bounds_of_ofComponents {s' : Sign} {exponent : BitVec 11} {mantissa : BitVec 52} {h : 0 < m}
    (hx : ofComponents s' exponent mantissa = .finite s m e h) :
    m < 2 ^ 53 ∧ -1074 ≤ e ∧ e ≤ 971 ∧ (-1074 < e → 2 ^ 52 ≤ m) := by
  have hmantissa := mantissa.isLt
  have hexponent := exponent.isLt
  rcases ofComponents_cases s' exponent mantissa with
    ⟨-, -, e⟩ | ⟨-, -, e⟩ | ⟨-, -, e⟩ | ⟨-, -, _, e⟩ | ⟨hmax, hzero, _, e⟩ <;> cases e.symm.trans hx
  · omega
  · have hmax : exponent.toNat ≠ 2047 := fun h => hmax (BitVec.eq_of_toNat_eq h)
    have hzero : exponent.toNat ≠ 0 := fun h => hzero (BitVec.eq_of_toNat_eq h)
    have happend := toNat_one_append mantissa
    omega

theorem stored_zero : stored (.zero s) = .zero s := by cases s <;> rfl

theorem stored_infinity : stored (.infinity s) = .infinity s := by cases s <;> rfl

/-- Storing keeps the sign. -/
theorem sign?_stored (hu : u ≠ .notANumber) : sign? (stored u) = sign? u := by
  cases u with
  | notANumber => exact absurd rfl hu
  | infinity s => exact sign?_unpack_packComponents fun _ => rfl
  | zero s => exact congrArg sign? stored_zero
  | finite s m e hm =>
    show sign? (stored _) = some s
    unfold stored UnpackedFloat.pack
    dsimp only
    split
    · exact sign?_unpack_packComponents fun _ => rfl
    · rename_i hsmall
      replace hsmall : (e + 1023 + 52).toNat + 1 < 2048 := Nat.lt_of_not_le hsmall
      split
      · refine sign?_unpack_packComponents fun h => ?_
        have h := congrArg BitVec.toNat h
        replace h : (e + 1023 + 52).toNat % 2048 = 2047 := h
        omega
      · exact sign?_unpack_packComponents fun h => absurd h (by decide)

theorem exists_pack_finite (hm : 0 < m) (hm' : m < 2 ^ 53) (he : -1074 ≤ e) (he' : e ≤ 971) :
    ∃ exponent mantissa,
      UnpackedFloat.pack .binary64 (.finite s m e hm) = packComponents .binary64 s exponent mantissa ∧
      exponent ≠ -1#11 ∧ (exponent = 0#11 → mantissa ≠ 0#52) := by
  unfold UnpackedFloat.pack
  dsimp only
  have hsmall : ¬ 2048 ≤ (e + 1023 + 52).toNat + 1 := by omega
  split
  · exact absurd ‹_› hsmall
  split
  · refine ⟨_, _, rfl, fun h => ?_, fun h => ?_⟩
    · have h := congrArg BitVec.toNat h
      replace h : (e + 1023 + 52).toNat % 2048 = 2047 := h
      omega
    · have h := congrArg BitVec.toNat h
      replace h : (e + 1023 + 52).toNat % 2048 = 0 := h
      omega
  · rename_i hlog
    replace hlog : ¬ m.log2 + 1 = 53 := hlog
    have hlt : m.log2 < 53 := (Nat.log2_lt hm.ne').2 hm'
    have hsub : m < 2 ^ 52 := (Nat.log2_lt hm.ne').1 (by omega)
    refine ⟨_, _, rfl, by decide, fun _ h => ?_⟩
    have h := congrArg BitVec.toNat h
    rw [BitVec.toNat_ofNat, Nat.mod_eq_of_lt hsub] at h
    exact hm.ne' h

/-- A finite value stays finite if it is not too large and not too small. -/
theorem stored_finite (hm : 0 < m) (hm' : m < 2 ^ 53) (he : -1074 ≤ e) (he' : e ≤ 971) :
    ∃ m' e' hm', stored (.finite s m e hm) = .finite s m' e' hm' := by
  obtain ⟨exponent, mantissa, hpack, hexponent, hmantissa⟩ := exists_pack_finite (s := s) hm hm' he he'
  unfold stored
  rw [hpack]
  exact unpack_packComponents_finite hexponent hmantissa

/-! ### Rounding -/

theorem mantissa_shiftRight (em : ExtendedMantissa) (k : Nat) : (em >>> k).mantissa = em.mantissa / 2 ^ k := by
  induction k with
  | zero => exact (Nat.div_one _).symm
  | succ k ih =>
    show (em >>> k).mantissa / 2 = _
    rw [ih, Nat.div_div_eq_div_mul, Nat.pow_succ]

theorem mantissa_ofMantissaAndAccuracy (m : Nat) (accuracy : Accuracy) :
    (ExtendedMantissa.ofMantissaAndAccuracy m accuracy).mantissa = m := by
  rcases accuracy with _ | _ | _ | _ <;> rfl

theorem roundedMantissa_bounds (em : ExtendedMantissa) :
    em.mantissa ≤ em.roundedMantissa ∧ em.roundedMantissa ≤ em.mantissa + 1 := by
  unfold ExtendedMantissa.roundedMantissa
  rcases em.accuracy with _ | _ | _ | _ <;> simp only [Accuracy.roundToNearestEven] <;> omega

/-- As many bits are dropped as there are beyond the 53 of a significand. -/
theorem shiftAmount_eq (he : -1074 ≤ e) :
    (Format.binary64.targetExponent (totalExponent m e) - e).toNat = m.log2 - 52 := by
  have htarget : Format.binary64.targetExponent (totalExponent m e) = max (m.log2 + 1 + e - 53) (-1074) := rfl
  omega

theorem kept_pos (hm : 0 < m) : 0 < m / 2 ^ (m.log2 - 52) := by
  refine Nat.div_pos ?_ (Nat.two_pow_pos _)
  exact (Nat.pow_le_pow_right (by decide) (Nat.sub_le _ _)).trans (Nat.log2_self_le hm.ne')

theorem kept_lt (m : Nat) : m / 2 ^ (m.log2 - 52) < 2 ^ 53 := by
  rw [Nat.div_lt_iff_lt_mul (Nat.two_pow_pos _), ← Nat.pow_add]
  exact Nat.lt_log2_self.trans_le (Nat.pow_le_pow_right (by decide) (by omega))

theorem shiftToTargetExponent_eq (he : -1074 ≤ e) (accuracy : Accuracy) :
    shiftToTargetExponent .binary64 m e accuracy =
      (ExtendedMantissa.ofMantissaAndAccuracy m accuracy >>> (m.log2 - 52), e + (m.log2 - 52 : Nat)) := by
  unfold shiftToTargetExponent shiftToExponent
  dsimp only
  rw [shiftAmount_eq he]

/-- Rounding is to shift, to round, and to shift once more. -/
theorem roundWithAccuracy_eq {accuracy : Accuracy} {em em' : ExtendedMantissa} {e₁ e₂ : Int}
    (hfirst : shiftToTargetExponent .binary64 m e accuracy = (em, e₁))
    (hsecond : shiftToTargetExponent .binary64 em.roundedMantissa e₁ .exact = (em', e₂)) (hpos : 0 < em'.mantissa) :
    roundWithAccuracy .binary64 s m e accuracy = .finite s em'.mantissa e₂ hpos := by
  unfold roundWithAccuracy
  rw [hfirst]
  dsimp only
  rw [hsecond]
  exact dif_neg hpos.ne'

/-- The leading bits of a significand, rounded. -/
def rounded (m : Nat) (accuracy : Accuracy) : Nat :=
  (ExtendedMantissa.ofMantissaAndAccuracy m accuracy >>> (m.log2 - 52)).roundedMantissa

theorem rounded_bounds (m : Nat) (accuracy : Accuracy) :
    m / 2 ^ (m.log2 - 52) ≤ rounded m accuracy ∧ rounded m accuracy ≤ m / 2 ^ (m.log2 - 52) + 1 := by
  have hbounds := roundedMantissa_bounds (ExtendedMantissa.ofMantissaAndAccuracy m accuracy >>> (m.log2 - 52))
  rwa [mantissa_shiftRight, mantissa_ofMantissaAndAccuracy] at hbounds

/-- What is rounded up to one bit too many is shifted once more. -/
theorem roundWithAccuracy_rounded (hm : 0 < m) (he : -1074 ≤ e) (s : Sign) (accuracy : Accuracy) :
    ∃ hr, roundWithAccuracy .binary64 s m e accuracy =
      .finite s (rounded m accuracy / 2 ^ ((rounded m accuracy).log2 - 52))
        (e + (m.log2 - 52 : Nat) + ((rounded m accuracy).log2 - 52 : Nat)) hr := by
  obtain ⟨r, hr⟩ : ∃ r, r = rounded m accuracy := ⟨_, rfl⟩
  have hlow := (rounded_bounds m accuracy).1
  rw [← hr] at hlow ⊢
  have hkept : (ExtendedMantissa.ofMantissaAndAccuracy r .exact >>> (r.log2 - 52)).mantissa =
      r / 2 ^ (r.log2 - 52) := by
    rw [mantissa_shiftRight, mantissa_ofMantissaAndAccuracy]
  have hround : ∃ hpos, roundWithAccuracy .binary64 s m e accuracy =
      .finite s (ExtendedMantissa.ofMantissaAndAccuracy r .exact >>> (r.log2 - 52)).mantissa
        (e + (m.log2 - 52 : Nat) + (r.log2 - 52 : Nat)) hpos := by
    refine ⟨hkept ▸ kept_pos ((kept_pos hm).trans_le hlow), roundWithAccuracy_eq (shiftToTargetExponent_eq he _) ?_ _⟩
    rw [show ExtendedMantissa.roundedMantissa _ = r from hr.symm]
    exact shiftToTargetExponent_eq (by omega) .exact
  rwa [hkept] at hround

/-- Rounding keeps the leading bits, or adds one to them. -/
theorem exists_roundWithAccuracy (hm : 0 < m) (he : -1074 ≤ e) (s : Sign) (accuracy : Accuracy) :
    ∃ r hr, m / 2 ^ (m.log2 - 52) ≤ r ∧ r ≤ m / 2 ^ (m.log2 - 52) + 1 ∧
      roundWithAccuracy .binary64 s m e accuracy =
        .finite s (r / 2 ^ (r.log2 - 52)) (e + (m.log2 - 52 : Nat) + (r.log2 - 52 : Nat)) hr := by
  obtain ⟨hr, hround⟩ := roundWithAccuracy_rounded hm he s accuracy
  exact ⟨rounded m accuracy, hr, (rounded_bounds m accuracy).1, (rounded_bounds m accuracy).2, hround⟩

theorem shiftLeft_pos (hm : 0 < m) (j : Nat) : 0 < m <<< j := by
  rw [Nat.shiftLeft_eq]
  exact Nat.mul_pos hm (Nat.two_pow_pos j)

theorem log2_shiftLeft (hm : 0 < m) (j : Nat) : (m <<< j).log2 = m.log2 + j := by
  rw [Nat.log2_eq_iff (shiftLeft_pos hm j).ne', Nat.shiftLeft_eq, Nat.add_right_comm, Nat.pow_add, Nat.pow_add]
  exact ⟨Nat.mul_le_mul_right _ (Nat.log2_self_le hm.ne'),
    Nat.mul_lt_mul_of_pos_right Nat.lt_log2_self (Nat.two_pow_pos j)⟩

/-- What is stored of a finite value that is not too small is not zero, though it may be infinite. -/
theorem stored_ne_zero (hm : 0 < m) (hm' : m < 2 ^ 53) (he : -1074 ≤ e) {s' : Sign} :
    stored (.finite s m e hm) ≠ .zero s' := by
  by_cases he' : e ≤ 971
  · obtain ⟨m', e', hm', h⟩ := stored_finite (s := s) hm hm' he he'
    rw [h]
    nofun
  · have hpack : UnpackedFloat.pack .binary64 (.finite s m e hm) = UnpackedFloat.pack .binary64 (.infinity s) := by
      unfold UnpackedFloat.pack
      exact if_pos (show 2048 ≤ (e + 1023 + 52).toNat + 1 by omega)
    have hinfinite : stored (.finite s m e hm) = .infinity s :=
      (congrArg (UnpackedFloat.unpack .binary64) hpack).trans stored_infinity
    rw [hinfinite]
    nofun

/-- A finite value that is not too small does not round to zero. -/
theorem exists_round_of_pos (hm : 0 < m) (he : -1074 ≤ e) (s : Sign) :
    ∃ m' e' hm', round .binary64 s m e = .finite s m' e' hm' ∧ m' < 2 ^ 53 ∧ -1074 ≤ e' := by
  have htarget : Format.binary64.targetExponent (totalExponent m e) = max (m.log2 + 1 + e - 53) (-1074) := rfl
  unfold UnpackedFloat.round decreaseExponent
  dsimp only
  rw [htarget]
  obtain ⟨j, hj⟩ : ∃ j, j = (e - max ((m.log2 : Int) + 1 + e - 53) (-1074)).toNat := ⟨_, rfl⟩
  rw [← hj]
  obtain ⟨r, hr, -, -, hround⟩ := exists_roundWithAccuracy (shiftLeft_pos hm j) (e := e - j) (by omega) s .exact
  exact ⟨_, _, hr, hround, kept_lt r, by omega⟩

/-- What is below a finite value rounds to a finite value. -/
theorem exists_round {M : Nat} {E : Int} (hm : 0 < m) (he : -1074 ≤ e) (heE : e ≤ E) (hE : E ≤ 971)
    (hM : M < 2 ^ 53) (h : m < M * 2 ^ (E - e).toNat) (s : Sign) :
    ∃ m' e' hm', round .binary64 s m e = .finite s m' e' hm' ∧ m' < 2 ^ 53 ∧ -1074 ≤ e' ∧ e' ≤ 971 := by
  have htarget : Format.binary64.targetExponent (totalExponent m e) = max (m.log2 + 1 + e - 53) (-1074) := rfl
  unfold UnpackedFloat.round decreaseExponent
  dsimp only
  rw [htarget]
  obtain ⟨j, hj⟩ : ∃ j, j = (e - max ((m.log2 : Int) + 1 + e - 53) (-1074)).toNat := ⟨_, rfl⟩
  rw [← hj]
  have hlog := log2_shiftLeft hm j
  have hpos := shiftLeft_pos hm j
  obtain ⟨r, hr, hlow, hhigh, hround⟩ := exists_roundWithAccuracy hpos (e := e - j) (by omega) s .exact
  refine ⟨_, _, hr, hround, kept_lt r, by omega, ?_⟩
  -- the leading bit is not above the one of the larger value
  have hbits : m.log2 < 53 + (E - e).toNat := by
    rw [Nat.log2_lt hm.ne', Nat.pow_add]
    exact h.trans (Nat.mul_lt_mul_of_pos_right hM (Nat.two_pow_pos _))
  have hr0 : 0 < r := (kept_pos hpos).trans_le hlow
  rw [hlog] at hlow hhigh ⊢
  have hkept := kept_lt (m <<< j)
  rw [hlog] at hkept
  by_cases hcarry : r < 2 ^ 53
  · have : r.log2 < 53 := (Nat.log2_lt hr0.ne').2 hcarry
    omega
  · have hr : r.log2 = 53 := (Nat.log2_eq_iff hr0.ne').2 (by omega)
    rcases lt_or_ge (e - j + (m.log2 + j - 52 : Nat)) E with hlt | hge
    · omega
    · -- nothing is left to carry over into
      have hj0 : j = 0 := by omega
      have hk : m.log2 + j - 52 = (E - e).toNat := by omega
      rw [hk, hj0, Nat.shiftLeft_zero] at hhigh
      have := (Nat.div_lt_iff_lt_mul (Nat.two_pow_pos _)).2 h
      omega

/-! ### Values from zero on -/

theorem unpack_finite_bounds {h : 0 < m} (hx : x.toModel.unpack = .finite s m e h) :
    m < 2 ^ 53 ∧ -1074 ≤ e ∧ e ≤ 971 ∧ (-1074 < e → 2 ^ 52 ≤ m) :=
  bounds_of_ofComponents ((unpack_eq x.toModel.toBits.toBitVec).symm.trans hx)

theorem place?_zero : place? 0.0 = some (toLex (0, toLex (0, 0))) := by decide +kernel

theorem place?_infinity : place? infinity = some (toLex (2, toLex (0, 0))) := by decide +kernel

/-- Values from zero on are zeros, finite positive values and the positive infinity. -/
theorem nonneg_iff : 0.0 ≤ x ↔ (∃ s, x.toModel.unpack = .zero s) ∨ x.toModel.unpack = .infinity .positive ∨
    ∃ m e h, x.toModel.unpack = .finite .positive m e h := by
  rw [le_iff, place?_zero]
  unfold place?
  generalize x.toModel.unpack = u
  constructor
  · rintro ⟨a, b, ha, hb, hab⟩
    cases ha
    rcases u with ⟨_ | _⟩ | _ | s | ⟨_ | _, m, e, hm⟩ <;> cases hb
    · exact absurd hab (by decide)
    · exact .inr (.inl rfl)
    · exact .inl ⟨s, rfl⟩
    · simp [Prod.Lex.toLex_le_toLex] at hab
    · exact .inr (.inr ⟨m, e, hm, rfl⟩)
  · rintro (⟨s, rfl⟩ | rfl | ⟨m, e, hm, rfl⟩)
    · exact ⟨_, _, rfl, rfl, le_rfl⟩
    · exact ⟨_, _, rfl, rfl, by decide⟩
    · exact ⟨_, _, rfl, rfl, Prod.Lex.toLex_le_toLex.2 (.inl Int.zero_lt_one)⟩

theorem lt_infinity_iff (h : 0.0 ≤ x) : x < infinity ↔ x.toModel.unpack ≠ .infinity .positive := by
  rw [lt_iff, place?_infinity]
  unfold place?
  rcases nonneg_iff.1 h with ⟨s, h⟩ | h | ⟨m, e, hm, h⟩ <;> rw [h]
  · exact iff_of_true ⟨_, _, rfl, rfl, by decide⟩ nofun
  · refine iff_of_false ?_ fun hne => hne rfl
    rintro ⟨a, b, ha, hb, hab⟩
    cases ha
    cases hb
    exact absurd hab (by decide)
  · have hlt : (1 : Int) < 2 := by decide
    exact iff_of_true ⟨_, _, rfl, rfl, Prod.Lex.toLex_lt_toLex.2 (.inl hlt)⟩ nofun

theorem lt_infinity_of_not_beq (h : 0.0 ≤ x) (hx : ¬ (x == infinity) = true) : x < infinity :=
  (lt_infinity_iff h).2 fun hinfinite => hx (beq_iff.2 ⟨_, congrArg unpackedPlace? hinfinite, place?_infinity⟩)

theorem pos_iff (h : 0.0 ≤ x) : 0.0 < x ↔ ∀ s, x.toModel.unpack ≠ .zero s := by
  rw [lt_iff, place?_zero]
  unfold place?
  rcases nonneg_iff.1 h with ⟨s, h⟩ | h | ⟨m, e, hm, h⟩ <;> rw [h]
  · refine iff_of_false ?_ fun hne => hne s rfl
    rintro ⟨a, b, ha, hb, hab⟩
    cases ha
    cases hb
    exact absurd hab (by decide)
  · exact iff_of_true ⟨_, _, rfl, rfl, by decide⟩ nofun
  · exact iff_of_true ⟨_, _, rfl, rfl, Prod.Lex.toLex_lt_toLex.2 (.inl Int.zero_lt_one)⟩ nofun

theorem exists_finite (hx : 0.0 < x) (hx' : x < infinity) :
    ∃ m e h, x.toModel.unpack = .finite .positive m e h := by
  have h : 0.0 ≤ x := le_of_lt hx
  rcases nonneg_iff.1 h with ⟨s, h'⟩ | h' | h'
  · exact absurd h' ((pos_iff h).1 hx s)
  · exact absurd h' ((lt_infinity_iff h).1 hx')
  · exact h'

/-! ### Differences, sums and quotients -/

/-- A result that is zero or positive before it is stored is so thereafter. -/
theorem nonneg_of_stored (hx : x.toModel.unpack = stored u) (hu : (∃ s, u = .zero s) ∨ sign? u = some .positive) :
    0.0 ≤ x := by
  rw [nonneg_iff, hx]
  rcases hu with ⟨s, rfl⟩ | hu
  · exact .inl ⟨s, stored_zero⟩
  · have hsign : sign? (stored u) = some .positive := (sign?_stored (by rintro rfl; cases hu)).trans hu
    revert hsign
    rcases stored u with s | _ | s | ⟨s, m, e, hm⟩ <;> rintro ⟨⟩
    · exact .inr (.inl rfl)
    · exact .inl ⟨_, rfl⟩
    · exact .inr (.inr ⟨m, e, hm, rfl⟩)

theorem sign?_roundWithAccuracy {accuracy : Accuracy} :
    sign? (roundWithAccuracy .binary64 s m e accuracy) = some s := by
  unfold roundWithAccuracy
  exact sign?_dite (fun _ => rfl) fun _ => rfl

theorem normalize_of_pos (hm : 0 < m) (zeroSign : Sign) :
    normalize .binary64 m e zeroSign = round .binary64 .positive m e := by
  have hcompare : compare (m : Int) 0 = .gt := compare_gt_iff_gt.2 (Int.natCast_pos.2 hm)
  unfold UnpackedFloat.normalize
  rw [hcompare]
  rfl

theorem add_nonneg (hx : 0.0 ≤ x) (hy : 0.0 ≤ y) : 0.0 ≤ x + y := by
  refine nonneg_of_stored (u := UnpackedFloat.add .binary64 x.toModel.unpack y.toModel.unpack) rfl ?_
  rcases nonneg_iff.1 hx with ⟨s, hx⟩ | hx | ⟨m, e, hm, hx⟩ <;>
    rcases nonneg_iff.1 hy with ⟨s', hy⟩ | hy | ⟨m', e', hm', hy⟩ <;> rw [hx, hy]
  · left
    cases s <;> cases s' <;> exact ⟨_, rfl⟩
  · exact .inr rfl
  · exact .inr rfl
  · exact .inr rfl
  · exact .inr rfl
  · exact .inr rfl
  · exact .inr rfl
  · exact .inr rfl
  · right
    have hsum : 0 < m <<< (e - min e e').toNat + m' <<< (e' - min e e').toNat :=
      Nat.add_pos_left (shiftLeft_pos hm _) _
    exact (congrArg sign? (normalize_of_pos hsum .positive)).trans sign?_roundWithAccuracy

/-- No sum rounds to zero unless both values are zero. -/
theorem add_pos (hx : 0.0 < x) (hy : 0.0 ≤ y) : 0.0 < x + y := by
  have hx0 : 0.0 ≤ x := le_of_lt hx
  rw [pos_iff (add_nonneg hx0 hy)]
  intro s
  have hadd : (x + y).toModel.unpack = stored (UnpackedFloat.add .binary64 x.toModel.unpack y.toModel.unpack) := rfl
  have hfinite : ∀ {m e} {hm : 0 < m} {z : Float}, z.toModel.unpack = .finite .positive m e hm →
      stored (.finite .positive m e hm) ≠ .zero s := fun hz =>
    stored_ne_zero _ (unpack_finite_bounds hz).1 (unpack_finite_bounds hz).2.1
  have hinfinite : stored (.infinity .positive) ≠ .zero s := by
    rw [stored_infinity]
    nofun
  rw [hadd]
  rcases nonneg_iff.1 hx0 with ⟨s', hx'⟩ | hx' | ⟨m, e, hm, hx'⟩
  · exact absurd hx' ((pos_iff hx0).1 hx s')
  · rcases nonneg_iff.1 hy with ⟨_, hy⟩ | hy | ⟨m', e', hm', hy⟩ <;> rw [hx', hy] <;> exact hinfinite
  · rcases nonneg_iff.1 hy with ⟨_, hy⟩ | hy | ⟨m', e', hm', hy⟩ <;> rw [hx', hy]
    · exact hfinite hx'
    · exact hinfinite
    · have hsum : 0 < m <<< (e - min e e').toNat + m' <<< (e' - min e e').toNat :=
        Nat.add_pos_left (shiftLeft_pos hm _) _
      have hlow := (unpack_finite_bounds hx').2.1
      have hlow' := (unpack_finite_bounds hy).2.1
      obtain ⟨k, f, hk, hround, hlt, hf⟩ := exists_round_of_pos hsum (le_min hlow hlow') .positive
      show stored (normalize .binary64 ((_ : Nat) : Int) (min e e') .positive) ≠ _
      rw [normalize_of_pos hsum, hround]
      exact stored_ne_zero hk hlt hf

theorem div_nonneg (hx : 0.0 ≤ x) (hy : 0.0 < y) (hy' : y < infinity) : 0.0 ≤ x / y := by
  refine nonneg_of_stored (u := UnpackedFloat.div .binary64 x.toModel.unpack y.toModel.unpack) rfl ?_
  obtain ⟨m, e, hm, hy⟩ := exists_finite hy hy'
  rcases nonneg_iff.1 hx with ⟨s, hx⟩ | hx | ⟨m', e', hm', hx⟩ <;> rw [hx, hy]
  · exact .inl ⟨_, rfl⟩
  · exact .inr rfl
  · exact .inr sign?_roundWithAccuracy

/-- A finite value may be divided by an infinite one as well. -/
theorem div_nonneg_of_lt (hx : 0.0 ≤ x) (hx' : x < infinity) (hy : 0.0 < y) : 0.0 ≤ x / y := by
  by_cases hy' : y < infinity
  · exact div_nonneg hx hy hy'
  · refine nonneg_of_stored (u := UnpackedFloat.div .binary64 x.toModel.unpack y.toModel.unpack) rfl (.inl ?_)
    have hinfinite := not_not.1 (mt (lt_infinity_iff (le_of_lt hy)).2 hy')
    rcases nonneg_iff.1 hx with ⟨s, hx⟩ | hx | ⟨m, e, hm, hx⟩
    · rw [hx, hinfinite]
      exact ⟨_, rfl⟩
    · exact absurd hx ((lt_infinity_iff ‹_›).1 hx')
    · rw [hx, hinfinite]
      exact ⟨_, rfl⟩

/-- The significand of a larger value is larger at the lesser exponent. -/
theorem shiftLeft_lt {m' : Nat} {e' : Int} (hm : m < 2 ^ 53) (hm' : e < e' → 2 ^ 52 ≤ m')
    (h : e < e' ∨ e = e' ∧ m < m') : m <<< (e - min e e').toNat < m' <<< (e' - min e e').toNat := by
  rw [Nat.shiftLeft_eq, Nat.shiftLeft_eq]
  rcases h with h | ⟨rfl, h⟩
  · obtain ⟨j, hj⟩ : ∃ j, (e' - min e e').toNat = j + 1 := ⟨(e' - e - 1).toNat, by omega⟩
    have h0 : (e - min e e').toNat = 0 := by omega
    have hpos := Nat.two_pow_pos j
    rw [h0, hj, Nat.pow_zero, Nat.mul_one, Nat.pow_succ]
    calc m < 2 ^ 52 * 2 := hm
      _ ≤ m' * 2 := Nat.mul_le_mul_right 2 (hm' h)
      _ ≤ m' * (2 ^ j * 2) := Nat.mul_le_mul_left m' (by omega)
  · exact Nat.mul_lt_mul_of_pos_right h (Nat.two_pow_pos _)

/-- The difference of two finite values is finite, and does not vanish unless they are equal. -/
theorem sub_pos (hx : 0.0 ≤ x) (hxy : x < y) (hy : y < infinity) : 0.0 < y - x ∧ y - x < infinity := by
  obtain ⟨m', e', hm', hy⟩ := exists_finite (lt_of_le_of_lt hx hxy) hy
  suffices h : ∃ m e h, (y - x).toModel.unpack = .finite .positive m e h by
    obtain ⟨m, e, hm, h⟩ := h
    have hnonneg : 0.0 ≤ y - x := nonneg_iff.2 (.inr (.inr ⟨m, e, hm, h⟩))
    refine ⟨(pos_iff hnonneg).2 fun _ hzero => ?_, (lt_infinity_iff hnonneg).2 fun hinfinite => ?_⟩
    · cases h.symm.trans hzero
    · cases h.symm.trans hinfinite
  have hsub : (y - x).toModel.unpack =
      stored (UnpackedFloat.sub .binary64 y.toModel.unpack x.toModel.unpack) := rfl
  obtain ⟨hlt', hlow', hhigh', hnormal'⟩ := unpack_finite_bounds hy
  obtain ⟨a, b, ha, hb, hab⟩ := lt_iff.1 hxy
  unfold place? at ha hb
  rcases nonneg_iff.1 hx with ⟨s, hx⟩ | hx | ⟨m, e, hm, hx⟩ <;> rw [hsub, hx, hy]
  · exact stored_finite hm' hlt' hlow' hhigh'
  · -- no finite value is above the infinite one
    rw [hx] at ha
    rw [hy] at hb
    cases ha
    cases hb
    simp [Prod.Lex.toLex_lt_toLex] at hab
  · rw [hx] at ha
    rw [hy] at hb
    cases ha
    cases hb
    obtain ⟨hlt, hlow, -, -⟩ := unpack_finite_bounds hx
    have hless : m <<< (e - min e e').toNat < m' <<< (e' - min e e').toNat :=
      shiftLeft_lt hlt (fun h => hnormal' (by omega)) (by simpa [Prod.Lex.toLex_lt_toLex] using hab)
    have hdiff : UnpackedFloat.sub .binary64 (.finite .positive m' e' hm') (.finite .positive m e hm) =
        normalize .binary64 ((m' <<< (e' - min e e').toNat - m <<< (e - min e e').toNat : Nat) : Int) (min e e')
          .positive := by
      rw [Int.ofNat_sub hless.le, min_comm e e']
      rfl
    have hbelow : m' <<< (e' - min e e').toNat - m <<< (e - min e e').toNat < m' * 2 ^ (e' - min e e').toNat := by
      have := shiftLeft_pos hm (e - min e e').toNat
      rw [← Nat.shiftLeft_eq]
      omega
    obtain ⟨k, f, hk, hround, hlt, hlow, hhigh⟩ := exists_round (Nat.sub_pos_of_lt hless) (le_min hlow hlow')
      (min_le_right e e') hhigh' hlt' hbelow .positive
    rw [hdiff, normalize_of_pos (Nat.sub_pos_of_lt hless), hround]
    exact stored_finite hk hlt hlow hhigh

theorem sub_nonneg (hx : 0.0 ≤ x) (hxy : x ≤ y) (hy : y < infinity) : 0.0 ≤ y - x := by
  obtain ⟨a, b, ha, hb, hab⟩ := le_iff.1 hxy
  rcases hab.lt_or_eq with hab | rfl
  · exact le_of_lt (sub_pos hx (lt_iff.2 ⟨a, b, ha, hb, hab⟩) hy).1
  · refine nonneg_of_stored (u := UnpackedFloat.sub .binary64 y.toModel.unpack x.toModel.unpack) rfl (.inl ?_)
    have hy0 : 0.0 ≤ y := le_trans hx hxy
    have hfinite := (lt_infinity_iff hy0).1 hy
    have hplace : unpackedPlace? x.toModel.unpack = unpackedPlace? y.toModel.unpack := ha.trans hb.symm
    rcases nonneg_iff.1 hy0 with ⟨s', hy⟩ | hy | ⟨m', e', hm', hy⟩
    · rcases nonneg_iff.1 hx with ⟨s, hx⟩ | hx | ⟨m, e, hm, hx⟩ <;> rw [hx, hy] at hplace ⊢
      · cases s <;> cases s' <;> exact ⟨_, rfl⟩
      · cases hplace
      · cases hplace
    · exact absurd hy hfinite
    · rcases nonneg_iff.1 hx with ⟨s, hx⟩ | hx | ⟨m, e, hm, hx⟩ <;> rw [hx, hy] at hplace ⊢
      · cases hplace
      · cases hplace
      · cases hplace
        refine ⟨.positive, ?_⟩
        show normalize .binary64 (_ - _ : Int) _ _ = _
        rw [Int.sub_self]
        rfl

/-! ### Counts and their shares -/

theorem not_nan_iff : ¬ isNaN x = true ↔ x.toModel.unpack ≠ .notANumber := by
  rw [isNaN_iff]
  unfold place?
  cases x.toModel.unpack with
  | notANumber => exact ⟨fun h => absurd rfl h, fun h => absurd rfl h⟩
  | infinity s => cases s <;> exact ⟨nofun, nofun⟩
  | zero s => exact ⟨nofun, nofun⟩
  | finite s m e h => cases s <;> exact ⟨nofun, nofun⟩

/-- What has a sign is stored as a number. -/
theorem not_nan_of_stored (hx : x.toModel.unpack = stored u) (hu : sign? u = some s) : ¬ isNaN x = true := by
  have hne : u ≠ .notANumber := by
    rintro rfl
    cases hu
  rw [not_nan_iff, hx]
  intro hstored
  rw [← sign?_stored hne, hstored] at hu
  cases hu

theorem unpack_one : ∃ m e h, (1.0 : Float).toModel.unpack = .finite .positive m e h :=
  exists_finite (by decide +kernel) (by decide +kernel)

theorem not_nan_mul_one (hx : ¬ isNaN x = true) : ¬ isNaN (x * 1.0) = true := by
  have hmul : (x * 1.0).toModel.unpack =
      stored (UnpackedFloat.mul .binary64 x.toModel.unpack (1.0 : Float).toModel.unpack) := rfl
  obtain ⟨m, e, hm, hone⟩ := unpack_one
  rw [hone] at hmul
  cases h : x.toModel.unpack with
  | notANumber => exact absurd h (not_nan_iff.1 hx)
  | infinity s =>
    rw [h] at hmul
    exact not_nan_of_stored hmul rfl
  | zero s =>
    rw [h] at hmul
    exact not_nan_of_stored hmul rfl
  | finite s m' e' hm' =>
    rw [h] at hmul
    exact not_nan_of_stored hmul sign?_roundWithAccuracy

theorem not_nan_one_div (hx : ¬ isNaN x = true) : ¬ isNaN (1.0 / x) = true := by
  have hdiv : (1.0 / x).toModel.unpack =
      stored (UnpackedFloat.div .binary64 (1.0 : Float).toModel.unpack x.toModel.unpack) := rfl
  obtain ⟨m, e, hm, hone⟩ := unpack_one
  rw [hone] at hdiv
  cases h : x.toModel.unpack with
  | notANumber => exact absurd h (not_nan_iff.1 hx)
  | infinity s =>
    rw [h] at hdiv
    exact not_nan_of_stored hdiv rfl
  | zero s =>
    rw [h] at hdiv
    exact not_nan_of_stored hdiv rfl
  | finite s m' e' hm' =>
    rw [h] at hdiv
    exact not_nan_of_stored hdiv sign?_roundWithAccuracy

theorem sign?_ofInt (n : Nat) : sign? (UnpackedFloat.ofInt .binary64 n) = some .positive := by
  unfold UnpackedFloat.ofInt
  rcases Nat.eq_zero_or_pos n with rfl | hn
  · rfl
  · rw [normalize_of_pos hn]
    exact sign?_roundWithAccuracy

theorem sign?_ofScientific (n : Nat) : sign? (UnpackedFloat.ofScientific .binary64 n e) = some .positive := by
  unfold UnpackedFloat.ofScientific
  refine sign?_dite (fun _ => rfl) fun _ => ?_
  refine sign?_dite (fun _ => rfl) fun _ => ?_
  refine sign?_dite (fun _ => rfl) fun _ => ?_
  exact sign?_dite (fun _ => sign?_roundWithAccuracy) fun _ => sign?_roundWithAccuracy

/-- A count of things is a number, if need be an infinite one. -/
theorem not_nan_ofNat (n : Nat) : ¬ isNaN (Float.ofNat n) = true := by
  show ¬ isNaN (Float.ofScientific n false 0) = true
  unfold Float.ofScientific
  split
  · rw [if_neg (by decide), show Float.exactlyRepresentablePowersOfTen[0] = 1.0 from by decide +kernel]
    exact not_nan_mul_one (not_nan_of_stored (u := UnpackedFloat.ofInt .binary64 n.toUInt64.toNat) rfl (sign?_ofInt _))
  · exact not_nan_of_stored (u := UnpackedFloat.ofScientific .binary64 n 0) rfl (sign?_ofScientific n)

end GoalSearch.Binary64
