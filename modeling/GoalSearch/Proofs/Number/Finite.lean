import GoalSearch.Proofs.Number.Arithmetic
import GoalSearch.Number.Basic

/-!
# Values that stay finite

Products by probabilities and quotients of integers that have a binary64 value: what is at most the largest finite value
rounds to a finite one (`roundWithAccuracy_storable`). So a finite value that is not below zero stays finite when it is
multiplied by a probability (`isFinite_mul`), and an integer that has a value keeps having one when it is divided
(`isSome_ofRatio?`).
-/

namespace GoalSearch.Binary64

open Float.Model UnpackedFloat

variable {x y : Float} {u : UnpackedFloat} {s : Sign} {m k : Nat} {e : Int}

/-! ### Storing -/

/-- Zeros and finite values whose exponent there is. -/
def Storable : UnpackedFloat → Prop
  | .zero _ => True
  | .finite _ _ e _ => e ≤ 971
  | _ => False

theorem unpackExponent_pack_ne (hu : Storable u) : unpackExponent (UnpackedFloat.pack .binary64 u) ≠ -1#11 := by
  cases u with
  | notANumber => exact hu.elim
  | infinity s => exact hu.elim
  | zero s =>
    show unpackExponent (packComponents .binary64 s 0 0) ≠ _
    rw [unpackExponent_packComponents]
    decide
  | finite s m e hm =>
    replace hu : e ≤ 971 := hu
    unfold UnpackedFloat.pack
    dsimp only
    split
    · rename_i hlarge
      replace hlarge : 2048 ≤ (e + 1023 + 52).toNat + 1 := hlarge
      omega
    · split
      · rw [unpackExponent_packComponents]
        intro h
        have h := congrArg BitVec.toNat h
        replace h : (e + 1023 + 52).toNat % 2048 = 2047 := h
        omega
      · rw [unpackExponent_packComponents]
        decide

theorem isFinite_iff : isFinite x = true ↔ @unpackExponent .binary64 x.toModel.toBits.toBitVec ≠ -1#11 := by
  unfold isFinite
  rw [bne_iff_ne, exponentField_eq, ne_eq, ne_eq, ← BitVec.toNat_inj]
  rfl

/-- A result that can be stored is finite. -/
theorem isFinite_of_pack (hx : x.toModel.toBits.toBitVec = UnpackedFloat.pack .binary64 u) (hu : Storable u) :
    isFinite x = true := by
  rw [isFinite_iff, hx]
  exact unpackExponent_pack_ne hu

/-- Below the largest exponent every stored value is zero or finite. -/
theorem storable_ofComponents {exponent : BitVec 11} (mantissa : BitVec 52) (h : exponent ≠ -1#11) :
    Storable (ofComponents s exponent mantissa) ∧ sign? (ofComponents s exponent mantissa) = some s := by
  have hlt := exponent.isLt
  have hne : exponent.toNat ≠ 2047 := fun he => h (BitVec.eq_of_toNat_eq he)
  rcases ofComponents_cases s exponent mantissa with
    ⟨hmax, -⟩ | ⟨hmax, -⟩ | ⟨-, -, e⟩ | ⟨-, -, _, e⟩ | ⟨-, -, _, e⟩
  · exact absurd hmax h
  · exact absurd hmax h
  · rw [e]
    exact ⟨trivial, rfl⟩
  · rw [e]
    exact ⟨show (-1074 : Int) ≤ 971 by decide, rfl⟩
  · rw [e]
    refine ⟨?_, rfl⟩
    show (exponent.toNat : Int) - 1075 ≤ 971
    omega

theorem lt_infinity_of_isFinite (h : 0.0 ≤ x) (hx : isFinite x = true) : x < infinity := by
  rw [lt_infinity_iff h]
  intro hinfinite
  have hstorable := (storable_ofComponents (s := Sign.ofBitVec (@unpackSign .binary64 x.toModel.toBits.toBitVec))
    (@unpackMantissa .binary64 x.toModel.toBits.toBitVec) (isFinite_iff.1 hx)).1
  rw [← unpack_eq] at hstorable
  exact (congrArg Storable hinfinite).mp hstorable

theorem isFinite_of_lt_infinity (h : 0.0 ≤ x) (hx : x < infinity) : isFinite x = true := by
  rw [isFinite_iff]
  intro hexponent
  have hunpack : x.toModel.unpack = _ := unpack_eq x.toModel.toBits.toBitVec
  rw [hexponent] at hunpack
  have hbelow : x.toModel.unpack ≠ .infinity .positive := (lt_infinity_iff h).1 hx
  -- the largest exponent is that of infinities and of what is no number
  have hspecial : ∃ s, x.toModel.unpack = .infinity s ∨ x.toModel.unpack = .notANumber := by
    refine ⟨Sign.ofBitVec (@unpackSign .binary64 x.toModel.toBits.toBitVec), ?_⟩
    rw [hunpack]
    rcases ofComponents_cases _ (-1#11) _ with ⟨-, -, e⟩ | ⟨-, -, e⟩ | ⟨hzero, -⟩ | ⟨hzero, -⟩ | ⟨hmax, -⟩
    · exact .inl e
    · exact .inr e
    · cases hzero
    · cases hzero
    · exact absurd rfl hmax
  obtain ⟨s, hspecial⟩ := hspecial
  rcases nonneg_iff.1 h with ⟨s, hzero⟩ | hinfinite | ⟨m, e, hm, hfinite⟩
  · rw [hzero] at hspecial
    rcases hspecial with hspecial | hspecial <;> cases hspecial
  · exact hbelow hinfinite
  · rw [hfinite] at hspecial
    rcases hspecial with hspecial | hspecial <;> cases hspecial

/-! ### Rounding -/

theorem roundBit_shiftRight (em : ExtendedMantissa) (k : Nat) :
    (em >>> (k + 1)).roundBit = (em.mantissa / 2 ^ k % 2 != 0) := by
  show ((em >>> k).mantissa % 2 != 0) = _
  rw [mantissa_shiftRight]

theorem roundedMantissa_of_roundBit {em : ExtendedMantissa} (h : em.roundBit = false) :
    em.roundedMantissa = em.mantissa := by
  obtain ⟨mantissa, roundBit, stickyBit⟩ := em
  cases h
  cases stickyBit <;> rfl

/-- Rounding is up only from half of the last kept bit on. -/
theorem roundedMantissa_shiftRight (m k : Nat) :
    (ExtendedMantissa.ofMantissaAndAccuracy m .exact >>> k).roundedMantissa = m / 2 ^ k ∨
    (ExtendedMantissa.ofMantissaAndAccuracy m .exact >>> k).roundedMantissa = m / 2 ^ k + 1 ∧
      (2 * (m / 2 ^ k) + 1) * 2 ^ k ≤ 2 * m := by
  cases k with
  | zero => exact .inl (Nat.div_one m).symm
  | succ k =>
    obtain ⟨em, hem⟩ : ∃ em, em = ExtendedMantissa.ofMantissaAndAccuracy m .exact >>> (k + 1) := ⟨_, rfl⟩
    have hmantissa : em.mantissa = m / 2 ^ (k + 1) := by
      rw [hem, mantissa_shiftRight, mantissa_ofMantissaAndAccuracy]
    have hbit : em.roundBit = (m / 2 ^ k % 2 != 0) := by
      rw [hem, roundBit_shiftRight, mantissa_ofMantissaAndAccuracy]
    have hbounds := roundedMantissa_bounds em
    rw [← hem, ← hmantissa]
    cases hround : em.roundBit with
    | false => exact .inl (roundedMantissa_of_roundBit hround)
    | true =>
      rw [hround] at hbit
      have hodd : m / 2 ^ k % 2 ≠ 0 := bne_iff_ne.1 hbit.symm
      have hkept : m / 2 ^ (k + 1) = m / 2 ^ k / 2 := by rw [Nat.pow_succ, Nat.div_div_eq_div_mul]
      have hle := Nat.div_mul_le_self m (2 ^ k)
      have hsplit : 2 * em.mantissa + 1 = m / 2 ^ k := by omega
      have hhalf : (2 * em.mantissa + 1) * 2 ^ (k + 1) ≤ 2 * m := by
        rw [hsplit, Nat.pow_succ, ← Nat.mul_assoc]
        omega
      rcases (by omega : em.roundedMantissa = em.mantissa ∨ em.roundedMantissa = em.mantissa + 1) with h | h
      · exact .inl h
      · exact .inr ⟨h, hhalf⟩

/-- By how many bits a significand is shifted for its exponent. -/
def shiftAmount (m : Nat) (e : Int) : Nat := (max ((m.log2 : Int) + 1 + e - 53) (-1074) - e).toNat

theorem shiftToTargetExponent_exact (m : Nat) (e : Int) : shiftToTargetExponent .binary64 m e .exact =
    (ExtendedMantissa.ofMantissaAndAccuracy m .exact >>> shiftAmount m e, e + shiftAmount m e) := rfl

/-- A value is finite if there is the exponent that it has after both of its shifts. -/
theorem storable_of_shiftAmount {k r : Nat} (hk : k = shiftAmount m e)
    (hr : r = (ExtendedMantissa.ofMantissaAndAccuracy m .exact >>> k).roundedMantissa)
    (h : e + k + shiftAmount r (e + k) ≤ 971) (s : Sign) : Storable (roundWithAccuracy .binary64 s m e .exact) := by
  unfold roundWithAccuracy
  rw [shiftToTargetExponent_exact, ← hk]
  dsimp only
  rw [← hr, shiftToTargetExponent_exact]
  dsimp only
  by_cases hzero : (ExtendedMantissa.ofMantissaAndAccuracy r .exact >>> shiftAmount r (e + k)).mantissa = 0
  · rw [dif_pos hzero]
    trivial
  · rw [dif_neg hzero]
    exact h

/-- What is at most the largest finite value rounds to a finite value. -/
theorem roundWithAccuracy_storable (hm : 0 < m) (he : e ≤ 971) (h : m ≤ (2 ^ 53 - 1) * 2 ^ (971 - e).toNat) (s : Sign) :
    Storable (roundWithAccuracy .binary64 s m e .exact) := by
  obtain ⟨k, hk⟩ : ∃ k, k = shiftAmount m e := ⟨_, rfl⟩
  obtain ⟨r, hr⟩ : ∃ r, r = (ExtendedMantissa.ofMantissaAndAccuracy m .exact >>> k).roundedMantissa := ⟨_, rfl⟩
  refine storable_of_shiftAmount hk hr ?_ s
  unfold shiftAmount at hk ⊢
  have hlog : m.log2 < 53 + (971 - e).toNat := by
    rw [Nat.log2_lt hm.ne', Nat.pow_add]
    exact h.trans_lt (Nat.mul_lt_mul_of_pos_right (by decide) (Nat.two_pow_pos _))
  have hkept : m / 2 ^ k < 2 ^ 53 := by
    rw [Nat.div_lt_iff_lt_mul (Nat.two_pow_pos _), ← Nat.pow_add]
    exact Nat.lt_log2_self.trans_le (Nat.pow_le_pow_right (by decide) (by omega))
  rcases Nat.lt_or_ge r (2 ^ 53) with hlt | hge
  · have hlogr : r.log2 < 53 := by
      rcases Nat.eq_zero_or_pos r with rfl | hpos
      · decide
      · exact (Nat.log2_lt hpos.ne').2 hlt
    omega
  · -- the significand is all ones and is rounded up, which happens only below the largest exponent
    obtain hdown | ⟨hup, hhalf⟩ := roundedMantissa_shiftRight m k
    · omega
    · have hkept' : m / 2 ^ k = 2 ^ 53 - 1 := by omega
      have hlogr : r.log2 = 53 := (Nat.log2_eq_iff (by omega)).2 (by omega)
      have hlt : k < (971 - e).toNat := by
        by_contra hle
        have hpow := Nat.pow_le_pow_right (n := 2) (by decide) (Nat.not_lt.1 hle)
        have hpos := Nat.two_pow_pos k
        rw [hkept'] at hhalf
        omega
      omega

/-! ### Products by probabilities -/

theorem place?_one : place? 1.0 = some (toLex (1, toLex (-52, 0x10000000000000))) := by decide +kernel

theorem isFinite_mul (hx : 0.0 ≤ x) (hx' : x < infinity) (hy : 0.0 ≤ y) (hy' : y ≤ 1.0) : isFinite (x * y) = true := by
  refine isFinite_of_pack (u := UnpackedFloat.mul .binary64 x.toModel.unpack y.toModel.unpack) rfl ?_
  have hfinite := (lt_infinity_iff hx).1 hx'
  obtain ⟨a, b, ha, hb, hab⟩ := le_iff.1 hy'
  rw [place?_one] at hb
  cases hb
  unfold place? at ha
  rcases nonneg_iff.1 hx with ⟨s, hx⟩ | hx | ⟨m, e, hm, hx⟩
  · rcases nonneg_iff.1 hy with ⟨s', hy⟩ | hy | ⟨m', e', hm', hy⟩ <;> rw [hx, hy]
    · trivial
    · rw [hy] at ha
      cases ha
      exact absurd hab (by decide)
    · trivial
  · exact absurd hx hfinite
  · rcases nonneg_iff.1 hy with ⟨s', hy⟩ | hy | ⟨m', e', hm', hy⟩ <;> rw [hx, hy]
    · trivial
    · rw [hy] at ha
      cases ha
      exact absurd hab (by decide)
    · rw [hy] at ha
      cases ha
      obtain ⟨hlt, -, hle, -⟩ := unpack_finite_bounds hx
      obtain ⟨hlt', -, -, -⟩ := unpack_finite_bounds hy
      have hplace : e' < -52 ∨ e' = -52 ∧ (m' : Int) ≤ 0x10000000000000 := by
        simpa [Prod.Lex.toLex_le_toLex] using hab
      have hsmall : m' ≤ 2 ^ (-e').toNat := by
        rcases hplace with h | ⟨rfl, h⟩
        · exact hlt'.le.trans (Nat.pow_le_pow_right (by decide) (by omega))
        · exact Int.ofNat_le.1 h
      refine roundWithAccuracy_storable (Nat.mul_pos hm hm') (by omega) ?_ _
      calc m * m' ≤ (2 ^ 53 - 1) * 2 ^ (-e').toNat := Nat.mul_le_mul (by omega) hsmall
        _ ≤ (2 ^ 53 - 1) * 2 ^ (971 - (e + e')).toNat :=
          Nat.mul_le_mul_left _ (Nat.pow_le_pow_right (by decide) (by omega))

/-! ### Integers and their quotients -/

/-- Bits below those of the infinity are those of a finite value that is not below zero. -/
theorem ofBits_finite {a : UInt64} (h : a.toNat < 0x7FF0000000000000) :
    isFinite (Float.ofBits a) = true ∧ 0.0 ≤ Float.ofBits a := by
  have hexponent : @unpackExponent .binary64 a.toBitVec ≠ -1#11 := by
    intro heq
    have heq := congrArg BitVec.toNat heq
    unfold unpackExponent at heq
    rw [BitVec.toNat_cast, BitVec.extractLsb_toNat] at heq
    replace heq : a.toNat >>> 52 % 2048 = 2047 := heq
    rw [Nat.shiftRight_eq_div_pow] at heq
    omega
  have hsign : Sign.ofBitVec (@unpackSign .binary64 a.toBitVec) = .positive := by
    have heq : @unpackSign .binary64 a.toBitVec = 0#1 := by
      refine BitVec.eq_of_toNat_eq ?_
      unfold unpackSign
      rw [BitVec.toNat_cast, BitVec.extractLsb_toNat]
      show a.toNat >>> 63 % 2 = 0
      rw [Nat.shiftRight_eq_div_pow]
      omega
    rw [heq]
    rfl
  obtain ⟨hstorable, hpositive⟩ :=
    storable_ofComponents (s := .positive) (@unpackMantissa .binary64 a.toBitVec) hexponent
  rw [← hsign, ← unpack_eq] at hstorable hpositive
  exact ⟨isFinite_of_pack rfl hstorable, nonneg_of_stored rfl (.inr (hpositive.trans (congrArg some hsign)))⟩

/-- Bits that are not all clear are those of a positive value. -/
theorem ofBits_pos {a : UInt64} (h0 : 0 < a.toNat) (h : a.toNat < 0x7FF0000000000000) : 0.0 < Float.ofBits a := by
  have hexponent : (@unpackExponent .binary64 a.toBitVec).toNat = a.toNat / 2 ^ 52 % 2048 := by
    unfold unpackExponent
    rw [BitVec.toNat_cast, BitVec.extractLsb_toNat, Nat.shiftRight_eq_div_pow]
    rfl
  have hmantissa : (@unpackMantissa .binary64 a.toBitVec).toNat = a.toNat % 2 ^ 52 := by
    unfold unpackMantissa
    rw [BitVec.toNat_cast, BitVec.extractLsb_toNat]
    rfl
  obtain ⟨m, e, hm, hfinite⟩ := @ofComponents_finite (Sign.ofBitVec (@unpackSign .binary64 a.toBitVec))
    (@unpackExponent .binary64 a.toBitVec) (@unpackMantissa .binary64 a.toBitVec)
    (fun heq => by
      rw [heq] at hexponent
      replace hexponent : 2047 = a.toNat / 2 ^ 52 % 2048 := hexponent
      omega)
    (fun hzero heq => by
      rw [hzero] at hexponent
      rw [heq] at hmantissa
      replace hexponent : 0 = a.toNat / 2 ^ 52 % 2048 := hexponent
      replace hmantissa : 0 = a.toNat % 2 ^ 52 := hmantissa
      omega)
  obtain ⟨hlt, hlow, -, -⟩ := bounds_of_ofComponents hfinite
  refine (pos_iff (ofBits_finite h).2).2 fun s' => ?_
  show stored (UnpackedFloat.unpack .binary64 a.toBitVec) ≠ _
  rw [unpack_eq, hfinite]
  exact stored_ne_zero hm hlt hlow

theorem ofRatio?_finite {num : Int} {den : Nat} (hnum : 0 ≤ num) (h : ofRatio? num den = some x) :
    isFinite x = true ∧ 0.0 ≤ x := by
  unfold ofRatio? at h
  dsimp only at h
  split at h
  · rename_i hlt
    rw [if_neg (Int.not_lt.2 hnum)] at h
    rw [← Option.some.inj h]
    refine ofBits_finite ?_
    rw [UInt64.zero_or, Nat.toUInt64_eq, UInt64.toNat_ofNat_of_lt' (hlt.trans (by decide))]
    exact hlt
  · cases h

theorem isSome_ofRatio?_iff {num : Int} {den : Nat} :
    (ofRatio? num den).isSome = true ↔ nearestBits num.natAbs den < 0x7FF0000000000000 := by
  unfold ofRatio?
  dsimp only
  split
  · exact iff_of_true rfl ‹_›
  · exact iff_of_false nofun ‹_›

theorem roundQuotient_bounds (num den : Nat) :
    num / den ≤ roundQuotient num den ∧ roundQuotient num den ≤ num / den + 1 := by
  unfold roundQuotient
  dsimp only
  repeat' split
  all_goals omega

/-- The bits of an integer of more than 52 bits. -/
theorem nearestBits_one {num guess : Nat} (hguess : num.log2 = guess + 52) : nearestBits num 1 =
    (guess + 1075) * 2 ^ 52 + (roundQuotient num (2 ^ guess) - 2 ^ 52) := by
  have hnum : num ≠ 0 := by
    rintro rfl
    have hzero : Nat.log2 0 = 0 := by decide
    omega
  have hdiv : 2 ^ 52 ≤ num / 2 ^ guess := by
    rw [Nat.le_div_iff_mul_le (Nat.two_pow_pos _), ← Nat.pow_add, Nat.add_comm, ← hguess]
    exact Nat.log2_self_le hnum
  have hbounds := roundQuotient_bounds num (2 ^ guess)
  have hmul : 2 ^ 52 * 2 ^ guess ≤ num := (Nat.le_div_iff_mul_le (Nat.two_pow_pos _)).1 hdiv
  have hlog : (num.log2 : Int) - (Nat.log2 1 : Nat) - 52 = guess := by
    have hone : Nat.log2 1 = 0 := by decide
    omega
  have hnonneg : (-(guess : Int)).toNat = 0 := by omega
  unfold nearestBits
  rw [if_neg (by simpa using hnum)]
  simp only [hlog, hnonneg, Int.toNat_natCast, Nat.pow_eq, Nat.pow_zero, Nat.mul_one, Nat.one_mul]
  rw [if_neg (Nat.not_lt.2 hmul), max_eq_left (by omega), hnonneg, Int.toNat_natCast, Nat.pow_zero, Nat.mul_one,
    if_neg (by omega)]
  omega

theorem nearestBits_pos {num : Nat} (h : 0 < num) : 0 < nearestBits num 1 := by
  have hlog : (num.log2 : Int) - (Nat.log2 1 : Nat) - 52 = (num.log2 : Int) - 52 := by
    have hone : Nat.log2 1 = 0 := by decide
    omega
  unfold nearestBits
  rw [if_neg (by simpa using h.ne')]
  simp only [hlog, Nat.one_mul]
  obtain ⟨q, hq⟩ : ∃ q : Int, q = max (if num * Nat.pow 2 (-((num.log2 : Int) - 52)).toNat <
      Nat.pow 2 52 * Nat.pow 2 ((num.log2 : Int) - 52).toNat
      then (num.log2 : Int) - 52 - 1 else (num.log2 : Int) - 52) (-1074) := ⟨_, rfl⟩
  rw [← hq]
  have hhigh : q ≤ num.log2 := by split at hq <;> omega
  have hlow : -1074 ≤ q := hq ▸ le_max_right _ _
  -- the scaled quotient is not below one
  have hscaled : 2 ^ q.toNat ≤ num * 2 ^ (-q).toNat := by
    calc 2 ^ q.toNat ≤ 2 ^ num.log2 := Nat.pow_le_pow_right (by decide) (by omega)
      _ ≤ num := Nat.log2_self_le h.ne'
      _ ≤ num * 2 ^ (-q).toNat := Nat.le_mul_of_pos_right num (Nat.two_pow_pos _)
  have hdiv : 0 < num * 2 ^ (-q).toNat / 2 ^ q.toNat := Nat.div_pos hscaled (Nat.two_pow_pos _)
  have hbounds := (roundQuotient_bounds (num * 2 ^ (-q).toNat) (2 ^ q.toNat)).1
  show 0 < if _ < 2 ^ 52 then roundQuotient (num * 2 ^ (-q).toNat) (2 ^ q.toNat) else _ * 2 ^ 52 + (_ - 2 ^ 52)
  split <;> omega

/-- Only integers of at most 1024 bits have a value. -/
theorem log2_lt_of_nearestBits {num : Nat} (h : nearestBits num 1 < 0x7FF0000000000000) : num.log2 < 1024 := by
  by_contra hlarge
  obtain ⟨guess, hguess⟩ : ∃ guess : Nat, num.log2 = guess + 52 := ⟨num.log2 - 52, by omega⟩
  rw [nearestBits_one hguess] at h
  omega

/-- A quotient that is small enough has a value. -/
theorem nearestBits_lt {num den : Nat} (hden : 0 < den) (hlog : num.log2 ≤ den.log2 + 1020) :
    nearestBits num den < 0x7FF0000000000000 := by
  unfold nearestBits
  split
  · decide
  · obtain ⟨q, hq⟩ : ∃ q : Int, q = max (if num * Nat.pow 2 (-((num.log2 : Int) - den.log2 - 52)).toNat <
        Nat.pow 2 52 * (den * Nat.pow 2 ((num.log2 : Int) - den.log2 - 52).toNat)
        then (num.log2 : Int) - den.log2 - 52 - 1 else (num.log2 : Int) - den.log2 - 52) (-1074) := ⟨_, rfl⟩
    have hlow : (num.log2 : Int) - den.log2 - 53 ≤ q := by split at hq <;> omega
    have hhigh : q ≤ 968 := by split at hq <;> omega
    dsimp only
    rw [← hq]
    obtain ⟨m, hm⟩ : ∃ m, m = roundQuotient (num * Nat.pow 2 (-q).toNat) (den * Nat.pow 2 q.toNat) := ⟨_, rfl⟩
    have hdiv : num * 2 ^ (-q).toNat / (den * 2 ^ q.toNat) < 2 ^ 54 := by
      have hpos : 0 < den * 2 ^ q.toNat := Nat.mul_pos hden (Nat.two_pow_pos _)
      rw [Nat.div_lt_iff_lt_mul hpos]
      calc num * 2 ^ (-q).toNat < 2 ^ (num.log2 + 1) * 2 ^ (-q).toNat :=
            Nat.mul_lt_mul_of_pos_right Nat.lt_log2_self (Nat.two_pow_pos _)
        _ = 2 ^ (num.log2 + 1 + (-q).toNat) := (Nat.pow_add ..).symm
        _ ≤ 2 ^ (54 + (den.log2 + q.toNat)) := Nat.pow_le_pow_right (by decide) (by omega)
        _ = 2 ^ 54 * (2 ^ den.log2 * 2 ^ q.toNat) := by rw [Nat.pow_add, Nat.pow_add]
        _ ≤ 2 ^ 54 * (den * 2 ^ q.toNat) :=
            Nat.mul_le_mul_left _ (Nat.mul_le_mul_right _ (Nat.log2_self_le hden.ne'))
    have hle : m ≤ 2 ^ 54 := by
      have hbounds := (roundQuotient_bounds (num * 2 ^ (-q).toNat) (den * 2 ^ q.toNat)).2
      rw [hm]
      exact hbounds.trans hdiv
    rw [← hm]
    show (if m < 2 ^ 52 then m else (q + 1075).toNat * 2 ^ 52 + (m - 2 ^ 52)) < _
    split <;> omega

theorem roundQuotient_mono {a b : Nat} (h : a ≤ b) (den : Nat) : roundQuotient a den ≤ roundQuotient b den := by
  have hquotient := Nat.div_le_div_right (c := den) h
  rcases Nat.lt_or_ge (a / den) (b / den) with hlt | hge
  · exact ((roundQuotient_bounds a den).2.trans hlt).trans (roundQuotient_bounds b den).1
  · -- with the same quotient the remainder decides
    have heq : b / den = a / den := by omega
    have hremainder : a % den ≤ b % den := by
      have ha := Nat.div_add_mod a den
      have hb := Nat.div_add_mod b den
      rw [heq] at hb
      omega
    unfold roundQuotient
    dsimp only
    rw [heq]
    repeat' split
    all_goals omega

/-- The bits of an integer are at most those of a larger one. -/
theorem nearestBits_lt_of_le {a b : Nat} (hab : a ≤ b) (h : nearestBits b 1 < 0x7FF0000000000000) :
    nearestBits a 1 < 0x7FF0000000000000 := by
  rcases Nat.lt_or_ge a.log2 52 with hsmall | hlarge
  · exact nearestBits_lt (by decide) (by omega)
  · have hlog : a.log2 ≤ b.log2 := by
      have ha : a ≠ 0 := by
        rintro rfl
        exact absurd hlarge (by decide)
      exact (Nat.le_log2 (by omega)).2 ((Nat.log2_self_le ha).trans hab)
    obtain ⟨i, hi⟩ : ∃ i : Nat, a.log2 = i + 52 := ⟨a.log2 - 52, by omega⟩
    obtain ⟨j, hj⟩ : ∃ j : Nat, b.log2 = j + 52 := ⟨b.log2 - 52, by omega⟩
    rw [nearestBits_one hj] at h
    rw [nearestBits_one hi]
    rcases Nat.lt_or_ge i j with hlt | hge
    · have hround : roundQuotient a (2 ^ i) - 2 ^ 52 ≤ 2 ^ 52 := by
        have hdiv : a / 2 ^ i < 2 ^ 53 := by
          rw [Nat.div_lt_iff_lt_mul (Nat.two_pow_pos _), ← Nat.pow_add, show 53 + i = a.log2 + 1 by omega]
          exact Nat.lt_log2_self
        have hbounds := (roundQuotient_bounds a (2 ^ i)).2
        omega
      calc (i + 1075) * 2 ^ 52 + (roundQuotient a (2 ^ i) - 2 ^ 52) ≤ (i + 1075) * 2 ^ 52 + 2 ^ 52 :=
            Nat.add_le_add_left hround _
        _ = (i + 1075 + 1) * 2 ^ 52 := (Nat.add_one_mul (i + 1075) _).symm
        _ ≤ (j + 1075) * 2 ^ 52 := Nat.mul_le_mul_right _ (Nat.add_lt_add_right hlt 1075)
        _ ≤ (j + 1075) * 2 ^ 52 + (roundQuotient b (2 ^ j) - 2 ^ 52) := Nat.le_add_right _ _
        _ < 0x7FF0000000000000 := h
    · obtain rfl : i = j := by omega
      exact (Nat.add_le_add_left (Nat.sub_le_sub_right (roundQuotient_mono hab (2 ^ i)) _) _).trans_lt h

theorem ofInt?_pos {n : Nat} (hn : 0 < n) (h : ofInt? n = some x) : 0.0 < x := by
  have hpos : 0 < nearestBits (n : Int).natAbs 1 := nearestBits_pos (by omega)
  unfold ofInt? ofRatio? at h
  dsimp only at h
  split at h
  · rename_i hlt
    rw [if_neg (Int.not_lt.2 (Int.natCast_nonneg n)), UInt64.zero_or, Nat.toUInt64_eq] at h
    rw [← Option.some.inj h]
    have hbits := UInt64.toNat_ofNat_of_lt' (hlt.trans (by decide))
    exact ofBits_pos (hbits.symm ▸ hpos) (hbits.symm ▸ hlt)
  · cases h

/-- An integer that has a value keeps having one when it is divided. -/
theorem isSome_ofRatio? {num : Int} {den : Nat} (h : (ofInt? num).isSome = true) (hden : 8 ≤ den) :
    (ofRatio? num den).isSome = true := by
  have hlog := log2_lt_of_nearestBits (isSome_ofRatio?_iff.1 h)
  have hlogden : 3 ≤ den.log2 := (Nat.le_log2 (by omega)).2 hden
  exact isSome_ofRatio?_iff.2 (nearestBits_lt (by omega) (by omega))

/-- What is at most an integer that has a value has a value. -/
theorem isSome_ofInt?_of_le {k : Nat} {n : Int} (h : (ofInt? n).isSome = true) (hk : (k : Int) ≤ n) :
    (ofInt? k).isSome = true := by
  refine isSome_ofRatio?_iff.2 (nearestBits_lt_of_le ?_ (isSome_ofRatio?_iff.1 h))
  omega

end GoalSearch.Binary64
