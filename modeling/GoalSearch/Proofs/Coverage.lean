import GoalSearch.Proofs.Number.Fields
import GoalSearch.Stopping

/-!
# The percentage of covered goals

Two conditions compare the share of the goals that is covered with a percentage: one cuts the share, times a hundred,
off to an integer, the other compares it as it is. Both see the same (`exists_percent`). The share is rounded twice,
and up to `2 ^ 45` goals the error is too small to move it past a percentage that it is not (`le_of_above`,
`lt_of_below`). Where it is exactly a percentage, it is rounded as that percentage of a hundred goals is, which gives
the percentage again unless it is one of three that come out below (`le_iff_of_exact`). So the conditions are met by a
share that is large enough, except by those three exactly (`isFulfilled_iff_reached`).
-/

namespace GoalSearch

open Binary64

/-- The covered goals are at least a percentage of all goals, and not exactly one that is rounded to less. -/
def Reached (percent covered total : Nat) : Prop :=
  percent * total ≤ 100 * covered ∧ (percent ∈ [29, 57, 58] → percent * total ≠ 100 * covered)

instance (percent covered total : Nat) : Decidable (Reached percent covered total) :=
  inferInstanceAs (Decidable (_ ∧ _))

variable {x : Float} {covered total percent : Nat} {r v : ℚ}

/-! ### The share and its percentage -/

theorem stands_hundred : Stands 100.0 100 :=
  Stands.beq (x := Float.ofNat 100) (stands_ofNat (m := 100) (by decide)) (by decide +kernel)

theorem share_bounds (hcovered : covered ≤ total) (htotal : 0 < total) (hsmall : total < 2 ^ 53) :
    (covered : ℚ) / total ≤ 1 ∧ (covered = 0 ∨ (1 : ℚ) / 2 ^ 53 ≤ covered / total) := by
  have hpos : (0 : ℚ) < total := by exact_mod_cast htotal
  refine ⟨(div_le_one hpos).2 (by exact_mod_cast hcovered), (Nat.eq_zero_or_pos covered).imp_right fun hc => ?_⟩
  rw [div_le_div_iff₀ (by norm_num) hpos, one_mul]
  calc (total : ℚ) ≤ 2 ^ 53 := (cast_lt_two_pow hsmall).le
    _ ≤ covered * 2 ^ 53 := le_mul_of_one_le_left (by norm_num) (by exact_mod_cast hc)

theorem moderate_of_bounds (hlow : (1 : ℚ) / 2 ^ 54 ≤ v) (hhigh : v ≤ 200) : Moderate v := by
  refine .inr ⟨?_, ?_⟩
  · calc (2 : ℚ) ^ (-900 : Int) ≤ 2 ^ (-54 : Int) := zpow_le_zpow_right₀ one_le_two (by decide)
      _ = 1 / 2 ^ 54 := by rw [zpow_neg, one_div]; rfl
      _ ≤ v := hlow
  · calc v ≤ 2 ^ (8 : Int) := hhigh.trans (by norm_num)
      _ ≤ 2 ^ (900 : Int) := zpow_le_zpow_right₀ one_le_two (by decide)

/-- The share of the goals is rounded once. -/
theorem stands_coverageRatio (hcovered : covered ≤ total) (htotal : 0 < total) (hsmall : total < 2 ^ 53) :
    ∃ r, Stands (coverageRatio covered total) r ∧ Rounds (covered / total) r := by
  obtain ⟨hone, hlow⟩ := share_bounds hcovered htotal hsmall
  have hmoderate : Moderate ((covered : ℚ) / total) := by
    rcases hlow with rfl | hlow
    · exact .inl (by rw [Nat.cast_zero, zero_div])
    · exact moderate_of_bounds (le_trans (by norm_num) hlow) (hone.trans (by norm_num))
  unfold coverageRatio
  rw [if_neg htotal.ne']
  exact (stands_ofNat (hcovered.trans_lt hsmall)).div (stands_ofNat hsmall) (by exact_mod_cast htotal.ne') hmoderate

/-- The percentage is rounded once more, and is compared with an integer in either way as the number it is. -/
theorem exists_percent (hcovered : covered ≤ total) (htotal : 0 < total) (hsmall : total < 2 ^ 53) (hx : Stands x r)
    (hr : Rounds (covered / total) r) : ∃ v, Rounds (r * 100) v ∧ ∀ percent : Nat,
      ((percent : Int) ≤ Condition.percentage x ↔ (percent : ℚ) ≤ v) ∧
      ((!(Number.real (x * 100.0)).lt (.int percent)) = true ↔ (percent : ℚ) ≤ v) := by
  obtain ⟨hone, hlow⟩ := share_bounds hcovered htotal hsmall
  obtain ⟨herror, herror'⟩ := hr.error
  have hmoderate : Moderate (r * 100) := by
    rcases hlow with rfl | hlow
    · rw [Nat.cast_zero, zero_div] at herror herror'
      exact .inl (by linarith)
    · exact moderate_of_bounds (by linarith) (by linarith)
  obtain ⟨v, hv, hrounds⟩ := hx.mul stands_hundred hmoderate
  refine ⟨v, hrounds, fun percent => ⟨?_, ?_⟩⟩
  · obtain ⟨n, hn, hle⟩ := hv.le_truncate percent
    unfold Condition.percentage
    rw [hn, Option.getD_some, Int.ofNat_le, hle]
  · rw [Bool.not_eq_true', Bool.eq_false_iff, ne_eq, hv.lt_int, not_lt]

/-! ### Shares above, below and at a percentage -/

/-- Both errors together. -/
theorem error_of_rounds (hr : Rounds (covered / total) r) (hv : Rounds (r * 100) v) (htotal : 0 < total) :
    100 * covered * (1 - 1 / 2 ^ 52) ≤ v * total ∧ v * total ≤ 100 * covered * (1 + 1 / 2 ^ 52 + 1 / 2 ^ 100) := by
  have hpos : (0 : ℚ) < total := by exact_mod_cast htotal
  have hcovered : (0 : ℚ) ≤ covered := Nat.cast_nonneg covered
  obtain ⟨hlow, hhigh⟩ := hr.error
  obtain ⟨hlow', hhigh'⟩ := hv.error
  have hshare : (covered : ℚ) / total * total = covered := div_mul_cancel₀ _ hpos.ne'
  have hlow := mul_le_mul_of_nonneg_right hlow hpos.le
  have hhigh := mul_le_mul_of_nonneg_right hhigh hpos.le
  rw [mul_right_comm, hshare] at hlow hhigh
  have hlow' := mul_le_mul_of_nonneg_right hlow' hpos.le
  have hhigh' := mul_le_mul_of_nonneg_right hhigh' hpos.le
  constructor <;> linarith

/-- What is a percentage of the goals and one part in `2 ^ 51` more is not missed, and nothing else is taken for one. -/
theorem le_up_to_error (hr : Rounds (covered / total) r) (hv : Rounds (r * 100) v) (htotal : 0 < total)
    (percent : Nat) :
    (percent * total * 2 ^ 51 + 100 * covered ≤ 100 * covered * 2 ^ 51 → (percent : ℚ) ≤ v) ∧
    ((percent : ℚ) ≤ v → percent * total * 2 ^ 51 ≤ 100 * covered * 2 ^ 51 + 100 * covered) := by
  have hpos : (0 : ℚ) < total := by exact_mod_cast htotal
  have hcovered : (0 : ℚ) ≤ covered := Nat.cast_nonneg covered
  obtain ⟨hlow, hhigh⟩ := error_of_rounds hr hv htotal
  constructor
  · intro h
    have h : (percent : ℚ) * total * 2 ^ 51 + 100 * covered ≤ 100 * covered * 2 ^ 51 := by exact_mod_cast h
    refine le_of_mul_le_mul_right ?_ hpos
    linarith
  · intro h
    have h := mul_le_mul_of_nonneg_right h hpos.le
    have hcast : (percent : ℚ) * total * 2 ^ 51 ≤ 100 * covered * 2 ^ 51 + 100 * covered := by linarith
    exact_mod_cast hcast

theorem le_of_above (hr : Rounds (covered / total) r) (hv : Rounds (r * 100) v) (hcovered : covered ≤ total)
    (htotal : 0 < total) (hsmall : total ≤ 2 ^ 45) (h : percent * total < 100 * covered) : (percent : ℚ) ≤ v := by
  have hpos : (0 : ℚ) < total := by exact_mod_cast htotal
  have hstep : (percent : ℚ) * total + 1 ≤ 100 * covered := by exact_mod_cast h
  have hbound : (covered : ℚ) ≤ 2 ^ 45 := by exact_mod_cast hcovered.trans hsmall
  have herror := (error_of_rounds hr hv htotal).1
  refine le_of_mul_le_mul_right ?_ hpos
  linarith

theorem lt_of_below (hr : Rounds (covered / total) r) (hv : Rounds (r * 100) v) (hcovered : covered ≤ total)
    (htotal : 0 < total) (hsmall : total ≤ 2 ^ 45) (h : 100 * covered < percent * total) : v < percent := by
  have hpos : (0 : ℚ) < total := by exact_mod_cast htotal
  have hstep : 100 * (covered : ℚ) + 1 ≤ percent * total := by exact_mod_cast h
  have hbound : (covered : ℚ) ≤ 2 ^ 45 := by exact_mod_cast hcovered.trans hsmall
  have herror := (error_of_rounds hr hv htotal).2
  refine lt_of_mul_lt_mul_right ?_ hpos.le
  linarith

theorem le_percentage_hundred : ∀ percent ≤ 100,
    ((percent : Nat) : Int) ≤ Condition.percentage (coverageRatio percent 100) ↔ percent ∉ [29, 57, 58] := by
  decide +kernel

/-- A share that is exactly a percentage is rounded as that many goals of a hundred are. -/
theorem le_iff_of_exact (hr : Rounds (covered / total) r) (hv : Rounds (r * 100) v) (htotal : 0 < total)
    (hpercent : percent ≤ 100) (h : percent * total = 100 * covered) : (percent : ℚ) ≤ v ↔ percent ∉ [29, 57, 58] := by
  have hsame : (covered : ℚ) / total = percent / (100 : Nat) := by
    rw [div_eq_div_iff (by exact_mod_cast htotal.ne') (by norm_num)]
    exact_mod_cast (Nat.mul_comm _ _).trans h.symm
  obtain ⟨r', hr', hrounds⟩ := stands_coverageRatio hpercent (by decide) (by decide)
  obtain ⟨v', hv', hverdict⟩ := exists_percent hpercent (by decide) (by decide) hr' hrounds
  rw [hsame] at hr
  obtain rfl := hr.unique hrounds
  obtain rfl := hv.unique hv'
  rw [← (hverdict percent).1]
  exact le_percentage_hundred percent hpercent

theorem le_iff_reached (hr : Rounds (covered / total) r) (hv : Rounds (r * 100) v) (hcovered : covered ≤ total)
    (htotal : 0 < total) (hsmall : total ≤ 2 ^ 45) (hpercent : percent ≤ 100) :
    (percent : ℚ) ≤ v ↔ Reached percent covered total := by
  unfold Reached
  rcases lt_trichotomy (percent * total) (100 * covered) with h | h | h
  · exact iff_of_true (le_of_above hr hv hcovered htotal hsmall h) ⟨h.le, fun _ => h.ne⟩
  · rw [le_iff_of_exact hr hv htotal hpercent h, h]
    exact ⟨fun hout => ⟨le_rfl, fun hin => absurd hin hout⟩, fun h hin => h.2 hin rfl⟩
  · exact iff_of_false (not_le.2 (lt_of_below hr hv hcovered htotal hsmall h)) fun hle => absurd hle.1 (not_le.2 h)

/-! ### The conditions -/

/-- A signal that tells of a snapshot. -/
def Signal.Carries (s : Snapshot) (x : Signal) : Prop :=
  x = .first s.coverage ∨ ∃ memory, x = .iteration s.coverage memory

/-- A snapshot of a hundred goals, the first of which are covered. -/
def Sample.hundred (covered : Nat) : Snapshot where
  covered := (List.range covered).map .atom
  uncovered := (List.range' covered (100 - covered)).map .atom
  sizes := List.replicate covered 1
  best := []

namespace Condition

variable {s : Snapshot} {x : Signal} {limit minimum used : Nat} {last : Float}

theorem step_coverage (hx : x.Carries s) (used : Int) :
    Condition.step x (.coverage percent used) = .coverage percent (percentage s.coverage) := by
  rcases hx with rfl | ⟨memory, rfl⟩ <;> rfl

/-- A plateau keeps the coverage that it is told, or the one it has if they are equal. -/
theorem exists_step_plateau (hx : x.Carries s) (limit minimum used : Nat) (last : Float) :
    ∃ used' last', Condition.step x (.plateau limit minimum used last) = .plateau limit minimum used' last' ∧
      (last' = s.coverage ∨ (s.coverage == last') = true) := by
  rcases hx with rfl | ⟨memory, rfl⟩
  · exact ⟨used, s.coverage, rfl, .inl rfl⟩
  · rw [Condition.step]
    split
    · exact ⟨used + 1, last, rfl, .inr ‹_›⟩
    · exact ⟨0, s.coverage, rfl, .inl rfl⟩

theorem isFulfilled_coverage {used : Int} (now : Int) :
    (Condition.coverage percent used).isFulfilled now = true ↔ (percent : Int) ≤ used := decide_eq_true_iff

theorem isFulfilled_plateau (now : Int) : (Condition.plateau limit minimum used last).isFulfilled now = true ↔
    limit ≤ used ∧ (!(Number.real (last * 100.0)).lt (.int minimum)) = true :=
  (Bool.and_eq_true_iff ..).trans (and_congr_left' decide_eq_true_iff)

/-- A condition that was told of a snapshot is met up to `2 ^ 45` goals if the share of the goals that is covered is at
least the percentage, unless the share is exactly one of the three that are rounded to less; with more goals it is at
most one part in `2 ^ 51` off. A plateau takes the same for its minimum. -/
theorem isFulfilled_iff_reached (hx : x.Carries s) (htotal : 0 < s.covered.length + s.uncovered.length)
    (hsmall : s.covered.length + s.uncovered.length < 2 ^ 53) (now : Int) (percent : Nat) (used : Int)
    (limit unchanged : Nat) (last : Float) :
    let met := (Condition.step x (.coverage percent used)).isFulfilled now
    let plateau := Condition.step x (.plateau limit percent unchanged last)
    (plateau.isFulfilled now = true ↔ limit ≤ plateau.used now ∧ met = true) ∧
      (s.covered.length + s.uncovered.length ≤ 2 ^ 45 → percent ≤ 100 →
        (met = true ↔ Reached percent s.covered.length (s.covered.length + s.uncovered.length))) ∧
      (percent * (s.covered.length + s.uncovered.length) * 2 ^ 51 + 100 * s.covered.length ≤
        100 * s.covered.length * 2 ^ 51 → met = true) ∧
      (met = true → percent * (s.covered.length + s.uncovered.length) * 2 ^ 51 ≤
        100 * s.covered.length * 2 ^ 51 + 100 * s.covered.length) := by
  have hcovered : s.covered.length ≤ s.covered.length + s.uncovered.length := Nat.le_add_right _ _
  obtain ⟨r, hr, hrounds⟩ := stands_coverageRatio hcovered htotal hsmall
  obtain ⟨v, hv, hverdict⟩ := exists_percent hcovered htotal hsmall hr hrounds
  have hmet : (percent : Int) ≤ percentage s.coverage ↔ (percent : ℚ) ≤ v := (hverdict percent).1
  dsimp only
  rw [step_coverage hx, isFulfilled_coverage, hmet]
  refine ⟨?_, ?_, le_up_to_error hrounds hv htotal percent⟩
  · obtain ⟨unchanged', last', hstep, hlast⟩ := exists_step_plateau hx limit percent unchanged last
    have hr' : Stands last' r := by
      rcases hlast with rfl | hequal
      · exact hr
      · exact hr.beq hequal
    obtain ⟨v', hv', hverdict'⟩ := exists_percent hcovered htotal hsmall hr' hrounds
    obtain rfl := hv.unique hv'
    rw [hstep, isFulfilled_plateau, (hverdict' percent).2]
    exact and_congr_left' Int.ofNat_le.symm
  · intro hsmall hpercent
    exact le_iff_reached hrounds hv hcovered htotal hsmall hpercent

theorem isFulfilled_iff_reached_hundred :
    let s := Sample.hundred 30
    s.covered.length = 30 ∧ s.uncovered.length = 70 ∧
    (Condition.step (.first s.coverage) (.coverage 29 0)).isFulfilled 0 = true ∧
    (Condition.step (.iteration s.coverage none) (.plateau 1 29 0 s.coverage)).isFulfilled 0 = true := by
  intro s
  have hfirst := isFulfilled_iff_reached (s := s) (.inl rfl) (by decide) (by decide) 0 29 0 1 0 0.0
  have hlater := isFulfilled_iff_reached (s := s) (.inr ⟨none, rfl⟩) (by decide) (by decide) 0 29 0 1 0 s.coverage
  refine ⟨by decide, by decide, ?_, ?_⟩
  · exact (hfirst.2.1 (by decide) (by decide)).2 (by decide)
  · exact hlater.1.2 ⟨by decide +kernel, (hlater.2.1 (by decide) (by decide)).2 (by decide)⟩

/-- Exactly 29 of a hundred goals are seen as less than 29 percent by either condition. -/
theorem not_isFulfilled_at_exact_share :
    let s := Sample.hundred 29
    let plateau := Condition.step (.iteration s.coverage none) (.plateau 1 29 0 s.coverage)
    29 * (s.covered.length + s.uncovered.length) ≤ 100 * s.covered.length ∧
    (Condition.step (.first s.coverage) (.coverage 29 0)).isFulfilled 0 = false ∧
    plateau.used 0 = 1 ∧ plateau.isFulfilled 0 = false := by
  decide +kernel

end Condition

end GoalSearch
