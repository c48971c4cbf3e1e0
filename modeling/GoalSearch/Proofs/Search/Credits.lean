import GoalSearch.Proofs.Archive.Partition
import GoalSearch.Proofs.Asking

/-!
# Where coverings come from

`s.Credits subject t`: on the way from `s` to `t` the evaluators may have answered some more questions, and every goal
that got covered owes it to one of these answers: its own evaluator answered something that, converted to a double, is a
zero (`Verdict.IsZero`). Goals over suites have no evaluator, and none of them gets covered. An answer is credited when
it is sanitised (`Verdict.isZero_of_sanitised`), and no step but a submission after such an answer covers anything.
-/

namespace GoalSearch

variable {σ ω : Type}

namespace Verdict
variable {verdict : Verdict} {v : Float}

/-- The double that a verdict is converted to, if it can be. -/
def toFloat? : Verdict → Option Float
  | number x => x.toFloat?
  | text x => Reader.float? x
  | failure => none
  | abort _ => none

/-- Converted to a double, the verdict is a zero, of either sign. -/
def IsZero (verdict : Verdict) : Prop := ∃ x, verdict.toFloat? = some x ∧ (x == 0.0) = true

theorem isZero_of_sanitised (h : Fitness.sanitised verdict = .ok v) (hv : (v == 0.0) = true) : verdict.IsZero := by
  have helim : ∀ x : Option Float, (x.elim Fitness.worst Fitness.sanitise == 0.0) = true →
      ∃ y, x = some y ∧ (y == 0.0) = true := by
    rintro (_ | y) hy
    · exact absurd hy (Bool.eq_false_iff.1 Fitness.worst_ne_zero)
    · exact ⟨y, rfl, Fitness.beq_zero_of_sanitise hy⟩
  cases verdict with
  | number x => exact helim _ (Except.ok.inj h ▸ hv)
  | text x => exact helim _ (Except.ok.inj h ▸ hv)
  | failure =>
    rw [← Except.ok.inj h] at hv
    exact absurd hv (Bool.eq_false_iff.1 Fitness.worst_ne_zero)
  | abort fault => cases h

end Verdict

namespace Search

structure Credits (subject : Subject σ ω) (s t : Search σ ω) : Prop where
  /-- Whoever keeps an account of the answers finds the new ones behind the old ones, and among them the zero that a
  newly covered goal is credited to. -/
  answers : ∀ answered, subject.Answers answered → ∀ n, ∃ new,
    answered t.scene.outside n = answered s.scene.outside n ++ new ∧
      (.atom n ∈ t.archive.coveredGoals → .atom n ∈ s.archive.coveredGoals ∨ ∃ verdict ∈ new, verdict.IsZero)
  overSuite : ∀ serial inner, .overSuite serial inner ∈ t.archive.coveredGoals →
    .overSuite serial inner ∈ s.archive.coveredGoals

namespace Credits
variable {subject : Subject σ ω} {s t u : Search σ ω} {g : Goal} {content : Content σ} {v : Float}

/-- Nobody was asked, and nothing got covered. -/
theorem of_quiet (hquiet : subject.Quiet s.scene.outside t.scene.outside) (harchive : t.archive = s.archive) :
    s.Credits subject t where
  answers answered hanswered n :=
    ⟨[], by rw [hquiet hanswered, List.append_nil], fun h => .inl (harchive ▸ h)⟩
  overSuite _ _ h := harchive ▸ h

theorem refl (subject : Subject σ ω) (s : Search σ ω) : s.Credits subject s := of_quiet (.refl _ _) rfl

theorem trans (h : s.Credits subject t) (h' : t.Credits subject u) : s.Credits subject u where
  answers answered hanswered n := by
    obtain ⟨new, hnew, hcovered⟩ := h.answers answered hanswered n
    obtain ⟨new', hnew', hcovered'⟩ := h'.answers answered hanswered n
    refine ⟨new ++ new', by rw [hnew', hnew, List.append_assoc], fun hn => ?_⟩
    rcases hcovered' hn with hn | ⟨verdict, hmem, hzero⟩
    · exact (hcovered hn).imp_right fun ⟨verdict, hmem, hzero⟩ => ⟨verdict, List.mem_append_left _ hmem, hzero⟩
    · exact .inr ⟨verdict, List.mem_append_right _ hmem, hzero⟩
  overSuite serial inner hn := h.overSuite serial inner (h'.overSuite serial inner hn)

/-- The evaluator of a goal was asked, whatever it answered. -/
theorem of_asking (houtside : t.scene.outside = subject.asking g content s.scene.outside)
    (harchive : t.archive = s.archive) : s.Credits subject t where
  answers answered hanswered n :=
    ⟨_, by rw [houtside, hanswered.look_asking], fun h => .inl (harchive ▸ h)⟩
  overSuite _ _ h := harchive ▸ h

/-- An individual was submitted for a goal whose evaluator answered with a zero. -/
theorem of_submit (hv : Fitness.sanitised (subject.verdict g content s.scene.outside) = .ok v) (hzero : (v == 0.0) = true)
    (houtside : t.scene.outside = subject.asking g content s.scene.outside) {size : Nat → Nat} {i : Nat}
    (harchive : t.archive = (s.archive.submit size i g).1) : s.Credits subject t := by
  have hverdict := Verdict.isZero_of_sanitised hv hzero
  have hothers : ∀ k ∈ t.archive.coveredGoals, k ≠ g → k ∈ s.archive.coveredGoals := by
    intro k hk hne
    rwa [harchive, ← Archive.isSome_get?_iff, Archive.get?_submit, if_neg fun h => hne h.1, Archive.isSome_get?_iff] at hk
  cases g with
  | atom k =>
    refine ⟨fun answered hanswered n => ⟨_, by rw [houtside, hanswered.look_asking], fun hn => ?_⟩,
      fun serial inner h => hothers _ h nofun⟩
    by_cases hnk : (Goal.atom n : Goal) = .atom k
    · obtain rfl : n = k := Goal.atom.inj hnk
      exact .inr ⟨_, by rw [if_pos rfl]; exact List.mem_singleton_self _, hverdict⟩
    · exact .inl (hothers _ hn hnk)
  | overSuite serial inner =>
    obtain ⟨x, hx, -⟩ := hverdict
    cases hx

end Credits

end Search

end GoalSearch
