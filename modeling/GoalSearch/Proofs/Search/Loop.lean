import GoalSearch.Proofs.Scene
import GoalSearch.Search.Evolution

/-!
# The loop of a run

What holds in front of the loop over the generations and is kept by each generation that follows, holds behind the loop
(`SearchM.wp_advanceAll`). The property may count the generations.
-/

namespace GoalSearch

variable {σ ω : Type} {setup : Setup σ ω} {s : Search σ ω} {E : Fault → Search σ ω → Prop}

/-- One more generation follows: no condition is fulfilled, and not all goals are covered. -/
def Search.goesOn (setup : Setup σ ω) (s : Search σ ω) : Bool :=
  resourcesLeft (setup.subject.now s.scene.outside) s.conditions && !s.archive.uncovered.isEmpty

namespace SearchM

theorem wp_goesOn {Q : Bool → Search σ ω → Prop} : wp (goesOn setup) Q E s ↔ Q (s.goesOn setup) s := Iff.rfl

theorem wp_advanceAll {P : Nat → Search σ ω → Prop} {k : Nat} (hs : P k s)
    (hstep : ∀ j t, P j t → t.goesOn setup = true → wp (advance setup) (fun _ => P (j + 1)) E t) {fuel : Nat}
    (hunfinished : ∀ t, P (k + fuel) t → t.goesOn setup = true → E .unfinished t) :
    wp (advanceAll setup fuel) (fun _ t => ∃ j, P j t ∧ t.goesOn setup = false) E s := by
  induction fuel generalizing k s with
  | zero =>
    unfold advanceAll
    rw [wp_bind, wp_goesOn, wp_ite]
    split
    · exact hunfinished s hs ‹_›
    · exact ⟨k, hs, Bool.eq_false_iff.2 ‹_›⟩
  | succ fuel ih =>
    unfold advanceAll
    rw [wp_bind, wp_goesOn, wp_ite]
    split
    · exact wp_seq (hstep k s hs ‹_›) fun _ t ht => ih ht (by rwa [Nat.add_right_comm])
    · exact ⟨k, hs, Bool.eq_false_iff.2 ‹_›⟩

end SearchM

end GoalSearch
