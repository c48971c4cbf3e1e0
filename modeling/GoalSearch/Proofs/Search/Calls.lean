import GoalSearch.Proofs.Search.Budget
import GoalSearch.Proofs.Search.Course
import GoalSearch.Proofs.Search.Result

/-!
# Calls of evaluators

In a run that ends normally the evaluator of every goal is asked once for each individual that is evaluated, and never
besides (`calls_of_generate`). The evaluated individuals come in batches: the members of the first population, then
the offspring of every generation (`Batches`).
-/

namespace GoalSearch

variable {σ ω : Type} {asked : ω → Nat → List (Content σ)} {goals : List Goal} {start s t u : Search σ ω}
  {setup : Setup σ ω} {made : List Nat} {batches : List (List Nat)} {fuel : Nat} {result : SearchResult}

/-- What a run from `s` evaluated when it is between two generations in `t`: the members of its first population, and
the offspring of every generation. -/
inductive Batches (setup : Setup σ ω) (s : Search σ ω) : List (List Nat) → Search σ ω → Prop
  | first {members : List Nat} {t u : Search σ ω} (hmembers : (SearchM.populate setup).run s = (.ok members, t))
      (h : (SearchM.initialise setup).run s = (.ok (), u)) : Batches setup s [members] u
  | next {batches : List (List Nat)} {active : List Goal} {offspring : List Nat} {t t₁ t₂ u : Search σ ω}
      (ht : Batches setup s batches t)
      (hactive : (SearchM.activeGoals setup).run { t with phase := .evolving } = (.ok active, t₁))
      (hoffspring : (SearchM.breed setup).run t₁ = (.ok offspring, t₂)) (h : Advances setup t u) :
      Batches setup s (batches ++ [offspring]) u

/-- Between two generations the accounts are the batches so far. -/
def Batched (setup : Setup σ ω) (goals : List Goal) (n : Nat) (s t : Search σ ω) : Prop :=
  Settled goals n t ∧ ∃ batches, Batches setup s batches t ∧ s.Accounts setup.subject goals batches.flatten t

section Runs
variable {n : Nat}

theorem wp_initialise_batched (h : Tracked goals n s.population [] [] s) :
    wp (SearchM.initialise setup) (fun _ => Batched setup goals n s) (fun _ _ => True) s := by
  refine wp_mono (wp_run (Settled.wp_initialise h)) ?_ fun _ _ _ => trivial
  rintro _ t ⟨hrun, ht, -, -, members, u, hmembers, haccounts⟩
  exact ⟨ht, [members], .first hmembers hrun, by simpa using haccounts⟩

theorem Batched.wp_advance (ht : Batched setup goals n s t) (hn : n ≤ s.events.size) :
    wp (SearchM.advance setup) (fun _ => Batched setup goals n s) (fun _ _ => True) t := by
  obtain ⟨ht, batches, hbatches, haccounts⟩ := ht
  have haudited : Audited setup.subject .none s goals n t.population t.population [] batches.flatten t :=
    ⟨ht, haccounts, hn, fun _ _ => Contract.fits_none _, by simp⟩
  refine wp_mono (wp_run (haudited.wp_advance setup.honours_none (Contract.started_none setup t))) ?_ fun _ _ _ => trivial
  rintro _ u ⟨hrun, ⟨active, offspring, hgeneration, hu⟩, -⟩
  obtain ⟨t₁, t₂, hactive, hoffspring⟩ := hgeneration.bred
  exact ⟨hgeneration.settled, batches ++ [offspring], .next hbatches hactive hoffspring hrun, by simpa using hu.accounts⟩

theorem wp_generate_batched (h : Tracked goals n s.population [] [] s) (fuel : Nat) :
    wp (SearchM.generate setup fuel)
      (fun result t => ∃ batches u, Batches setup s batches u ∧ (SearchM.finalise setup).run u = (.ok result, t) ∧
        s.Accounts setup.subject goals batches.flatten t) (fun _ _ => True) s := by
  unfold SearchM.generate
  refine wp_seq (wp_initialise_batched h) fun _ t ht => ?_
  refine wp_seq (SearchM.wp_advanceAll (P := fun _ => Batched setup goals n s) (k := 0) ht
    (fun _ t ht _ => ht.wp_advance h.events_le) fun _ _ _ => trivial) fun _ u hu => ?_
  obtain ⟨-, ⟨hu, batches, hbatches, haccounts⟩, -⟩ := hu
  rw [wp_of_run_eq hu.run_finalise]
  exact ⟨batches, u, hbatches, hu.run_finalise, haccounts.push rfl (.refl _ _) rfl rfl⟩

end Runs

/-- In a run that ends normally the evaluator of every goal is asked about each evaluated individual once, in the
order of the evaluations, and about nothing else; these individuals are the members of the first population and the
offspring of the generations, each of them once. So a condition that counts evaluations shows how often every
evaluator was asked. No evaluator is asked for the suite of the result or its coverage. Goals over suites have no
evaluator. -/
theorem calls_of_generate (hasked : setup.subject.Records asked) (hs : Ready setup goals start s)
    (h : (SearchM.generate setup fuel).run s = (.ok result, t)) :
    (∀ n, asked t.scene.outside n = asked s.scene.outside n ++
      if .atom n ∈ goals then (Event.evaluationsFrom s.events.size t.events).map (·.2.content) else []) ∧
    (∃ batches u, Batches setup s batches u ∧ (SearchM.finalise setup).run u = (.ok result, t) ∧
      (Event.evaluationsFrom s.events.size t.events).map (·.1) = batches.flatten ∧ batches.flatten.Nodup) ∧
    (∀ limit used, .evaluations limit used ∈ t.conditions →
      used = (Event.evaluationsFrom s.events.size t.events).length ∧
      ∀ n, .atom n ∈ goals → (asked t.scene.outside n).length = (asked s.scene.outside n).length + used) ∧
    ∃ suite u v, (result.toSuite setup.subject).run t.scene = (.ok suite, u) ∧
      asked u.outside = asked t.scene.outside ∧
      (Individual.coverage setup.subject suite).run u = (.ok result.coverage, v) ∧
      asked v.outside = asked t.scene.outside := by
  obtain ⟨batches, u, hbatches, hfinalise, haccounts⟩ := post_of_run_eq (wp_generate_batched hs.tracked fuel) h
  have hcalls : ∀ n, asked t.scene.outside n = asked s.scene.outside n ++
      if .atom n ∈ goals then (Event.evaluationsFrom s.events.size t.events).map (·.2.content) else [] := by
    intro n
    rw [haccounts.asked_eq asked hasked]
    simp only [Distinct.mem_ofList]
  refine ⟨hcalls, ⟨batches, u, hbatches, hfinalise, haccounts.made_eq, haccounts.nodup⟩, fun limit used hmem => ?_, ?_⟩
  · have htallied := post_of_run_eq (Search.wp_generate_tallied fuel) h
    have hused : used = (Event.evaluationsFrom s.events.size t.events).length := htallied.shows limit used hmem
    refine ⟨hused, fun n hn => ?_⟩
    rw [hcalls, ite_eq_left_iff.2 fun hnot => absurd hn hnot, List.length_append, List.length_map, hused]
  · obtain ⟨ht, hsolutions, hperGoal⟩ := hs.settled_of_generate h
    obtain ⟨suite, u, v, hsuite, hcoverage, houtside⟩ := ht.coverage_toSuite hsolutions hperGoal
    have hkeeps := SearchResult.keeps_toSuite (P := (asked · = asked t.scene.outside)) setup.subject result
    have hquiet : asked u.outside = asked t.scene.outside := hkeeps.of_run_eq rfl hsuite
    exact ⟨suite, u, v, hsuite, hquiet, hcoverage, houtside ▸ hquiet⟩

namespace Sample

/-- The growing test cases, with a record of what the evaluators are asked about. -/
def recording : Setup Statement (World × (Nat → List (Content Statement))) where
  subject := shortAndLong.subject.recorded
  strategy := .dynamic
  options := { population := 2 }
  tournamentSize := 2
  trivial _ := false

def unasked : Search Statement (World × (Nat → List (Content Statement))) where
  scene := ⟨#[], (unborn.scene.outside, fun _ => []), #[]⟩
  archive := .ofGoals [.atom 0, .atom 1]
  conditions := [.evaluations 5 0]

end Sample

/-- Two test cases and their offspring are evaluated, and either evaluator is asked four times. -/
theorem calls_of_generate_recording : ∃ t,
    (SearchM.generate Sample.recording 3).run Sample.unasked =
      (.ok ⟨[0, 2], [(.atom 0, true), (.atom 1, true)], 1⟩, t) ∧
    (∃ batches, (Event.evaluationsFrom 0 t.events).map (·.1) = List.flatten batches ∧ batches.flatten = [0, 1, 2, 3]) ∧
    .evaluations 5 4 ∈ t.conditions ∧ (t.scene.outside.2 0).length = 4 ∧ (t.scene.outside.2 1).length = 4 ∧
    t.scene.outside.2 2 = [] := by
  have hrun := run_eq_of_toOption (x := SearchM.generate Sample.recording 3) (s := Sample.unasked)
    (a := ⟨[0, 2], [(.atom 0, true), (.atom 1, true)], 1⟩) (by decide +kernel)
  obtain ⟨hcalls, ⟨batches, -, -, -, hbatches, -⟩, hcount, -⟩ :=
    calls_of_generate (Subject.records_recorded _) (.new rfl) hrun
  have hlimited : Tally.evaluations.Limited 5 ((SearchM.generate Sample.recording 3).run Sample.unasked).2.conditions :=
    (SearchM.keeps_generate Sample.recording (Search.closed_conditions (R := Tally.evaluations.Limited 5)
      fun _ x h => h.step x) 3) Sample.unasked ⟨0, List.mem_singleton_self _⟩
  obtain ⟨used, hmem⟩ := hlimited
  obtain ⟨hused, hlength⟩ := hcount 5 used hmem
  obtain rfl : used = 4 := hused.trans (by decide +kernel)
  exact ⟨_, hrun, ⟨batches, hbatches, hbatches.symm.trans (by decide +kernel)⟩, hmem, hlength 0 (by decide),
    hlength 1 (by decide), hcalls 2⟩

end GoalSearch
