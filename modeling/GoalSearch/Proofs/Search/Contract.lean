import GoalSearch.Proofs.Search.Closed
import GoalSearch.Proofs.Search.Tracking

/-!
# What a search may rely on

A search works with parts from outside: a factory, mutation operators and evaluators. A `Contract` says what the test
cases that they hand over are like and which faults may come of them, and a setup honours it (`Setup.Honours`) if its
parts keep what they promise to each other. Whatever breeding and ranking do to a search, it fails with nothing but
what the contract allows, and then evaluated individuals fit and are as they were, and what got covered is credited to
an answer (`Contract.Fails`). Every setup honours the contract that promises nothing.
-/

namespace GoalSearch

variable {σ ω : Type}

structure Contract (σ : Type) where
  /-- What the statements of a test case and the number of its operator are like. -/
  fit : List σ → Option Nat → Prop
  /-- The faults that are allowed. -/
  blame : Fault → Prop

namespace Contract

/-- Promises nothing. -/
def none : Contract σ := ⟨fun _ _ => True, fun _ => True⟩

def Fits (contract : Contract σ) : Content σ → Prop
  | .testCase statements operator => contract.fit statements operator
  | _ => True

theorem fits_none (content : Content σ) : Contract.none.Fits content := by cases content <;> trivial

/-- What a factory may come back with. A search copes with one that could not build an individual this time. -/
def Admits (contract : Contract σ) (subject : Subject σ ω) : Except Fault (Blueprint σ) → Prop
  | .ok plan => contract.fit plan.statements plan.operator ∧
      ((∃ g ∈ plan.functions, subject.isMaximised g = true) → contract.blame (.requirement .minimisation))
  | .error e => e = .constructionFailed ∨ contract.blame e

/-- A search that failed as it is allowed to, and did no harm to the individuals that were evaluated, which all fit. What
it covered since `start` is credited. -/
structure Fails (contract : Contract σ) (subject : Subject σ ω) (goals : List Goal) (start : Search σ ω) (n : Nat)
    (e : Fault) (t : Search σ ω) : Prop where
  blame : contract.blame e
  intact : t.Intact n
  evaluated : ∀ x ∈ Event.evaluationsFrom n t.events, x.2.Evaluated goals
  fits : ∀ x ∈ Event.evaluationsFrom n t.events, contract.Fits x.2.content
  credits : start.Credits subject t

theorem Fails.trans {contract : Contract σ} {subject : Subject σ ω} {goals : List Goal} {start s t : Search σ ω}
    {n : Nat} {e : Fault} (h : contract.Fails subject goals s n e t) (hs : start.Credits subject s) :
    contract.Fails subject goals start n e t :=
  { h with credits := hs.trans h.credits }

/-- The parents of goals are known where they matter, unless a search may go without. -/
def Started (contract : Contract σ) (setup : Setup σ ω) (s : Search σ ω) : Prop :=
  contract.blame (.requirement .searchStarted) ∨ setup.strategy = .static ∨ s.dependencies.isSome

theorem started_none (setup : Setup σ ω) (s : Search σ ω) : Contract.none.Started setup s := .inl trivial

theorem closed_started (contract : Contract σ) (setup : Setup σ ω) : Search.Closed (contract.Started setup) where
  scene _ _ h := h
  note _ _ _ h := h
  depend _ _ _ := .inr (.inr rfl)
  signal _ _ h := h
  population _ _ h := h
  record _ _ h := h
  submit _ _ _ _ h := h

/-- The parents of goals are looked up when a search starts, before anything can fail. -/
theorem wp_gatherDependencies_started {contract : Contract σ} {setup : Setup σ ω} {s : Search σ ω}
    {E : Fault → Search σ ω → Prop} :
    wp (SearchM.gatherDependencies setup) (fun _ => contract.Started setup) E s := by
  unfold SearchM.gatherDependencies
  split
  · rename_i hstatic
    exact .inr (.inl hstatic)
  · rw [wp_bind, wp_get]
    exact wp_seq SearchM.wp_logs fun _ _ _ => .inr (.inr rfl)

theorem wp_populate_started {contract : Contract σ} {setup : Setup σ ω} {s : Search σ ω} :
    wp (SearchM.populate setup) (fun _ => contract.Started setup) (fun _ => contract.Started setup) s := by
  have hclosed := contract.closed_started setup
  unfold SearchM.populate SearchM.onStart SearchM.now
  rw [wp_bind, wp_modify, wp_bind, wp_bind, wp_bind, wp_get, wp_pure, wp_bind, SearchM.wp_signal, wp_bind, wp_get,
    SearchM.wp_record]
  refine wp_seq (Q := fun _ => contract.Started setup) wp_gatherDependencies_started fun _ t ht => ?_
  have hbearing := SearchM.bearing_of_fertile setup hclosed.stable.toFertile
  refine wp_seq (Keeps.iff_wp.1 (SearchM.keeps_randomPopulation setup hbearing) t ht) fun _ u hu => ?_
  rw [wp_bind, wp_modify]
  exact hu

theorem wp_initialise_started {contract : Contract σ} {setup : Setup σ ω} {s : Search σ ω} :
    wp (SearchM.initialise setup) (fun _ => contract.Started setup) (fun _ => contract.Started setup) s :=
  SearchM.wp_initialise setup (contract.closed_started setup).stable.toIdle wp_populate_started fun _ _ ht => ht

end Contract

structure Setup.Honours (setup : Setup σ ω) (contract : Contract σ) : Prop where
  make : ∀ w, contract.Admits setup.subject (setup.subject.make w).1
  mutate : ∀ statements operator w, contract.fit statements (some operator) →
    wp (setup.subject.mutate operator) (fun _ t => contract.fit t.1 (some operator)) (fun e _ => contract.blame e)
      (statements, w)
  operator : ∀ statements, contract.fit statements none → contract.blame (.requirement .operatorGiven)
  evaluate : ∀ statements operator, contract.fit statements operator → ∀ k w e,
    (setup.subject.evaluate k (.testCase statements operator) w).1 = .abort e → contract.blame e
  injection : ∀ e, SearchM.injectionCount setup.options = .error e → contract.blame e

namespace Setup
variable {setup : Setup σ ω} {contract : Contract σ}

theorem honours_none (setup : Setup σ ω) : setup.Honours .none where
  make w := by
    cases (setup.subject.make w).1 with
    | ok plan => exact ⟨⟨⟩, fun _ => ⟨⟩⟩
    | error e => exact .inr ⟨⟩
  mutate _ _ _ _ := wp_mono wp_any (fun _ _ _ => ⟨⟩) fun _ _ _ => ⟨⟩
  operator _ _ := ⟨⟩
  evaluate _ _ _ _ _ _ _ := ⟨⟩
  injection _ _ := ⟨⟩

namespace Honours

/-- A test case that fits is mutated into one that fits. -/
theorem wp_mutate (h : setup.Honours contract) {s : Scene σ ω} {i : Nat} (htest : (s.individual i).IsTestCase)
    (hfits : contract.Fits (s.individual i).content) :
    wp (Individual.mutate setup.subject i) (fun _ t => s.Keeps [i] t ∧ contract.Fits (t.individual i).content)
      (fun e t => contract.blame e ∧ s.Keeps [i] t) s := by
  have hi := Scene.lt_size_of_isTestCase htest
  obtain ⟨statements, operator, hcontent⟩ := htest
  rw [hcontent] at hfits
  cases operator with
  | none =>
    unfold Individual.mutate
    rw [wp_bind, SceneM.wp_individual, hcontent]
    exact ⟨h.operator statements hfits, .refl _ _⟩
  | some operator =>
    have hmutated := h.mutate statements operator s.outside hfits
    refine wp_mono (Individual.wp_mutate hi hcontent) ?_ ?_
    · rintro - t ⟨altered, hrun, -, ht⟩
      have hfits' := post_of_run_eq hmutated (Prod.ext hrun rfl)
      exact ⟨.of_sets (List.mem_singleton_self i) ht fun _ => ⟨_, _, rfl⟩, by rwa [ht.self]⟩
    · rintro e t ⟨hrun, -, ht⟩
      exact ⟨fault_of_run_eq hmutated (Prod.ext hrun rfl), .of_sets (List.mem_singleton_self i) ht fun _ => ⟨_, _, rfl⟩⟩

end Honours

end Setup

end GoalSearch
