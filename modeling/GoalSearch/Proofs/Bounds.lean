import GoalSearch.Proofs.Report

/-!
# Test cases of a benchmark stay in bounds

A search on a benchmark makes test cases, copies and mutates them, and drops those that got empty. Whatever goes wrong
meanwhile, those that it evaluates have at least one statement and no more than the configuration allows, all of them
integers in the range of values. Nobody else gets into the population, the archive or the result (`allows_of_run`).
-/

namespace GoalSearch

/-- At least one statement and no more than the configuration allows, all of them integers in the range of values. -/
def Config.Allows (config : Config) (x : Individual Statement) : Prop :=
  ∃ (values : List Int) (operator : Option Nat), x.content = .testCase (values.map .int) operator ∧
    (1 ≤ values.length ∧ values.length ≤ config.search.chromosomeLength) ∧
    ∀ v ∈ values, 0 ≤ v ∧ v < config.benchmark.valueRange

theorem Config.Allows.of_bare {config : Config} {x y : Individual Statement} (hy : config.Allows y)
    (h : x.bare = y.bare) : config.Allows x := by
  unfold Allows
  rw [(Individual.bare_eq_iff.1 h).1]
  exact hy

namespace Benchmark

variable {ω : Type} {b : Benchmark} {config : Config} {around : Surroundings ω} {source : RandomSource ω}
  {setup : Setup Statement ω} {goals : List Goal} {n : Nat} {start s t : Search Statement ω} {x : Individual Statement}

/-- The test cases are as they shall be, but anything may go wrong. -/
def tolerant (b : Benchmark) : Contract Statement := ⟨b.contract.fit, fun _ => True⟩

theorem Suits.honours_tolerant (h : b.Suits config) (hconfig : config.Valid)
    (hsubject : setup.subject = b.subject around source) : setup.Honours b.tolerant := by
  have hpos : 0 < b.mutation.valueRange := by
    rw [h.mutation]
    exact hconfig.valueRange
  refine honours_of_sequence (h.one_le_length hconfig) h.maxLength_le ?_ hsubject fun _ _ => trivial
  exact IntegerMutation.honours_sequence hpos (fun _ _ => trivial) (fun _ _ => wp_any) fun _ _ _ => trivial

theorem Suits.allows (h : b.Suits config) (hconfig : config.Valid) (htest : x.IsTestCase) (hsize : 0 < x.size)
    (hfits : b.tolerant.Fits x.content) : config.Allows x := by
  have hlength : 1 ≤ config.search.chromosomeLength := hconfig.chromosomeLength
  obtain ⟨statements, operator, hcontent⟩ := htest
  unfold Individual.size at hsize
  rw [hcontent] at hfits hsize
  obtain ⟨-, hcount, hrange⟩ := hfits
  obtain ⟨values, rfl, hbounds⟩ := exists_eq_map hrange
  rw [h.mutation] at hbounds
  rw [h.length, List.length_map] at hcount
  have hnonempty : 0 < values.length := by simpa [Content.size] using hsize
  exact ⟨values, operator, hcontent, ⟨hnonempty, by omega⟩, hbounds⟩

/-- Whoever was evaluated is allowed, then and now. -/
theorem Suits.allows_of_mem (h : b.Suits config) (hconfig : config.Valid) (ht : Compliant b.tolerant setup goals n t)
    {i : Nat} (hx : (i, x) ∈ Event.evaluationsFrom n t.events) :
    config.Allows x ∧ config.Allows (t.scene.individual i) := by
  obtain ⟨hevaluated, -, hbare⟩ := ht.settled.evaluated _ hx
  have hallows := h.allows hconfig hevaluated.testCase hevaluated.nonempty (ht.evaluated_fits _ hx)
  exact ⟨hallows, hallows.of_bare hbare⟩

/-- Members of the population and of the archive were evaluated. -/
theorem Suits.allows_of_settled (h : b.Suits config) (hconfig : config.Valid)
    (ht : Compliant b.tolerant setup goals n t) {i : Nat} (hi : i ∈ t.population ∨ i ∈ t.archive.solutions) :
    config.Allows (t.scene.individual i) := by
  obtain ⟨x, hx⟩ := Settled.exists_evaluation ht.settled hi
  exact (h.allows_of_mem hconfig ht hx).2

/-- For a benchmark that was drawn for a configuration that passes its check, and any search on it: between any two
generations the members of the population and of the archive are allowed by the configuration. However a run ends, all
that was evaluated is, and if it delivers a result, so are the solutions, the population and the archive. -/
theorem allows_of_run {υ : Type} {drawn : RandomSource υ} {s₀ s₁ : Scene Statement υ}
    (hvalidate : config.validate = .ok ()) (hcreate : (create drawn config).run s₀ = (.ok b, s₁))
    (hsubject : setup.subject = b.subject around source) :
    (∀ t, Boundary setup goals start t →
      ∀ i, i ∈ t.population ∨ i ∈ t.archive.solutions → config.Allows (t.scene.individual i)) ∧
    ∀ s, Ready setup goals start s → ∀ fuel r t, (SearchM.generate setup fuel).run s = (r, t) →
      (∀ e ∈ Event.evaluationsFrom start.events.size t.events,
        config.Allows e.2 ∧ config.Allows (t.scene.individual e.1)) ∧
      ∀ result, r = .ok result → ∀ i, i ∈ result.solutions ∨ i ∈ t.population ∨ i ∈ t.archive.solutions →
        config.Allows (t.scene.individual i) := by
  have hvalid := Config.validate_eq_ok_iff.1 hvalidate
  have hb : b.Suits config := by
    have hpost := post_of_run_eq (wp_create hvalid (E := fun _ _ => True)) hcreate
    exact hpost
  have hsetup := hb.honours_tolerant hvalid hsubject
  refine ⟨fun t ht i hi => hb.allows_of_settled hvalid (ht.compliant hsetup) hi, fun s hs fuel r t h => ?_⟩
  have hrun := Compliant.wp_generate_any hsetup hs.tracked (hs.fits hsetup) fuel
  rcases r with e | result
  · refine ⟨fun x hx => ?_, nofun⟩
    rcases fault_of_run_eq hrun h with hfails | ⟨-, ht, -⟩
    · have hevaluated := hfails.evaluated x hx
      have hallows := hb.allows hvalid hevaluated.testCase hevaluated.nonempty (hfails.fits x hx)
      exact ⟨hallows, hallows.of_bare (hfails.intact x hx)⟩
    · exact hb.allows_of_mem hvalid ht hx
  · obtain ⟨ht, -⟩ := post_of_run_eq hrun h
    refine ⟨fun x hx => hb.allows_of_mem hvalid ht hx, ?_⟩
    rintro _ ⟨⟩ i (hi | hi)
    · rw [(hs.settled_of_generate h).2.1] at hi
      obtain ⟨x, hx⟩ := Settled.exists_of_mem_finalSolutions ht.settled hi
      exact (hb.allows_of_mem hvalid ht hx).2
    · exact hb.allows_of_settled hvalid ht hi

namespace Sample

/-- The benchmark that the turning draws make of the modest configuration. -/
def drawn : Benchmark :=
  ((create Command.Report.Sample.turning Command.Report.Sample.modest).run
    Command.Report.Sample.blank.scene).1.toOption.get (by decide +kernel)

/-- A search on it that injects as many test cases as the population has, into every generation. -/
def injecting : Setup Statement Nat where
  subject := drawn.subject Command.Report.Sample.still Command.Report.Sample.turning
  strategy := .dynamic
  options := { population := 2, testInsertionProbability := 1.0 }
  tournamentSize := 2
  trivial _ := false

def undrawn : Search Statement Nat where
  scene := Command.Report.Sample.blank.scene
  archive := .ofGoals drawn.goalList
  conditions := [.iterations 3 0]

end Sample

/-- The four test cases that a small run evaluates are allowed, and so is the one that it delivers. -/
theorem allows_of_run_drawn : ∃ result t, (SearchM.generate Sample.injecting 3).run Sample.undrawn = (.ok result, t) ∧
    result.solutions = [2] ∧ (Event.evaluationsFrom 0 t.events).length = 4 ∧
    (∀ e ∈ Event.evaluationsFrom 0 t.events, Command.Report.Sample.modest.Allows e.2) ∧
    Command.Report.Sample.modest.Allows (t.scene.individual 2) := by
  have hcreate := run_eq_of_toOption
    (x := create Command.Report.Sample.turning Command.Report.Sample.modest)
    (s := Command.Report.Sample.blank.scene) (a := Sample.drawn) (Option.some_get _).symm
  obtain ⟨-, hall⟩ := @allows_of_run _ _ _ Command.Report.Sample.still Command.Report.Sample.turning Sample.injecting
    Sample.drawn.goalList Sample.undrawn _ _ _ _ rfl hcreate rfl
  have hsolutions : ((SearchM.generate Sample.injecting 3).run Sample.undrawn).1.toOption.map (·.solutions) =
      some [2] := by decide +kernel
  obtain ⟨result, hresult, hsolutions⟩ := Option.map_eq_some_iff.1 hsolutions
  have hrun := run_eq_of_toOption hresult
  obtain ⟨hevaluated, hdelivered⟩ := hall _ (.new rfl) 3 _ _ hrun
  exact ⟨result, _, hrun, hsolutions, by decide +kernel, fun e he => (hevaluated e he).1,
    hdelivered result rfl 2 (.inl (by rw [hsolutions]; exact List.mem_singleton_self 2))⟩

end Benchmark

end GoalSearch
