import GoalSearch.Command.Report
import GoalSearch.Proofs.Benchmark
import GoalSearch.Proofs.Search.Completion
import GoalSearch.Proofs.Search.Result

/-!
# The benchmark runs to its end

A run of the benchmark draws goals, searches for them, and sums up what it found. With a configuration that passes its
check and limits the generations, none of these steps can fail (`Command.Report.completes_of_validate`). Whatever it
limits, the benchmark and the search can be set up, and each limit is watched by one condition
(`Command.Report.limits_of_validate`).
-/

namespace GoalSearch.Command.Report

variable {ω : Type} {around : Surroundings ω} {source : RandomSource ω} {config : Config} {b : Benchmark}
  {contract : Contract Statement} {setup : Setup Statement ω} {goals : List Goal} {n : Nat} {result : SearchResult}
  {s : Search Statement ω} {E : Fault → Search Statement ω → Prop}

/-- A configuration that passes its check gets a benchmark. -/
theorem wp_prepare (h : config.Valid) :
    wp (prepare source config) (fun r t => ∃ b : Benchmark, r = some b ∧ b.Suits config ∧ t.events = s.events) E s := by
  unfold prepare
  rw [Config.validate_eq_ok_iff.2 h]
  dsimp only
  rw [wp_bind, SearchM.wp_onScene]
  exact wp_imp (Benchmark.wp_create h) fun b _ hb => ⟨b, rfl, hb, rfl⟩

/-- What a search delivered can be summed up. -/
theorem wp_conclude (styled : Bool) (h : Delivered contract setup goals n result s) :
    wp (conclude around source styled b result)
      (fun r t => r.1 = (if result.perGoal.all (·.2) then .covered else .uncovered) ∧ t.events = s.events) E s := by
  have hevaluated : ∀ i ∈ result.solutions, (s.scene.individual i).Evaluated goals := by
    intro i hi
    obtain ⟨x, hx⟩ := h.solutions i hi
    exact h.settled.evaluated_of_mem hx
  have hgoals : result.perGoal.map (·.1) = goals := by
    rw [h.perGoal, List.map_map]
    exact List.map_id _
  have hcovered : result.covered.length = result.perGoal.length ↔ result.perGoal.all (·.2) = true := by
    unfold SearchResult.covered
    rw [List.length_map, List.length_filter_eq_length_iff, List.all_eq_true]
  unfold conclude
  dsimp only
  rw [wp_bind, SearchM.wp_onScene, wp_bind]
  refine wp_imp (SearchResult.wp_toSuite (b.subject around source) hevaluated) fun suite u hpost => ?_
  obtain ⟨members, hgathers, hfunctions, -⟩ := hpost
  rw [hgoals] at hfunctions
  refine wp_mono (hgathers.wp_summary (b.subject around source) (List.Subset.refl _) hfunctions) (fun r v _ => ?_)
    fun _ _ hfalse => hfalse.elim
  rw [wp_bind, SearchM.wp_log, wp_bind, wp_get, wp_pure]
  exact ⟨by simp only [hcovered], rfl⟩

/-- Whatever the draws, as long as the normally distributed numbers are finite, and from whatever state it starts: with a
configuration that passes its check, names a strategy and limits the generations, and whose population and range of
values have a binary64 value, a run of the benchmark meets no fault. It draws a benchmark, prepares the search, searches
with fuel for the generations of the limit, and tells whether all goals are covered. If the depth has a binary64 value
too, no evaluator fails on any of the individuals that are evaluated. -/
theorem completes_of_validate (hnormal : source.HasFiniteNormals) (hvalidate : config.validate = .ok ())
    (halgorithm : config.algorithm = "MOSA" ∨ config.algorithm = "DYNAMOSA")
    (hlimit : 0 ≤ config.stopping.maximumIterations)
    (hpopulation : (Binary64.ofInt? config.search.population).isSome)
    (hrange : (Binary64.ofInt? config.benchmark.valueRange).isSome) (fuel : Nat)
    (hfuel : config.stopping.maximumIterations ≤ fuel) (around : Surroundings ω) (styled : Bool)
    (s : Search Statement ω) :
    ∃ b s₁, (prepare source config).run s = (.ok (some b), s₁) ∧
      (∃ setup s₂, (session around source config b).prepare.run s₁ = (.ok setup, s₂)) ∧
      ∃ outcome shown t, (run around source styled fuel config).run s = (.ok (outcome, shown), t) ∧
        outcome ≠ .setupFailed ∧
        ((Binary64.ofInt? config.benchmark.depth).isSome → ∀ g ∈ b.goals,
          ∀ e ∈ Event.evaluationsFrom s.events.size t.events, ∃ x, g.evaluate e.2.content = .number x) := by
  have hvalid := Config.validate_eq_ok_iff.1 hvalidate
  obtain ⟨limit, hlimit⟩ := Int.eq_ofNat_of_zero_le hlimit
  obtain ⟨strategy, hstrategy⟩ : ∃ strategy, Strategy.ofName? config.algorithm = some strategy := by
    rcases halgorithm with h | h <;> rw [h]
    · exact ⟨_, rfl⟩
    · exact ⟨_, rfl⟩
  have hprepared : wp (prepare source config) _ (fun _ _ => False) s := wp_prepare hvalid
  obtain ⟨_, s₁, hprepare, b, rfl, hb, hevents⟩ := exists_of_wp hprepared
  have hsetup : ((session around source config b).setup strategy).Honours b.contract :=
    hb.honours hvalid hpopulation hrange hnormal rfl rfl
  have hready : wp (session around source config b).prepare _ (fun _ _ => False) s₁ :=
    Session.wp_prepare_of_valid hvalid hb.goalList_ne_nil rfl hstrategy
  obtain ⟨setup, s₂, hsession, -⟩ := exists_of_wp hready
  refine ⟨b, s₁, hprepare, ⟨setup, s₂, hsession⟩, ?_⟩
  have hrun : wp (run around source styled fuel config)
      (fun r t => r.1 ≠ .setupFailed ∧ ((Binary64.ofInt? config.benchmark.depth).isSome → ∀ g ∈ b.goals,
        ∀ e ∈ Event.evaluationsFrom s.events.size t.events, ∃ x, g.evaluate e.2.content = .number x))
      (fun _ _ => False) s := by
    unfold run
    rw [wp_bind, wp_of_run_eq hprepare]
    dsimp only
    refine wp_seq (Session.wp_run_of_valid hvalid hb.goalList_ne_nil rfl hstrategy hsetup hlimit
      (by omega)) fun result t ht => ?_
    refine wp_seq (wp_conclude styled ht) fun r u hu => ?_
    obtain ⟨houtcome, hquiet⟩ := hu
    refine ⟨?_, fun hdepth g hg e he => ?_⟩
    · rw [houtcome]
      split <;> simp
    · rw [hquiet, ← hevents] at he
      exact hb.exists_evaluate hvalid hrange hdepth hg (ht.settled.evaluated e he).1.testCase (ht.evaluated_fits e he)
  obtain ⟨⟨outcome, shown⟩, t, hrun, hpost⟩ := exists_of_wp hrun
  exact ⟨outcome, shown, t, hrun, hpost⟩

namespace Sample

/-- Draws that go round and round. -/
def turning : RandomSource Nat where
  nextUnit w := (if w % 3 = 0 then 0.75 else 0.25, w + 1)
  nextBelow n w := (w % n, w + 1)
  nextNormal _ _ w := (1.0, w + 1)
  nextBelow_lt w h := Nat.mod_lt w h

def still : Surroundings Nat where
  random := turning
  seed _ := 0
  now _ := 0
  memory _ := none
  notice _ w := w

/-- One goal and one below it, and test cases that never get longer. -/
def modest : Config where
  algorithm := "DYNAMOSA"
  search := { population := 2, chromosomeLength := 3, testChangeProbability := 1.0, testInsertProbability := 0.0 }
  stopping := { maximumIterations := 4 }
  benchmark := { depth := 2, width := 1, valueRange := 4 }

def blank : Search Statement Nat where
  scene := ⟨#[], 2, #[]⟩

end Sample

/-- Both goals of a small benchmark get covered. -/
theorem completes_of_validate_modest : Sample.turning.HasFiniteNormals ∧ Sample.modest.validate = .ok () ∧
    ∃ b s₁ shown t, (prepare Sample.turning Sample.modest).run Sample.blank = (.ok (some b), s₁) ∧
      (run Sample.still Sample.turning false 4 Sample.modest).run Sample.blank = (.ok (.covered, shown), t) ∧
      ∀ g ∈ b.goals, ∀ e ∈ Event.evaluationsFrom 0 t.events, ∃ x, g.evaluate e.2.content = .number x := by
  have hfinite : Binary64.isFinite 1.0 = true := by decide +kernel
  have hnormal : Sample.turning.HasFiniteNormals := fun _ _ _ => hfinite
  have hvalidate : Sample.modest.validate = .ok () := rfl
  have hcovered : (((run Sample.still Sample.turning false 4 Sample.modest).run Sample.blank).1.toOption.map (·.1)) =
      some .covered := by decide +kernel
  obtain ⟨b, s₁, hprepare, -, outcome, shown, t, hrun, -, hevaluate⟩ :=
    completes_of_validate hnormal hvalidate (.inr rfl) (by decide) (by decide +kernel) (by decide +kernel) 4
      (by decide) Sample.still false Sample.blank
  rw [hrun] at hcovered
  obtain rfl : outcome = .covered := Option.some.inj hcovered
  exact ⟨hnormal, hvalidate, b, s₁, shown, t, hprepare, hrun, hevaluate (by decide +kernel)⟩

/-! ### Setting up -/

/-- A configuration that passes its check and names a strategy can be set up: there are stopping conditions, a search
with that strategy and these conditions, and a benchmark. The search is bounded by something else than the memory, and
each limit that is switched on is watched by one condition. -/
theorem limits_of_validate (hvalidate : config.validate = .ok ())
    (halgorithm : config.algorithm = "MOSA" ∨ config.algorithm = "DYNAMOSA") :
    (∀ {σ ω : Type} (subject : Subject σ ω) (s : Scene σ ω), ∃ cs t,
      (Config.conditions subject config.stopping).run s = (.ok cs, t) ∧
        Config.Watches (subject.now s.outside) config.stopping cs) ∧
    (∀ {σ ω : Type} (session : Session σ ω) (s : Search σ ω), session.config = config → ∃ setup t,
      session.assemble.run s = (.ok setup, t) ∧ setup.strategy.name = config.algorithm ∧
        setup.options = config.search ∧
        Config.Watches (session.subject.now s.scene.outside) config.stopping t.conditions) ∧
    ∀ {ω : Type} (source : RandomSource ω) (s : Scene Statement ω), ∃ b t,
      (Benchmark.create source config).run s = (.ok b, t) ∧ b.Suits config := by
  have hvalid := Config.validate_eq_ok_iff.1 hvalidate
  obtain ⟨strategy, hname, hstrategy⟩ : ∃ strategy : Strategy, strategy.name = config.algorithm ∧
      Strategy.ofName? config.algorithm = some strategy := by
    rcases halgorithm with h | h <;> rw [h]
    · exact ⟨.static, rfl, rfl⟩
    · exact ⟨.dynamic, rfl, rfl⟩
  refine ⟨fun subject s => ?_, fun session s hconfig => ?_, fun source s => ?_⟩
  · obtain ⟨cs, t, hrun, rfl⟩ := exists_of_wp (hvalid.wp_conditions subject (s := s))
    exact ⟨_, t, hrun, hvalid.watches _⟩
  · subst hconfig
    obtain ⟨_, t, hrun, rfl, hconditions⟩ := exists_of_wp (Session.wp_assemble_of_valid hvalid hstrategy (s := s))
    exact ⟨_, t, hrun, hname, rfl, hconditions ▸ hvalid.watches _⟩
  · exact exists_of_wp (Benchmark.wp_create hvalid)

/-- Limits of every kind but one, with two plateaus of the same length. -/
def Sample.bounded : Config where
  algorithm := "MOSA"
  search := { tournamentSize := 1 }
  stopping :=
    { maximumIterations := 0
      maximumFitnessEvaluations := 7
      maximumCoverage := 0
      maximumCoveragePlateau := 5
      minimumCoverage := 99
      minimumPlateauIterations := 5
      maximumMemory := 0 }
  benchmark := { depth := 1, width := 1, valueRange := 1 }

theorem limits_of_validate_bounded : Sample.bounded.validate = .ok () ∧
    ∃ cs t, (Config.conditions (Benchmark.subject Sample.still Sample.turning ⟨#[], ⟨1, Benchmark.rates {}⟩, 1⟩)
        Sample.bounded.stopping).run Sample.blank.scene = (.ok cs, t) ∧
      cs.filter (fun c => Limit.of? c = some .plateau) = [.plateau 5 0 0 0.0] ∧
      cs.filter (fun c => Limit.of? c = some .minimum) = [.plateau 5 99 0 0.0] ∧
      ∃ b u, (Benchmark.create Sample.turning Sample.bounded).run Sample.blank.scene = (.ok b, u) := by
  have hvalidate : Sample.bounded.validate = .ok () := rfl
  obtain ⟨hconditions, -, hbenchmark⟩ := limits_of_validate hvalidate (.inl rfl)
  obtain ⟨cs, t, hrun, hwatches⟩ := hconditions
    (Benchmark.subject Sample.still Sample.turning ⟨#[], ⟨1, Benchmark.rates {}⟩, 1⟩) Sample.blank.scene
  obtain ⟨b, u, hcreate, -⟩ := hbenchmark Sample.turning Sample.blank.scene
  exact ⟨hvalidate, cs, t, hrun, (hwatches.each .plateau (by decide)).1, (hwatches.each .minimum (by decide)).1, b, u,
    hcreate⟩

end GoalSearch.Command.Report
