import GoalSearch.Proofs.Search.Best
import GoalSearch.Proofs.Session

/-!
# How a run halts

In front of every generation, and behind the last one, a run looks at its conditions and at what is uncovered (`Head`).
The number of generations made so far is the generation of the search, and what the conditions on generations show
(`Head.counted`). So a limit on generations halts the run, and it halts with goals that are uncovered only if some
condition is fulfilled (`generations_of_assemble`).
-/

namespace GoalSearch

variable {σ ω : Type} {setup : Setup σ ω} {session : Session σ ω} {s t u : Search σ ω} {k limit : Nat}

/-- A run from `s` looks at `t` whether to go on, with `k` generations made. -/
inductive Head (setup : Setup σ ω) (s : Search σ ω) : Nat → Search σ ω → Prop
  | first {t : Search σ ω} (h : (SearchM.initialise setup).run s = (.ok (), t)) : Head setup s 0 t
  | next {k : Nat} {t u : Search σ ω} (ht : Head setup s k t) (hgo : t.goesOn setup = true)
      (h : Advances setup t u) : Head setup s (k + 1) u

/-- How a run from `s` ends: it fails before its first generation or within one, or does not go on. -/
inductive Outcome (setup : Setup σ ω) (s : Search σ ω) : Except Fault SearchResult × Search σ ω → Prop
  | unstarted {e : Fault} {u : Search σ ω} (h : (SearchM.initialise setup).run s = (.error e, u)) :
      Outcome setup s (.error e, u)
  | broken {k : Nat} {t u : Search σ ω} {e : Fault} (ht : Head setup s k t) (hgo : t.goesOn setup = true)
      (h : (SearchM.advance setup).run t = (.error e, u)) : Outcome setup s (.error e, u)
  | halted {k : Nat} {t : Search σ ω} (ht : Head setup s k t) (hgo : t.goesOn setup = false) :
      Outcome setup s ((SearchM.finalise setup).run t)

/-! ### Counting generations -/

namespace Search

/-- The search is in the generation, and the conditions on generations show the count. -/
structure Counted (generation : Int) (k : Nat) (s : Search σ ω) : Prop where
  generation_eq : s.generation = generation
  shows : Tally.iterations.Shows k s.conditions

variable {generation : Int}

theorem stable_counted : Stable (σ := σ) (ω := ω) (Counted generation k) where
  scene _ _ h := ⟨h.generation_eq, h.shows⟩
  note _ _ h := ⟨h.generation_eq, h.shows⟩
  depend _ _ h := ⟨h.generation_eq, h.shows⟩
  population _ _ h := ⟨h.generation_eq, h.shows⟩
  mutated _ _ h := ⟨h.generation_eq, h.shows⟩
  submit _ _ _ _ h := ⟨h.generation_eq, h.shows⟩
  evaluated _ _ _ h := ⟨h.generation_eq, h.shows.step .evaluation⟩

theorem wp_initialise_counted :
    wp (SearchM.initialise setup) (fun _ => Counted 0 0) (fun _ => Counted 0 0) s :=
  SearchM.wp_initialise setup stable_counted.toIdle
    (SearchM.wp_populate setup stable_counted fun time => ⟨rfl, Tally.shows_start _ time s.conditions⟩)
    fun _ report h => ⟨h.generation_eq, h.shows.step (.first report.snapshot.coverage)⟩

/-- The generation goes up when the offspring are there, the count when the generation is reported. -/
theorem Counted.wp_advance (h : s.Counted generation k) :
    wp (SearchM.advance setup) (fun _ => Counted (generation + 1) (k + 1)) (fun _ _ => True) s := by
  refine SearchM.wp_advance setup (P := Counted generation k) (Q := Counted (generation + 1) k)
    stable_counted.toIdle stable_counted.toIdle (fun _ _ _ => trivial) ?_ (fun t ht => ?_)
    fun t _ memory report ht => ⟨ht.generation_eq, ht.shows.step (.iteration report.snapshot.coverage memory)⟩
  · exact wp_mono (Keeps.iff_wp.1 (SearchM.keeps_renew_of_stable setup stable_counted) _
      (stable_counted.note s .evolving h)) (fun _ _ h => h) fun _ _ _ => trivial
  · exact ⟨congrArg (· + 1) ht.generation_eq, ht.shows⟩

end Search

/-! ### Heads of the loop -/

namespace Head

theorem counted (h : Head setup s k t) : t.Counted k k := by
  induction h with
  | first h =>
    have ht := post_of_run_eq Search.wp_initialise_counted h
    exact ht
  | next _ _ h ih =>
    have hu := post_of_run_eq ih.wp_advance h
    rwa [← Int.natCast_succ] at hu

theorem keeps {P : Search σ ω → Prop} (hP : Search.Closed P) (hs : P s) (h : Head setup s k t) : P t := by
  induction h with
  | first h => exact (SearchM.keeps_initialise setup hP).of_run_eq hs h
  | next _ _ h ih => exact (SearchM.keeps_advance setup hP).of_run_eq ih h

theorem limited (h : Head setup s k t) (hs : Tally.iterations.Limited limit s.conditions) :
    Tally.iterations.Limited limit t.conditions :=
  h.keeps (Search.closed_conditions (R := Tally.iterations.Limited limit) fun _ x h => h.step x) hs

theorem lt_of_goesOn (h : Head setup s k t) (hs : Tally.iterations.Limited limit s.conditions)
    (hgo : t.goesOn setup = true) : k < limit :=
  Tally.lt_of_resourcesLeft h.counted.shows (h.limited hs) (Bool.and_eq_true_iff.1 hgo).1

theorem le (h : Head setup s k t) (hs : Tally.iterations.Limited limit s.conditions) : k ≤ limit := by
  cases h with
  | first h => exact Nat.zero_le limit
  | next ht hgo _ => exact ht.lt_of_goesOn hs hgo

/-- A run that does not go on, though goals are uncovered, has a condition that is fulfilled. -/
theorem exists_isFulfilled (hgo : t.goesOn setup = false) (hopen : t.archive.uncovered ≠ []) :
    ∃ c ∈ t.conditions, c.isFulfilled (setup.subject.now t.scene.outside) = true := by
  have hleft : resourcesLeft (setup.subject.now t.scene.outside) t.conditions = false := by
    simpa [Search.goesOn, hopen] using hgo
  obtain ⟨c, hc, hfulfilled⟩ := List.all_eq_false.1 hleft
  exact ⟨c, hc, by simpa using hfulfilled⟩

end Head

/-! ### Ends of a run -/

theorem wp_advance_head (ht : Head setup s k t) (hgo : t.goesOn setup = true) :
    wp (SearchM.advance setup) (fun _ => Head setup s (k + 1)) (fun e u => Outcome setup s (.error e, u)) t := by
  unfold wp
  rcases hrun : (SearchM.advance setup).run t with ⟨e | _, u⟩
  · exact .broken ht hgo hrun
  · exact .next ht hgo hrun

/-- A run ends, or is out of fuel at a head. -/
theorem outcome_or_unfinished (fuel : Nat) : Outcome setup s ((SearchM.generate setup fuel).run s) ∨
    ∃ t, Head setup s fuel t ∧ t.goesOn setup = true ∧
      (SearchM.generate setup fuel).run s = (.error .unfinished, t) := by
  have hloop {t : Search σ ω} (ht : Head setup s 0 t) : wp (SearchM.advanceAll setup fuel)
      (fun _ u => ∃ k, Head setup s k u ∧ u.goesOn setup = false)
      (fun e u => Outcome setup s (.error e, u) ∨ Head setup s fuel u ∧ u.goesOn setup = true ∧ e = .unfinished) t := by
    refine SearchM.wp_advanceAll (P := Head setup s) ht (fun k t ht hgo => ?_) fun t ht hgo => ?_
    · exact wp_mono (wp_advance_head ht hgo) (fun _ _ h => h) fun _ _ h => .inl h
    · exact .inr ⟨by rwa [Nat.zero_add] at ht, hgo, rfl⟩
  unfold SearchM.generate
  rw [run_bind]
  rcases hinitialise : (SearchM.initialise setup).run s with ⟨e | _, t⟩
  · exact .inl (.unstarted hinitialise)
  · have hend := hloop (.first hinitialise)
    unfold wp at hend
    dsimp only
    rw [run_bind]
    rcases hrun : (SearchM.advanceAll setup fuel).run t with ⟨e | _, u⟩
    · rw [hrun] at hend
      obtain houtcome | ⟨hu, hgo, rfl⟩ := hend
      · exact .inl houtcome
      · exact .inr ⟨u, hu, hgo, rfl⟩
    · rw [hrun] at hend
      obtain ⟨k, hu, hgo⟩ := hend
      exact .inl (.halted hu hgo)

/-- With fuel for as many generations as the limit allows, a run ends. -/
theorem outcome_generate (hs : Tally.iterations.Limited limit s.conditions) {fuel : Nat} (hfuel : limit ≤ fuel) :
    Outcome setup s ((SearchM.generate setup fuel).run s) := by
  refine (outcome_or_unfinished fuel).resolve_right ?_
  rintro ⟨t, ht, hgo, -⟩
  exact absurd (ht.lt_of_goesOn hs hgo) (Nat.not_lt.2 hfuel)

/-- A run that ends normally did not go on at a head. -/
theorem exists_head_of_generate {fuel : Nat} {result : SearchResult}
    (h : (SearchM.generate setup fuel).run s = (.ok result, u)) :
    ∃ k t, Head setup s k t ∧ t.goesOn setup = false ∧ (SearchM.finalise setup).run t = (.ok result, u) := by
  have hend : Outcome setup s _ ∨ _ := outcome_or_unfinished fuel
  rw [h] at hend
  obtain houtcome | ⟨t, -, -, hunfinished⟩ := hend
  · generalize hr : (Except.ok result, u) = r at houtcome
    cases houtcome with
    | unstarted h => cases hr
    | broken ht hgo h => cases hr
    | halted ht hgo => exact ⟨_, _, ht, hgo, rfl⟩
  · cases hunfinished

theorem SearchM.wp_finalise_result : wp (finalise setup)
    (fun result _ => result.generations = s.generation ∧
      result.perGoal = s.archive.objectives.map fun g => (g, (s.archive.get? g).isSome)) (fun _ _ => True) s := by
  have hkeeps : Keeps (fun t => t.archive = s.archive ∧ t.generation = s.generation) (finalSolutions setup) :=
    keeps_finalSolutions setup ⟨fun _ _ h => h⟩
  unfold finalise onFinish
  rw [wp_bind, wp_enter, wp_bind, wp_bind, wp_signal, wp_bind, wp_get, wp_record]
  refine wp_seq (wp_mono (Keeps.iff_wp.1 hkeeps _ ⟨rfl, rfl⟩) (fun _ _ h => h) fun _ _ _ => trivial)
    fun solutions t ht => ?_
  rw [wp_bind, wp_get, wp_pure]
  exact ⟨ht.2, by rw [ht.1]⟩

theorem Archive.Partitioned.uncovered_ne_nil {a : Archive Nat} (ha : a.Partitioned) {g : Goal} (hg : g ∈ a.objectives)
    (h : (a.get? g).isSome = false) : a.uncovered ≠ [] := by
  refine List.ne_nil_of_mem (((ha.mem_objectives g).1 hg).resolve_left fun hcovered => ?_)
  rw [Archive.isSome_get?_iff.2 hcovered] at h
  cases h

/-- A limit on generations halts a run: at every head so many generations were made as the search is in and as its
conditions show, and they are not more than the limit allows. A run that ends normally reports as many generations; if
it left a goal uncovered some condition was fulfilled, and if the limit is the only condition it was reached. -/
theorem generations_of_assemble (hlimit : session.config.stopping.maximumIterations = limit) {s₀ start : Search σ ω}
    (hassemble : session.assemble.run s₀ = (.ok setup, start)) {scene : Scene σ ω}
    (hs : Ready setup session.goals { start with scene := scene } s) :
    (∀ k t, Head setup s k t → k ≤ limit ∧ t.generation = k ∧ .iterations limit k ∈ t.conditions ∧
      (∀ l used, .iterations l used ∈ t.conditions → used = k) ∧ (k = limit → t.goesOn setup = false)) ∧
    (∀ fuel, limit ≤ fuel → Outcome setup s ((SearchM.generate setup fuel).run s)) ∧
    ∀ fuel result u, (SearchM.generate setup fuel).run s = (.ok result, u) →
      ∃ k t, Head setup s k t ∧ t.goesOn setup = false ∧ (SearchM.finalise setup).run t = (.ok result, u) ∧
        result.generations = k ∧
        (∀ g, (g, false) ∈ result.perGoal →
          ∃ c ∈ t.conditions, c.isFulfilled (setup.subject.now t.scene.outside) = true) ∧
        ((∀ c ∈ start.conditions, ∃ used, c = .iterations limit used) → result.generations < limit →
          ∀ p ∈ result.perGoal, p.2 = true) := by
  have hprepared := post_of_run_eq Session.wp_assemble hassemble
  have hlimited : Tally.iterations.Limited limit s.conditions := by
    refine hs.keeps (Search.closed_conditions (R := Tally.iterations.Limited limit) fun _ x h => h.step x) ?_
    exact ⟨0, hprepared.conditions .iterations limit hlimit⟩
  have hpartitioned : s.archive.Partitioned := by
    refine hs.keeps (Search.closed_archive (R := Archive.Partitioned) fun _ _ _ _ h => h.submit) ?_
    show start.archive.Partitioned
    rw [hprepared.archive]
    exact Archive.partitioned_ofGoals session.goals
  refine ⟨fun k t ht => ⟨ht.le hlimited, ht.counted.generation_eq, ?_, ht.counted.shows, fun hk => ?_⟩,
    fun fuel hfuel => outcome_generate hlimited hfuel, fun fuel result u h => ?_⟩
  · obtain ⟨used, hmem⟩ := ht.limited hlimited
    rwa [ht.counted.shows limit used hmem] at hmem
  · refine Bool.eq_false_iff.2 fun hgo => ?_
    exact absurd (ht.lt_of_goesOn hlimited hgo) (Nat.not_lt.2 hk.ge)
  · obtain ⟨k, t, ht, hgo, hfinalise⟩ := exists_head_of_generate h
    obtain ⟨hgenerations, hperGoal⟩ := post_of_run_eq SearchM.wp_finalise_result hfinalise
    have hgenerations : result.generations = k := hgenerations.trans ht.counted.generation_eq
    -- who is not covered is uncovered, so the loop was left because of a condition
    have hfulfilled : ∀ g, (g, false) ∈ result.perGoal →
        ∃ c ∈ t.conditions, c.isFulfilled (setup.subject.now t.scene.outside) = true := by
      intro g hg
      rw [hperGoal] at hg
      obtain ⟨g', hg', e⟩ := List.mem_map.1 hg
      obtain ⟨rfl, hnone⟩ := Prod.mk.inj e
      have htpartitioned := ht.keeps (Search.closed_archive (R := Archive.Partitioned) fun _ _ _ _ h => h.submit)
        hpartitioned
      exact Head.exists_isFulfilled hgo (htpartitioned.uncovered_ne_nil hg' hnone)
    refine ⟨k, t, ht, hgo, hfinalise, hgenerations, hfulfilled, fun honly hless p hp => ?_⟩
    obtain ⟨g, covered⟩ := p
    by_contra hcovered
    rw [Bool.not_eq_true] at hcovered
    obtain rfl : covered = false := hcovered
    obtain ⟨c, hc, hreached⟩ := hfulfilled g hp
    have hclosed : Search.Closed (σ := σ) (ω := ω) fun v => Tally.iterations.Only limit v.conditions :=
      Search.closed_conditions fun _ x h => h.step x
    have hs' : Tally.iterations.Only limit s.conditions := by
      refine hs.keeps hclosed ?_
      exact honly
    obtain ⟨used, rfl⟩ := ht.keeps hclosed hs' c hc
    have hused : used = k := ht.counted.shows limit used hc
    have hle : limit ≤ used := by simpa [Tally.condition, Condition.isFulfilled] using hreached
    omega

namespace Sample

/-- Two generations are too few for test cases to become long. -/
def brief : Session Statement World where
  config := { algorithm := "MOSA", search := { population := 2 }, stopping := { maximumIterations := 2 } }
  goals := [.atom 0, .atom 1]
  subject := longAndLonger.subject

def assembled : Search Statement World := (brief.assemble.run unborn).2

end Sample

/-- The limit is the only condition, and it is reached with both goals uncovered. -/
theorem generations_of_assemble_brief : Sample.assembled.conditions = [.iterations 2 0] ∧
    ∃ t u, Head (Sample.brief.setup .static) Sample.assembled 2 t ∧ t.generation = 2 ∧ .iterations 2 2 ∈ t.conditions ∧
      t.goesOn (Sample.brief.setup .static) = false ∧
      (∃ c ∈ t.conditions, c.isFulfilled (Sample.longAndLonger.subject.now t.scene.outside) = true) ∧
      (SearchM.generate (Sample.brief.setup .static) 2).run Sample.assembled =
        (.ok ⟨[4, 5], [(.atom 0, false), (.atom 1, false)], 2⟩, u) := by
  have hassemble : Sample.brief.assemble.run Sample.unborn = (.ok (Sample.brief.setup .static), Sample.assembled) :=
    run_eq_of_toOption (by rfl)
  have hrun : (SearchM.generate (Sample.brief.setup .static) 2).run Sample.assembled =
      (.ok ⟨[4, 5], [(.atom 0, false), (.atom 1, false)], 2⟩, _) := run_eq_of_toOption (by decide +kernel)
  obtain ⟨hheads, -, hends⟩ := @generations_of_assemble _ _ (Sample.brief.setup .static) Sample.brief Sample.assembled 2
    rfl Sample.unborn Sample.assembled hassemble Sample.assembled.scene (.new rfl)
  obtain ⟨k, t, ht, hgo, -, hk, hfulfilled, -⟩ := hends 2 _ _ hrun
  obtain rfl : 2 = k := Int.ofNat.inj hk
  obtain ⟨-, hgeneration, hmem, -, -⟩ := hheads 2 t ht
  exact ⟨rfl, t, _, ht, hgeneration, hmem, hgo, hfulfilled (.atom 0) (by simp), hrun⟩

end GoalSearch
