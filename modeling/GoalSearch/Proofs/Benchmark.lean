import GoalSearch.Benchmark
import GoalSearch.Proofs.Config
import GoalSearch.Proofs.Forest
import GoalSearch.Proofs.Mutation
import GoalSearch.Proofs.Search.Contract

/-!
# The benchmark honours its contract

The statements of a benchmark are integers in the range of values: so they are made (`IntegerMutation.wp_create`) and so
they are changed (`IntegerMutation.wp_change`). For a configuration that passes its check a benchmark can be drawn, and
it has goals (`Benchmark.wp_create`). What its mutations keep to, its factory and its operator keep to as well
(`Benchmark.honours_of_sequence`), so all its parts keep to such statements, and they never fail
(`Benchmark.Suits.honours`).
-/

namespace GoalSearch

variable {ω : Type} {w : ω}

/-! ### Statements -/

namespace IntegerMutation
variable {op : IntegerMutation} {source : RandomSource ω} {blame : Fault → Prop} {E : Fault → ω → Prop} {s : Statement}

/-- An integer in the range of values. -/
def InRange (op : IntegerMutation) (s : Statement) : Prop := ∃ n, (0 ≤ n ∧ n < op.valueRange) ∧ s = .int n

/-- There are values to draw, and shifts of a value can be told. -/
structure Usable (op : IntegerMutation) : Prop where
  pos : 0 < op.valueRange
  isSome : (Binary64.ofInt? op.valueRange).isSome = true

theorem shifted_bounds (h : 0 < op.valueRange) (value delta : Int) :
    0 ≤ op.shifted value delta ∧ op.shifted value delta < op.valueRange := by
  unfold shifted
  omega

theorem exists_deviation (h : op.Usable) : ∃ x, op.deviation = .ok x := by
  obtain ⟨x, hx⟩ := Option.isSome_iff_exists.1 (Binary64.isSome_ofRatio? h.isSome (show 8 ≤ 100 by decide))
  unfold deviation
  rw [hx]
  exact ⟨_, rfl⟩

theorem wp_create (h : 0 < op.valueRange) : wp (create source op) (fun s _ => op.InRange s) E w := by
  unfold create
  exact wp_seq (source.wp_int h) fun n v hn => ⟨n, hn, rfl⟩

/-- A value that is replaced or shifted stays in range. Nothing can go wrong but the choice of the shift. -/
theorem wp_change (h : 0 < op.valueRange) (hdeviation : ∀ e, op.deviation = .error e → blame e)
    (hshift : ∀ deviation v, wp (source.shift deviation) (fun _ _ => True) (fun e _ => blame e) v) (hs : op.InRange s) :
    wp (change source op s) (fun new _ => ∀ s' ∈ new, op.InRange s') (fun e _ => blame e) w := by
  obtain ⟨n, -, rfl⟩ := hs
  unfold change
  rw [wp_bind, RandomSource.wp_bool, wp_ite]
  split
  · refine wp_seq (wp_create h) fun new v hnew => ?_
    rw [wp_pure]
    split
    · simp
    · simpa using hnew
  · refine wp_seq (Q := fun _ _ => True) (wp_except.2 ⟨fun _ _ => trivial, hdeviation⟩) fun deviation v _ => ?_
    refine wp_seq (hshift deviation v) fun delta v _ => ?_
    dsimp only [Statement.integer?]
    rw [wp_pure]
    split
    · simp
    · simpa using ⟨_, shifted_bounds h n delta, rfl⟩

theorem honours_sequence (h : 0 < op.valueRange) (hdeviation : ∀ e, op.deviation = .error e → blame e)
    (hshift : ∀ deviation v, wp (source.shift deviation) (fun _ _ => True) (fun e _ => blame e) v)
    (hbound : ∀ exponent e, op.rates.bound exponent = .error e → blame e) :
    (op.sequence source).Honours op.InRange blame where
  create _ := wp_create h
  change _ _ hs := wp_change h hdeviation hshift hs
  bound := hbound

/-- With usable values, a probability of insertions and finite normally distributed numbers nothing goes wrong. -/
theorem Usable.honours_sequence (h : op.Usable) (hinsertion : Config.IsProbability op.rates.insertionProbability)
    (hnormal : source.HasFiniteNormals) : (op.sequence source).Honours op.InRange fun _ => False := by
  refine IntegerMutation.honours_sequence h.pos (fun e he => ?_) (fun _ _ => RandomSource.wp_shift hnormal _)
    fun exponent e he => ?_
  · obtain ⟨x, hx⟩ := exists_deviation h
    cases hx.symm.trans he
  · have hbound := MutationRates.bound_of_le_one hinsertion.1 hinsertion.2 exponent
    cases hbound.symm.trans he

end IntegerMutation

/-! ### Goals -/

namespace NestedGoal
variable {source : RandomSource ω} {E : Fault → ω → Prop} {valueRange : Int} {k : Nat} {g : NestedGoal}

/-- At most `k` levels deep, with targets in the range of values all the way down. -/
structure Rooted (valueRange : Int) (k : Nat) (g : NestedGoal) : Prop where
  length_le : g.path.length ≤ k
  bounds : ∀ target ∈ g.path, 0 ≤ target ∧ target < valueRange

/-- A forest with levels and children has goals. -/
theorem wp_forest {depth width : Int} (hnesting : 1 ≤ depth ∧ 1 ≤ width) (h : 0 < valueRange) :
    wp (forest source depth width valueRange)
      (fun goals _ => goals ≠ [] ∧ ∀ g ∈ goals, g.Rooted valueRange depth.toNat) E w := by
  refine wp_mono wp_forest_levelOrder (fun goals v ⟨horder, hdrawn⟩ => ⟨?_, fun g hg => ?_⟩)
    fun e v hfails => absurd ⟨hnesting.1, hnesting.2, h⟩ hfails
  · have hroots : 0 < total width.toNat depth.toNat :=
      (show 0 < total width.toNat 1 by rw [total_succ, total_zero]; omega).trans_le (total_mono (by omega))
    exact List.ne_nil_of_length_pos (horder.length_eq ▸ hroots)
  · obtain ⟨j, hj⟩ := List.mem_iff_getElem?.1 hg
    exact ⟨(horder.level_le hj).2, horder.path_bounds (hdrawn.bounds h) hj⟩

/-! ### Fitness -/

/-- The least distance is that of some value. -/
theorem exists_of_leastDistance {target : Int} {values : List Int} {d : Nat} (h : leastDistance target values = some d) :
    ∃ v ∈ values, d = (v - target).natAbs := by
  induction values generalizing d with
  | nil => cases h
  | cons v values ih =>
    unfold leastDistance at h
    cases hrest : leastDistance target values with
    | none =>
      rw [hrest] at h
      exact ⟨v, List.mem_cons_self, (Option.some.inj h).symm⟩
    | some e =>
      rw [hrest] at h
      obtain ⟨u, hu, he⟩ := ih hrest
      have hd : min (v - target).natAbs e = d := Option.some.inj h
      rcases Nat.le_total (v - target).natAbs e with hle | hle
      · exact ⟨v, List.mem_cons_self, by omega⟩
      · exact ⟨u, List.mem_cons_of_mem v hu, by omega⟩

theorem ofInt_of_eq {n : Int} {x : Float} (h : Binary64.ofInt? n = some x) : Scalar.ofInt n = .ok x := by
  unfold Scalar.ofInt
  rw [show (Scalar.ofInt? n : Option Float) = some x from h]

/-- Distances in the range of values can be told, and so can the distance to nothing. -/
theorem exists_branchDistance (hrange : (Binary64.ofInt? valueRange).isSome) {target : Int} {values : List Int}
    (htarget : 0 ≤ target ∧ target < valueRange) (hvalues : ∀ v ∈ values, 0 ≤ v ∧ v < valueRange) :
    ∃ x : Float, branchDistance target values = .ok x ∧ 0.0 ≤ x := by
  unfold branchDistance
  cases hleast : leastDistance target values with
  | none => exact ⟨Binary64.infinity, rfl, by decide +kernel⟩
  | some d =>
    obtain ⟨v, hv, hd⟩ := exists_of_leastDistance hleast
    have hv := hvalues v hv
    obtain ⟨x, hx⟩ := Option.isSome_iff_exists.1 (Binary64.isSome_ofInt?_of_le (k := d) hrange (by omega))
    exact ⟨x, ofInt_of_eq hx, (Binary64.ofRatio?_finite (Int.natCast_nonneg d) hx).2⟩

/-- What is not below zero can be normalised. -/
theorem exists_normalise {x : Float} (hx : 0.0 ≤ x) : ∃ y, Scalar.normalise x = .ok y := by
  have hnonneg : ¬ x < 0.0 := fun h => Binary64.lt_irrefl _ (Binary64.lt_of_le_of_lt hx h)
  unfold Scalar.normalise
  split
  · exact absurd ‹_› hnonneg
  · split
    · exact ⟨_, rfl⟩
    · exact ⟨_, rfl⟩

theorem exists_pathFitness (hrange : (Binary64.ofInt? valueRange).isSome) {depth : Int}
    (hdepth : (Binary64.ofInt? depth).isSome) {values path : List Int}
    (hvalues : ∀ v ∈ values, 0 ≤ v ∧ v < valueRange) (hpath : ∀ target ∈ path, 0 ≤ target ∧ target < valueRange)
    (hlength : (path.length : Int) ≤ depth) : ∃ x : Float, pathFitness values path = .ok x := by
  induction path with
  | nil => exact ⟨_, rfl⟩
  | cons target below ih =>
    have hbelow : (below.length : Int) ≤ depth := by
      rw [List.length_cons] at hlength
      omega
    obtain ⟨distance, hdistance, hnonneg⟩ := exists_branchDistance hrange (hpath target List.mem_cons_self) hvalues
    obtain ⟨level, hlevel⟩ := Option.isSome_iff_exists.1 (Binary64.isSome_ofInt?_of_le hdepth hbelow)
    obtain ⟨normalised, hnormalised⟩ := exists_normalise hnonneg
    unfold pathFitness
    rw [hdistance]
    show ∃ x, (if Scalar.zero < distance then _ else _) = Except.ok x
    split
    · rw [ofInt_of_eq hlevel, hnormalised]
      exact ⟨_, rfl⟩
    · exact ih (fun t ht => hpath t (List.mem_cons_of_mem target ht)) hbelow

end NestedGoal

namespace Benchmark
variable {b : Benchmark} {config : Config} {around : Surroundings ω} {source : RandomSource ω}

/-- A benchmark with goals, whose targets and test cases are as the configuration says. -/
structure Suits (config : Config) (b : Benchmark) : Prop where
  goals : b.goals ≠ #[]
  rooted : ∀ g ∈ b.goals, g.Rooted config.benchmark.valueRange config.benchmark.depth.toNat
  mutation : b.mutation = ⟨config.benchmark.valueRange, rates config.search⟩
  length : b.length = config.search.chromosomeLength

theorem Suits.goalList_ne_nil (h : b.Suits config) : b.goalList ≠ [] := by
  unfold goalList
  rw [ne_eq, List.map_eq_nil_iff, List.range_eq_nil, Array.size_eq_zero_iff]
  exact h.goals

theorem wp_create (h : config.Valid) {s : Scene Statement ω} {E : Fault → Scene Statement ω → Prop} :
    wp (create source config) (fun b _ => b.Suits config) E s := by
  have hrange : 0 < config.benchmark.valueRange := h.valueRange
  unfold create
  dsimp only
  rw [wp_bind, SceneM.wp_draw]
  refine wp_imp (NestedGoal.wp_forest h.nesting hrange) fun goals w hgoals => ?_
  rw [wp_bind, SceneM.wp_log]
  have hmake : ofGoals config goals = .ok ⟨goals.toArray, ⟨config.benchmark.valueRange, rates config.search⟩,
      config.search.chromosomeLength⟩ := by
    unfold ofGoals IntegerMutation.make
    rw [if_pos hrange]
    rfl
  rw [SceneM.wp_act_of_eq (by rw [hmake])]
  exact ⟨by simpa using hgoals.1, by simpa using hgoals.2, rfl, rfl⟩

/-! ### What a search may rely on -/

/-- The test cases of a benchmark are not too long, their statements are in range, and nothing fails. -/
def contract (b : Benchmark) : Contract Statement where
  fit statements operator := operator = some 0 ∧ Bounded b.mutation.InRange b.length.toNat statements
  blame _ := False

theorem Suits.honours_sequence (h : b.Suits config) (hconfig : config.Valid)
    (hrange : (Binary64.ofInt? config.benchmark.valueRange).isSome) (hnormal : source.HasFiniteNormals) :
    (b.mutation.sequence source).Honours b.mutation.InRange fun _ => False := by
  refine IntegerMutation.Usable.honours_sequence ⟨?_, ?_⟩ ?_ hnormal <;> rw [h.mutation]
  · exact hconfig.valueRange
  · exact hrange
  · exact hconfig.statementInsertion

/-- Statements in range are integers. -/
theorem exists_eq_map {op : IntegerMutation} {statements : List Statement} (h : ∀ s ∈ statements, op.InRange s) :
    ∃ values : List Int, statements = values.map .int ∧ ∀ v ∈ values, 0 ≤ v ∧ v < op.valueRange := by
  induction statements with
  | nil => exact ⟨[], rfl, by simp⟩
  | cons s statements ih =>
    obtain ⟨n, hn, rfl⟩ := h s List.mem_cons_self
    obtain ⟨values, rfl, hbounds⟩ := ih fun s hs => h s (List.mem_cons_of_mem _ hs)
    exact ⟨n :: values, rfl, List.forall_mem_cons.2 ⟨hn, hbounds⟩⟩

theorem integers_map (values : List Int) : NestedGoal.integers (values.map .int) = .ok values := by
  induction values with
  | nil => rfl
  | cons n values ih =>
    unfold NestedGoal.integers at ih ⊢
    rw [List.map_cons, List.mapM_cons, ih]
    rfl

/-- The evaluators get on with test cases that fit. -/
theorem Suits.exists_evaluate (h : b.Suits config) (hconfig : config.Valid)
    (hrange : (Binary64.ofInt? config.benchmark.valueRange).isSome)
    (hdepth : (Binary64.ofInt? config.benchmark.depth).isSome) {g : NestedGoal} (hg : g ∈ b.goals)
    {content : Content Statement} (htest : ∃ statements operator, content = .testCase statements operator)
    (hfits : b.contract.Fits content) : ∃ x, g.evaluate content = .number x := by
  obtain ⟨statements, operator, rfl⟩ := htest
  obtain ⟨-, hstatements⟩ := hfits
  obtain ⟨values, rfl, hbounds⟩ := exists_eq_map hstatements.forall_mem
  rw [h.mutation] at hbounds
  obtain ⟨hlength, htargets⟩ := h.rooted g hg
  have hpositive : 1 ≤ config.benchmark.depth := hconfig.nesting.1
  obtain ⟨x, hx⟩ := NestedGoal.exists_pathFitness hrange hdepth hbounds htargets (by omega)
  refine ⟨.real x, ?_⟩
  have hfitness : NestedGoal.integers (values.map .int) >>= g.fitness = .ok x := by
    rw [integers_map]
    exact hx
  unfold NestedGoal.evaluate
  dsimp only
  rw [hfitness]

theorem evaluate_ne_abort {n : Nat} {content : Content Statement} {w : ω} {e : Fault} :
    ((b.subject around source).evaluate n content w).1 ≠ .abort e := by
  unfold subject NestedGoal.evaluate
  dsimp only
  repeat' split
  all_goals simp

/-- Factory and operator keep to statements in range if making and changing statements do. -/
theorem honours_of_sequence {blame : Fault → Prop} (hlength : 1 ≤ b.length)
    (hmax : b.mutation.rates.maxLength ≤ b.length.toNat)
    (hsequence : (b.mutation.sequence source).Honours b.mutation.InRange blame)
    {setup : Setup Statement ω} (hsubject : setup.subject = b.subject around source)
    (hinjection : ∀ e, SearchM.injectionCount setup.options = .error e → blame e) :
    setup.Honours ⟨b.contract.fit, blame⟩ where
  make w := by
    have hmake : wp (make source b) (fun plan _ => b.contract.fit plan.statements plan.operator ∧
        plan.functions = b.goalList) (fun e _ => blame e) w :=
      wp_seq (hsequence.wp_randomSequence hlength) fun statements v hstatements => ⟨⟨rfl, hstatements.2⟩, rfl⟩
    rw [hsubject]
    show Contract.Admits _ _ ((make source b).run w).1
    rcases hrun : (make source b).run w with ⟨e | plan, v⟩
    · exact .inr (fault_of_run_eq hmake hrun)
    · obtain ⟨hfit, hfunctions⟩ := post_of_run_eq hmake hrun
      refine ⟨hfit, ?_⟩
      rintro ⟨g, hg, hmaximised⟩
      rw [hfunctions] at hg
      obtain ⟨n, -, rfl⟩ := List.mem_map.1 hg
      cases hmaximised
  mutate statements operator w hfit := by
    obtain ⟨hoperator, hstatements⟩ := hfit
    rw [hsubject]
    exact wp_imp (hsequence.wp_mutate hmax hstatements) fun _ t ht => ⟨hoperator, ht⟩
  operator statements hfit := nomatch hfit.1
  evaluate statements operator _ n w e haborted := by
    rw [hsubject] at haborted
    exact absurd haborted evaluate_ne_abort
  injection := hinjection

theorem Suits.one_le_length (h : b.Suits config) (hconfig : config.Valid) : 1 ≤ b.length :=
  h.length ▸ hconfig.chromosomeLength

theorem Suits.maxLength_le (h : b.Suits config) : b.mutation.rates.maxLength ≤ b.length.toNat := by
  rw [h.mutation, h.length]
  exact le_rfl

/-- Factory, operator and evaluators keep to statements in range, and never fail. -/
theorem Suits.honours (h : b.Suits config) (hconfig : config.Valid)
    (hpopulation : (Binary64.ofInt? config.search.population).isSome)
    (hrange : (Binary64.ofInt? config.benchmark.valueRange).isSome) (hnormal : source.HasFiniteNormals)
    {setup : Setup Statement ω} (hsubject : setup.subject = b.subject around source)
    (hoptions : setup.options = config.search) : setup.Honours b.contract := by
  refine honours_of_sequence (h.one_le_length hconfig) h.maxLength_le (h.honours_sequence hconfig hrange hnormal)
    hsubject fun e he => ?_
  obtain ⟨n, hn⟩ := hconfig.exists_injectionCount hpopulation
  rw [hoptions, hn] at he
  cases he

end Benchmark

end GoalSearch
