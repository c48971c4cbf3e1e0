import GoalSearch.Proofs.Config
import Mathlib.Data.List.Nodup

/-!
# The limits of a search

There are six limits that a configuration may switch on (`Limit`), and one condition for each (`Limit.condition`).
With a configuration that passes its check all of these can be made (`Config.Valid.making_eq`), and a search is bounded
by just those that are switched on, or by a time if there is none, and by the memory if that is limited as well
(`Config.watching`, `Session.wp_assemble_of_valid`). As a condition tells which limit it is for (`Limit.of?`), each
limit is watched by exactly one of them (`Config.Valid.watches`).
-/

namespace GoalSearch

/-- What a configuration may limit, apart from the memory. -/
inductive Limit where
  | iterations
  | evaluations
  | time
  | coverage
  /-- Generations without a change of the coverage. -/
  | plateau
  /-- Generations without a change of the coverage once it reached a minimum. -/
  | minimum
deriving DecidableEq

namespace Limit

def all : List Limit := [iterations, evaluations, time, coverage, plateau, minimum]

def isOn (stopping : StoppingOptions) : Limit → Bool
  | iterations => 0 ≤ stopping.maximumIterations
  | evaluations => 0 ≤ stopping.maximumFitnessEvaluations
  | time => 0 ≤ stopping.maximumSearchTime
  | coverage => stopping.maximumCoverage < 100
  | plateau => 0 ≤ stopping.maximumCoveragePlateau
  | minimum => stopping.minimumCoverage < 100

/-- The option that holds the limit. -/
def value (stopping : StoppingOptions) : Limit → Int
  | iterations => stopping.maximumIterations
  | evaluations => stopping.maximumFitnessEvaluations
  | time => stopping.maximumSearchTime
  | coverage => stopping.maximumCoverage
  | plateau => stopping.maximumCoveragePlateau
  | minimum => stopping.minimumPlateauIterations

/-- The condition that watches the limit, before anything is counted. -/
def condition (now : Int) (stopping : StoppingOptions) : Limit → Condition
  | iterations => .iterations stopping.maximumIterations.toNat 0
  | evaluations => .evaluations stopping.maximumFitnessEvaluations.toNat 0
  | time => .searchTime stopping.maximumSearchTime.toNat now
  | coverage => .coverage stopping.maximumCoverage.toNat 0
  | plateau => .plateau stopping.maximumCoveragePlateau.toNat 0 0 0.0
  | minimum => .plateau stopping.minimumPlateauIterations.toNat stopping.minimumCoverage.toNat 0 0.0

/-- The limit that a condition watches. -/
def of? : Condition → Option Limit
  | .iterations _ _ => some iterations
  | .evaluations _ _ => some evaluations
  | .searchTime _ _ => some time
  | .coverage _ _ => some coverage
  | .plateau _ 0 _ _ => some plateau
  | .plateau _ (_ + 1) _ _ => some minimum
  | .memory _ _ => none

theorem mem_all (l : Limit) : l ∈ all := by cases l <;> decide

theorem samplesMemory_condition (now : Int) (stopping : StoppingOptions) (l : Limit) :
    (l.condition now stopping).samplesMemory = false := by cases l <;> rfl

end Limit

namespace Config

variable {config : Config} {stopping : StoppingOptions} {now : Int}

/-! ### Making the conditions -/

theorem ofIterations_of_nonneg {limit : Int} (h : 0 ≤ limit) :
    Condition.ofIterations limit = .ok (.iterations limit.toNat 0) :=
  (congrArg _ (Int.toNat_of_nonneg h).symm).trans ofIterations_natCast

theorem ofEvaluations_of_nonneg {limit : Int} (h : 0 ≤ limit) :
    Condition.ofEvaluations limit = .ok (.evaluations limit.toNat 0) :=
  (congrArg _ (Int.toNat_of_nonneg h).symm).trans ofEvaluations_natCast

theorem ofSeconds_of_pos (now : Int) {limit : Int} (h : 0 < limit) :
    Condition.ofSeconds now limit = .ok (.searchTime limit.toNat now) := by
  unfold Condition.ofSeconds Condition.demand
  rw [if_pos (decide_eq_true h)]
  rfl

theorem ofCoverage_of_le {percent : Int} (h : 0 ≤ percent ∧ percent ≤ 100) :
    Condition.ofCoverage percent = .ok (.coverage percent.toNat 0) := by
  unfold Condition.ofCoverage Condition.demand
  rw [if_pos (by simpa using h)]
  rfl

theorem ofPlateau_of_lt {generations minimum : Int} (hgenerations : 0 < generations)
    (hminimum : 0 ≤ minimum ∧ minimum < 100) :
    Condition.ofPlateau generations minimum = .ok (.plateau generations.toNat minimum.toNat 0 0.0) := by
  unfold Condition.ofPlateau Condition.demand
  rw [if_pos (decide_eq_true hgenerations), if_pos (by simpa using hminimum)]
  rfl

/-- The attempt to make the condition for a limit. -/
def making (now : Int) (stopping : StoppingOptions) : Limit → Except Fault Condition
  | .iterations => Condition.ofIterations stopping.maximumIterations
  | .evaluations => Condition.ofEvaluations stopping.maximumFitnessEvaluations
  | .time => Condition.ofSeconds now stopping.maximumSearchTime
  | .coverage => Condition.ofCoverage stopping.maximumCoverage
  | .plateau => Condition.ofPlateau stopping.maximumCoveragePlateau 0
  | .minimum => minimumPlateau stopping

/-- The limits are gone through one by one. -/
theorem budgets_eq (now : Int) (stopping : StoppingOptions) : budgets now stopping = do
    let each ← Limit.all.mapM fun l => limited (l.isOn stopping) (making now stopping l)
    return each.flatten := by
  unfold budgets Limit.all
  simp only [List.mapM_cons, List.mapM_nil, bind_assoc, pure_bind, List.flatten_cons, List.flatten_nil, List.append_nil,
    List.append_assoc]
  rfl

theorem budgets_of_making {f : Limit → Condition}
    (h : ∀ l : Limit, l.isOn stopping = true → making now stopping l = .ok (f l)) :
    budgets now stopping = .ok ((Limit.all.filter (Limit.isOn stopping)).map f) := by
  have hlimited : (fun l : Limit => limited (l.isOn stopping) (making now stopping l)) = fun l =>
      pure (([l].filter (Limit.isOn stopping)).map f) := by
    funext l
    rw [List.filter_singleton]
    cases hon : l.isOn stopping with
    | false => rfl
    | true =>
      rw [h l hon]
      rfl
  have hflatten : ∀ ls : List Limit, (ls.map fun l => ([l].filter (Limit.isOn stopping)).map f).flatten =
      (ls.filter (Limit.isOn stopping)).map f := by
    intro ls
    induction ls with
    | nil => rfl
    | cons l ls ih =>
      rw [List.map_cons, List.flatten_cons, ih, ← List.map_append, ← List.filter_append, List.singleton_append]
  rw [budgets_eq, hlimited, List.mapM_pure, pure_bind, hflatten]
  rfl

/-- The conditions that bound a search. -/
def watching (now : Int) (stopping : StoppingOptions) : List Condition :=
  (match Limit.all.filter (Limit.isOn stopping) with
    | [] => [.searchTime fallbackSeconds now]
    | on => on.map (Limit.condition now stopping)) ++
  if 0 ≤ stopping.maximumMemory then [.ofMegabytes stopping.maximumMemory] else []

namespace Valid

/-- Every limit that is switched on can be watched. -/
theorem making_eq (h : config.Valid) (now : Int) {l : Limit} (hon : l.isOn config.stopping = true) :
    making now config.stopping l = .ok (l.condition now config.stopping) := by
  cases l with
  | iterations => exact ofIterations_of_nonneg (of_decide_eq_true hon)
  | evaluations => exact ofEvaluations_of_nonneg (of_decide_eq_true hon)
  | time => exact ofSeconds_of_pos now (lt_of_le_of_ne (of_decide_eq_true hon) h.searchTime.symm)
  | coverage => exact ofCoverage_of_le h.maximumCoverage
  | plateau => exact ofPlateau_of_lt (lt_of_le_of_ne (of_decide_eq_true hon) h.plateau.symm) (by decide)
  | minimum =>
    have hon : config.stopping.minimumCoverage < 100 := of_decide_eq_true hon
    obtain ⟨hminimum, hgenerations⟩ := h.minimumCoverage hon
    unfold making minimumPlateau
    rw [demandPlateau_eq_ok_iff.2 h.minimumCoverage]
    exact ofPlateau_of_lt hgenerations ⟨hminimum.le, hon⟩

theorem wp_conditions (h : config.Valid) {σ ω : Type} (subject : Subject σ ω) {s : Scene σ ω}
    {E : Fault → Scene σ ω → Prop} : wp (conditions subject config.stopping)
      (fun cs _ => cs = watching (subject.now s.outside) config.stopping) E s := by
  have hbudgets := budgets_of_making fun l => h.making_eq (subject.now s.outside) (l := l)
  unfold conditions watching
  refine wp_bind.2 ?_
  show wp (SceneM.act (fun w => (budgets (subject.now s.outside) config.stopping, w)) >>= _) _ _ s
  rw [wp_bind, SceneM.wp_act_of_eq (w := s.outside) (by rw [hbudgets])]
  show wp (if List.isEmpty _ = true then _ else _) _ _ _
  cases Limit.all.filter (Limit.isOn config.stopping) with
  | nil =>
    rw [List.map_nil, List.isEmpty_nil, if_pos rfl]
    simp only [wp_bind, SceneM.wp_log, wp_pure]
  | cons l on => rfl

/-! ### One condition for each limit -/

/-- A condition tells which limit it is for, as a minimum of the coverage is never zero. -/
theorem of?_condition (h : config.Valid) (now : Int) {l : Limit} (hon : l.isOn config.stopping = true) :
    Limit.of? (l.condition now config.stopping) = some l := by
  cases l with
  | minimum =>
    have hminimum := (h.minimumCoverage (of_decide_eq_true hon)).1
    obtain ⟨k, hk⟩ : ∃ k, config.stopping.minimumCoverage.toNat = k + 1 :=
      ⟨config.stopping.minimumCoverage.toNat - 1, by omega⟩
    rw [Limit.condition, hk]
    rfl
  | _ => rfl

/-- The option that holds a limit is the limit of its condition. -/
theorem limit_condition (h : config.Valid) (now : Int) {l : Limit} (hon : l.isOn config.stopping = true) :
    (l.condition now config.stopping).limit = l.value config.stopping := by
  cases l with
  | coverage => exact Int.toNat_of_nonneg h.maximumCoverage.1
  | minimum => exact Int.toNat_of_nonneg (h.minimumCoverage (of_decide_eq_true hon)).2.le
  | _ => exact Int.toNat_of_nonneg (of_decide_eq_true hon)

theorem filter_watching (h : config.Valid) (now : Int) {l : Limit} (hon : l.isOn config.stopping = true) :
    (watching now config.stopping).filter (fun c => Limit.of? c = some l) = [l.condition now config.stopping] := by
  have hmemory : (if 0 ≤ config.stopping.maximumMemory then [Condition.ofMegabytes config.stopping.maximumMemory]
      else []).filter (fun c => Limit.of? c = some l) = [] := by split <;> rfl
  have hmem : l ∈ Limit.all.filter (Limit.isOn config.stopping) := List.mem_filter.2 ⟨l.mem_all, hon⟩
  have hnodup : (Limit.all.filter (Limit.isOn config.stopping)).Nodup :=
    List.Pairwise.filter _ (show Limit.all.Nodup by decide)
  have heach : ∀ l' ∈ Limit.all.filter (Limit.isOn config.stopping),
      decide (Limit.of? (l'.condition now config.stopping) = some l) = (l' == l) := by
    intro l' hl'
    rw [Bool.eq_iff_iff, decide_eq_true_iff, beq_iff_eq, h.of?_condition now (List.mem_filter.1 hl').2,
      Option.some.injEq]
  unfold watching
  rw [List.filter_append, hmemory, List.append_nil]
  split
  · rename_i hnil
    rw [hnil] at hmem
    cases hmem
  · rw [List.filter_map, show List.filter (_ ∘ _) _ = _ from List.filter_congr heach, List.filter_beq,
      List.count_eq_one_of_mem hnodup hmem]
    rfl

end Valid

theorem exists_watching (now : Int) (stopping : StoppingOptions) :
    ∃ c ∈ watching now stopping, c.samplesMemory = false := by
  unfold watching
  cases Limit.all.filter (Limit.isOn stopping) with
  | nil => exact ⟨_, List.mem_append_left _ (List.mem_singleton_self _), rfl⟩
  | cons l on => exact ⟨_, List.mem_append_left _ List.mem_cons_self, Limit.samplesMemory_condition now stopping l⟩

/-- Something else than the memory is limited, and each limit that is switched on is watched by one condition, which has
the limit as it is configured. -/
structure Watches (now : Int) (stopping : StoppingOptions) (cs : List Condition) : Prop where
  budget : ∃ c ∈ cs, c.samplesMemory = false
  each : ∀ l : Limit, l.isOn stopping = true →
    cs.filter (fun c => Limit.of? c = some l) = [l.condition now stopping] ∧
      (l.condition now stopping).limit = l.value stopping

theorem Valid.watches (h : config.Valid) (now : Int) : Watches now config.stopping (watching now config.stopping) where
  budget := exists_watching now config.stopping
  each _ hon := ⟨h.filter_watching now hon, h.limit_condition now hon⟩

end Config

/-- A session with a configuration that passes its check and names a strategy can put its search together. -/
theorem Session.wp_assemble_of_valid {σ ω : Type} {session : Session σ ω} {strategy : Strategy} {s : Search σ ω}
    {E : Fault → Search σ ω → Prop} (h : session.config.Valid)
    (hstrategy : Strategy.ofName? session.config.algorithm = some strategy) :
    wp session.assemble (fun setup t => setup = session.setup strategy ∧
      t.conditions = Config.watching (session.subject.now s.scene.outside) session.config.stopping) E s := by
  have htournament : ¬ session.config.search.tournamentSize ≤ 0 := Int.not_le.2 h.tournamentSize
  unfold assemble
  rw [hstrategy]
  dsimp only
  rw [wp_bind, SearchM.wp_log, wp_bind, SearchM.wp_log, if_neg htournament, wp_bind, SearchM.wp_onScene]
  exact wp_imp (h.wp_conditions _) fun conditions u hconditions => ⟨rfl, hconditions⟩

end GoalSearch
