import GoalSearch.Fitness
import GoalSearch.Proofs.Individual
import GoalSearch.Proofs.Number.Order
import GoalSearch.Proofs.Scene

/-!
# Fitness values are sanitised and remembered

Every value that comes from an evaluator lies between zero and `worst` (`Fitness.InRange`). A value that an
unchanged individual knows is read back, and nothing else happens (`run_fitness_of_known`); a value that it does not
know is computed, by asking its evaluator once, and stored, and nothing else happens to any individual
(`wp_fitness_of_unknown`). An `Evaluated` individual knows its fitness for all the goals that count.
-/

namespace GoalSearch

variable {σ ω : Type}

namespace Fitness

/-- The value is a number between zero and the worst fitness. -/
structure InRange (v : Float) : Prop where
  not_nan : ¬ Binary64.isNaN v = true
  not_neg : ¬ v < 0.0
  not_beyond : ¬ worst < v

theorem inRange_iff {v : Float} : InRange v ↔ ¬ Binary64.isNaN v = true ∧ ¬ v < 0.0 ∧ ¬ worst < v :=
  ⟨fun h => ⟨h.not_nan, h.not_neg, h.not_beyond⟩, fun h => ⟨h.1, h.2.1, h.2.2⟩⟩

instance : DecidablePred InRange := fun _ => decidable_of_iff _ inRange_iff.symm

theorem inRange_worst : InRange worst := by decide +kernel

theorem worst_ne_zero : (worst == 0.0) = false := by decide +kernel

variable {v w : Float}

theorem InRange.nonneg (h : InRange v) : 0.0 ≤ v := Binary64.le_of_not_lt (by decide +kernel) h.not_nan h.not_neg

theorem InRange.lt_infinity (h : InRange v) : v < Binary64.infinity :=
  Binary64.lt_of_le_of_lt (Binary64.le_of_not_lt h.not_nan (by decide +kernel) h.not_beyond)
    (by decide +kernel : worst < Binary64.infinity)

/-- Nothing in range is less than zero, so what is not above a zero is a zero. -/
theorem InRange.beq_zero (hw : InRange w) (hv : (v == 0.0) = true) (h : ¬ v < w) : (w == 0.0) = true := by
  refine Binary64.beq_of_not_lt hw.not_nan (by decide +kernel) hw.not_neg fun h0 => h ?_
  obtain ⟨a, ha, h0a⟩ := Binary64.beq_iff.1 hv
  obtain ⟨b, c, hb, hc, hbc⟩ := Binary64.lt_iff.1 h0
  rw [h0a] at hb
  exact Binary64.lt_iff.2 ⟨b, c, hb ▸ ha, hc, hbc⟩

/-! ### Sanitising -/

variable {s : Scene σ ω} {E : Fault → Scene σ ω → Prop} {g : Goal}

theorem run_check_of_inRange (hv : InRange v) : (check g v : SceneM σ ω Float).run s = (.ok v, s) := by
  unfold check
  rw [ite_eq_right_iff.2 fun h => ?_]
  · rw [ite_eq_right_iff.2 fun h => absurd h hv.not_beyond]; rfl
  · simp [hv.not_nan, hv.not_neg] at h

/-- A number brought into the range of fitness values; what is no fitness value becomes the worst one. -/
def sanitise (x : Float) : Float :=
  if Binary64.isNaN x || x < 0.0 then worst else if worst < x then worst else x

/-- The fitness that a verdict stands for, unless the evaluator gave up. -/
def sanitised : Verdict → Except Fault Float
  | .number x => .ok (x.toFloat?.elim worst sanitise)
  | .text x => .ok ((Reader.float? x).elim worst sanitise)
  | .failure => .ok worst
  | .abort fault => .error fault

theorem inRange_sanitise (x : Float) : InRange (sanitise x) := by
  unfold sanitise
  split
  · exact inRange_worst
  · rename_i hx
    simp only [Bool.or_eq_true, decide_eq_true_eq, not_or] at hx
    split
    · exact inRange_worst
    · exact ⟨hx.1, hx.2, ‹_›⟩

/-- Only a zero becomes a zero. -/
theorem beq_zero_of_sanitise {x : Float} (h : (sanitise x == 0.0) = true) : (x == 0.0) = true := by
  unfold sanitise at h
  split at h
  · exact absurd h (Bool.eq_false_iff.1 worst_ne_zero)
  · split at h
    · exact absurd h (Bool.eq_false_iff.1 worst_ne_zero)
    · exact h

theorem inRange_of_sanitised {verdict : Verdict} (h : sanitised verdict = .ok v) : InRange v := by
  have helim : ∀ x : Option Float, InRange (x.elim worst sanitise) := by
    rintro (_ | x)
    · exact inRange_worst
    · exact inRange_sanitise x
  cases verdict with
  | number x => exact Except.ok.inj h ▸ helim _
  | text x => exact Except.ok.inj h ▸ helim _
  | failure => exact Except.ok.inj h ▸ inRange_worst
  | abort fault => cases h

theorem wp_check_eq (x : Float) :
    wp (check g x) (fun v t => v = sanitise x ∧ ∃ log, t = { s with log := log }) E s := by
  unfold check sanitise
  rw [wp_ite]
  split
  · rw [wp_bind, SceneM.wp_log, wp_pure]
    exact ⟨rfl, _, rfl⟩
  · exact ⟨rfl, _, rfl⟩

theorem wp_failed_eq : wp (failed g) (fun v t => v = worst ∧ ∃ log, t = { s with log := log }) E s := by
  unfold failed
  rw [wp_bind, SceneM.wp_log, wp_pure]
  exact ⟨rfl, _, rfl⟩

/-- A verdict is sanitised, and nothing happens but that the log goes on. -/
theorem wp_ofVerdict_eq (verdict : Verdict) :
    wp (ofVerdict g verdict) (fun v t => sanitised verdict = .ok v ∧ ∃ log, t = { s with log := log })
      (fun e t => sanitised verdict = .error e ∧ t = s) s := by
  cases verdict with
  | number x =>
    unfold ofVerdict sanitised
    dsimp only
    cases x.toFloat? with
    | none => exact wp_imp wp_failed_eq fun v _ ht => ⟨congrArg _ ht.1.symm, ht.2⟩
    | some x => exact wp_imp (wp_check_eq x) fun v _ ht => ⟨congrArg _ ht.1.symm, ht.2⟩
  | text x =>
    unfold ofVerdict sanitised
    dsimp only
    cases Reader.float? x with
    | none => exact wp_imp wp_failed_eq fun v _ ht => ⟨congrArg _ ht.1.symm, ht.2⟩
    | some x => exact wp_imp (wp_check_eq x) fun v _ ht => ⟨congrArg _ ht.1.symm, ht.2⟩
  | failure => exact wp_imp wp_failed_eq fun v _ ht => ⟨congrArg _ ht.1.symm, ht.2⟩
  | abort fault => exact ⟨rfl, rfl⟩

/-! ### The least value -/

theorem inRange_foldl {xs : List Float} (hxs : ∀ x ∈ xs, InRange x) (hv : InRange v) :
    InRange (xs.foldl (fun a b => if b < a then b else a) v) := by
  refine List.foldlRecOn xs _ hv fun a ha b hb => ?_
  split
  · exact hxs b hb
  · exact ha

theorem inRange_least {xs : List Float} (hxs : ∀ x ∈ xs, InRange x) : InRange (least worst xs) := by
  cases xs with
  | nil => exact inRange_worst
  | cons x xs => exact inRange_foldl (fun y hy => hxs y (by simp [hy])) (hxs x (by simp))

theorem foldl_lesser {xs : List Float} (hxs : ∀ x ∈ v :: xs, ¬ Binary64.isNaN x = true) :
    xs.foldl (fun a b => if b < a then b else a) v ∈ v :: xs ∧
      ∀ x ∈ v :: xs, ¬ x < xs.foldl (fun a b => if b < a then b else a) v := by
  induction xs generalizing v with
  | nil => exact ⟨List.mem_cons_self, by simpa using Binary64.lt_irrefl v⟩
  | cons y xs ih =>
    have hv : ¬ Binary64.isNaN v = true := hxs v (by simp)
    have hlesser : (if y < v then y else v) ∈ [v, y] := by split <;> simp
    have hmem : ∀ x ∈ (if y < v then y else v) :: xs, x ∈ v :: y :: xs := by
      intro x hx
      rcases List.mem_cons.1 hx with rfl | hx
      · exact (List.sublist_append_left [v, y] xs).subset hlesser
      · simp [hx]
    obtain ⟨hin, hleast⟩ := ih fun x hx => hxs x (hmem x hx)
    obtain ⟨hv, hy⟩ := Binary64.not_lt_of_lesser hv (hleast _ List.mem_cons_self)
    refine ⟨hmem _ hin, ?_⟩
    rintro x (_ | ⟨_, _ | ⟨_, hx⟩⟩)
    · exact hv
    · exact hy
    · exact hleast x (List.mem_cons_of_mem _ hx)

/-- The least of some values is one of them. -/
theorem least_mem {xs : List Float} (hne : xs ≠ []) (hxs : ∀ x ∈ xs, ¬ Binary64.isNaN x = true)
    (fallback : Float) : least fallback xs ∈ xs := by
  cases xs with
  | nil => exact absurd rfl hne
  | cons x xs => exact (foldl_lesser hxs).1

/-- None of the values is below the least one. -/
theorem not_lt_least {xs : List Float} (hxs : ∀ x ∈ xs, ¬ Binary64.isNaN x = true) (fallback : Float) :
    ∀ x ∈ xs, ¬ x < least fallback xs := by
  cases xs with
  | nil => simp
  | cons x xs => exact (foldl_lesser hxs).2

/-- The least of more values is no larger. -/
theorem not_least_lt_of_subset {xs ys : List Float} (hys : ∀ y ∈ ys, InRange y) (h : xs ⊆ ys) :
    ¬ least worst xs < least worst ys := by
  have hnan : ∀ y ∈ ys, ¬ Binary64.isNaN y = true := fun y hy => (hys y hy).not_nan
  by_cases hne : xs = []
  · subst hne
    exact (inRange_least hys).not_beyond
  · exact not_lt_least hnan worst _ (h (least_mem hne (fun x hx => hnan x (h hx)) worst))

theorem foldl_beq_zero {xs : List Float} (hxs : ∀ x ∈ xs, InRange x) (hv : InRange v) :
    (xs.foldl (fun a b => if b < a then b else a) v == 0.0) = ((v :: xs).any (· == 0.0)) := by
  induction xs generalizing v with
  | nil => simp
  | cons x xs ih =>
    have hx : InRange x := hxs x (by simp)
    have hxs' : ∀ y ∈ xs, InRange y := fun y hy => hxs y (by simp [hy])
    rw [List.foldl_cons]
    split
    · -- a value above another one in range is no zero
      rename_i hlt
      rw [ih hxs' hx]
      have hv0 : (v == 0.0) = false := by
        rw [Bool.eq_false_iff]
        exact fun h => hx.not_neg (Binary64.lt_of_lt_of_beq hlt h)
      simp [hv0]
    · rename_i hlt
      rw [ih hxs' hv]
      have hx0 : (x == 0.0) = true → (v == 0.0) = true := fun h => hv.beq_zero h hlt
      cases hx : x == 0.0 with
      | false => simp [hx]
      | true => simp [hx0 hx]

/-- The least of some values in range is zero just if one of them is. -/
theorem least_beq_zero {xs : List Float} (hxs : ∀ x ∈ xs, InRange x) :
    (least worst xs == 0.0) = xs.any (· == 0.0) := by
  cases xs with
  | nil => exact worst_ne_zero
  | cons x xs => exact foldl_beq_zero (fun y hy => hxs y (by simp [hy])) (hxs x (by simp))

end Fitness

/-! ### Remembering -/

section Remember
variable {subject : Subject σ ω} {s : Scene σ ω} {g : Goal} {i : Nat} {v : Float}

theorem run_fitness_of_known (hx : (s.individual i).changed = false)
    (hv : (s.individual i).cache.get? g = some v) : (fitness subject g i).run s = (.ok v, s) := by
  have hremember : ∀ compute : SceneM σ ω Float,
      wp (Fitness.remember g i compute) (fun b u => b = v ∧ u = s) (fun _ _ => False) s := by
    intro compute
    unfold Fitness.remember Fitness.lookUp
    simp [wp_bind, hx, hv]
  refine run_eq_of_wp ?_
  cases g with
  | atom n => rw [fitness]; exact hremember _
  | overSuite serial inner => rw [fitness]; exact hremember _

/-- A value that is not known is computed once the individual is up to date, and stored. -/
theorem wp_remember {compute : SceneM σ ω Float} {Q : Float → Scene σ ω → Prop} {E : Fault → Scene σ ω → Prop}
    (hi : i < s.pool.size) (hg : (s.individual i).refresh.cache.get? g = none)
    (hcompute : ∀ t, t.outside = s.outside → s.Sets i (s.individual i).refresh t →
      wp compute (fun v u => Q v (u.modify i fun x => { x with cache := x.cache.insert g v })) E t) :
    wp (Fitness.remember g i compute) Q E s := by
  have hmiss : ∀ t, t.outside = s.outside → s.Sets i (s.individual i).refresh t →
      wp (Fitness.lookUp g i compute) Q E t := by
    intro t houtside ht
    unfold Fitness.lookUp
    rw [wp_bind, SceneM.wp_individual, ht.self]
    simp only [hg]
    exact wp_seq (hcompute t houtside ht) fun _ _ hu => hu
  unfold Fitness.remember
  rw [wp_bind, SceneM.wp_individual]
  split
  · show wp (Fitness.refresh i >>= fun _ => _) _ _ _
    rw [wp_bind]
    exact hmiss _ rfl (Scene.sets_modify hi)
  · rename_i hx
    exact hmiss s rfl ⟨rfl, (Individual.refresh_of_unchanged (Bool.eq_false_iff.2 hx)).symm, fun _ _ => rfl⟩

/-- A value that is not known is computed, by what leaves the individuals alone, and stored. -/
theorem wp_remember_of_unknown {compute : SceneM σ ω Float} {R : Float → ω → Prop} {E : Fault → Scene σ ω → Prop}
    (hi : i < s.pool.size) (hg : (s.individual i).refresh.cache.get? g = none)
    (hcompute : ∀ t, t.outside = s.outside → s.Sets i (s.individual i).refresh t →
      wp compute (fun v u => R v u.outside ∧ s.Sets i (s.individual i).refresh u) E t) :
    wp (Fitness.remember g i compute) (fun v t => R v t.outside ∧ s.Sets i ((s.individual i).knowing g v) t) E s := by
  refine wp_remember hi hg fun t houtside ht => wp_imp (hcompute t houtside ht) fun v u hpost => ?_
  obtain ⟨hv, hu⟩ := hpost
  have hset := Scene.sets_modify (f := fun x => { x with cache := x.cache.insert g v })
    (hu.size.symm ▸ hi : i < u.pool.size)
  rw [hu.self] at hset
  exact ⟨hv, hu.trans hset⟩

/-- What becomes of the surroundings when the fitness of a test case for a goal is computed: goals over suites have no
evaluator of their own. -/
def Subject.asking (subject : Subject σ ω) : Goal → Content σ → ω → ω
  | .atom n, content, w => (subject.evaluate n content w).2
  | .overSuite _ _, _, w => w

/-- What the evaluator of a goal says about a content; goals over suites have nothing to say about a test case. -/
def Subject.verdict (subject : Subject σ ω) : Goal → Content σ → ω → Verdict
  | .atom n, content, w => (subject.evaluate n content w).1
  | .overSuite _ _, _, _ => .failure

/-- A value that an individual does not know for an atomic goal is computed from the verdict about its content, whatever
that is. If the evaluator gives up, nothing is stored. -/
theorem wp_fitness_atom_of_unknown {k : Nat} (hi : i < s.pool.size)
    (hg : (s.individual i).refresh.cache.get? (.atom k) = none) :
    wp (fitness subject (.atom k) i)
      (fun v t => (Fitness.sanitised (subject.verdict (.atom k) (s.individual i).content s.outside) = .ok v ∧
          t.outside = subject.asking (.atom k) (s.individual i).content s.outside) ∧
        s.Sets i ((s.individual i).knowing (.atom k) v) t)
      (fun e t => (Fitness.sanitised (subject.verdict (.atom k) (s.individual i).content s.outside) = .error e ∧
          t.outside = subject.asking (.atom k) (s.individual i).content s.outside) ∧
        s.Sets i (s.individual i).refresh t) s := by
  rw [fitness]
  refine wp_remember_of_unknown (R := fun v w =>
    Fitness.sanitised (subject.verdict (.atom k) (s.individual i).content s.outside) = .ok v ∧
      w = subject.asking (.atom k) (s.individual i).content s.outside) hi hg fun t houtside ht => ?_
  simp only [wp_bind, SceneM.wp_individual, SceneM.wp_act]
  have hcontent : (t.individual i).content = (s.individual i).content := by
    rw [ht.self, Individual.content_refresh]
  rw [hcontent, houtside]
  show wp (Fitness.ofVerdict _ (subject.evaluate k (s.individual i).content s.outside).1) _ _ _
  refine wp_mono (Fitness.wp_ofVerdict_eq _) ?_ ?_
  · rintro v _ ⟨hv, log, rfl⟩
    exact ⟨⟨hv, rfl⟩, ht.size, ht.self, ht.others⟩
  · rintro e _ ⟨he, rfl⟩
    exact ⟨⟨he, rfl⟩, ht.size, ht.self, ht.others⟩

/-- A value that a test case does not know is computed from the verdict about its content. -/
theorem wp_fitness_of_unknown (hi : i < s.pool.size) (hx : (s.individual i).IsTestCase)
    (hg : (s.individual i).refresh.cache.get? g = none) :
    wp (fitness subject g i)
      (fun v t => (Fitness.sanitised (subject.verdict g (s.individual i).content s.outside) = .ok v ∧
          t.outside = subject.asking g (s.individual i).content s.outside) ∧
        s.Sets i ((s.individual i).knowing g v) t)
      (fun e t => (Fitness.sanitised (subject.verdict g (s.individual i).content s.outside) = .error e ∧
          t.outside = subject.asking g (s.individual i).content s.outside) ∧
        s.Sets i (s.individual i).refresh t) s := by
  cases g with
  | atom n => exact wp_fitness_atom_of_unknown hi hg
  | overSuite serial inner =>
    rw [fitness]
    refine wp_remember_of_unknown (R := fun v w => Fitness.sanitised .failure = .ok v ∧ w = s.outside) hi hg
      fun t houtside ht => ?_
    obtain ⟨statements, operator, hcontent⟩ := hx
    rw [← Individual.content_refresh, ← ht.self] at hcontent
    simp only [wp_bind, SceneM.wp_individual, hcontent]
    refine wp_mono Fitness.wp_failed_eq ?_ fun _ _ h => h
    rintro v _ ⟨hv, log, rfl⟩
    exact ⟨⟨congrArg _ hv.symm, houtside⟩, ht.size, ht.self, ht.others⟩

end Remember

/-! ### Evaluated individuals -/

namespace Individual
variable {x y : Individual σ} {goals : List Goal} {g : Goal}

/-- The fitness that is known for a goal, the worst if none is. -/
def knownFitness (x : Individual σ) (g : Goal) : Float := (x.cache.get? g).getD Fitness.worst

/-- The fitness known for a goal is zero. -/
def knownToCover (x : Individual σ) (g : Goal) : Bool := x.knownFitness g == 0.0

/-- Knows its fitness for the goals, and is unchanged if there are any. -/
structure Informed (goals : List Goal) (x : Individual σ) : Prop where
  unchanged : goals ≠ [] → x.changed = false
  known : ∀ g ∈ goals, ∃ v, x.cache.get? g = some v ∧ Fitness.InRange v

namespace Informed

theorem inRange (hx : x.Informed goals) (hg : g ∈ goals) : Fitness.InRange (x.knownFitness g) := by
  obtain ⟨v, hv, hr⟩ := hx.known g hg
  rw [knownFitness, hv]
  exact hr

theorem of_bare (hy : y.Informed goals) (h : x.bare = y.bare) : x.Informed goals where
  unchanged hgoals := (bare_eq_iff.1 h).2.1.trans (hy.unchanged hgoals)
  known := (bare_eq_iff.1 h).2.2.2 ▸ hy.known

/-- The fitness of an informed individual is read. -/
theorem run_fitness {subject : Subject σ ω} {s : Scene σ ω} {i : Nat} (h : (s.individual i).Informed goals)
    (hg : g ∈ goals) : (fitness subject g i).run s = (.ok ((s.individual i).knownFitness g), s) := by
  obtain ⟨v, hv, -⟩ := h.known g hg
  rw [run_fitness_of_known (h.unchanged (List.ne_nil_of_mem hg)) hv, knownFitness, hv, Option.getD_some]

end Informed

/-- A test case that is not empty and knows its fitness for the goals. -/
structure Evaluated (goals : List Goal) (x : Individual σ) : Prop where
  testCase : x.IsTestCase
  nonempty : 0 < x.size
  unchanged : goals ≠ [] → x.changed = false
  known : ∀ g ∈ goals, ∃ v, x.cache.get? g = some v ∧ Fitness.InRange v

namespace Evaluated

theorem informed (hx : x.Evaluated goals) : x.Informed goals := ⟨hx.unchanged, hx.known⟩

theorem of_bare (hy : y.Evaluated goals) (h : x.bare = y.bare) : x.Evaluated goals where
  testCase := hy.testCase.of_bare h
  nonempty := size_of_bare h ▸ hy.nonempty
  unchanged hgoals := (bare_eq_iff.1 h).2.1.trans (hy.unchanged hgoals)
  known := (bare_eq_iff.1 h).2.2.2 ▸ hy.known

theorem inRange (hx : x.Evaluated goals) (hg : g ∈ goals) : Fitness.InRange (x.knownFitness g) :=
  hx.informed.inRange hg

variable {subject : Subject σ ω} {s : Scene σ ω} {i : Nat}

/-- The fitness of an evaluated individual is read. -/
theorem run_fitness (h : (s.individual i).Evaluated goals) (hg : g ∈ goals) :
    (fitness subject g i).run s = (.ok ((s.individual i).knownFitness g), s) :=
  h.informed.run_fitness hg

theorem run_covers (h : (s.individual i).Evaluated goals) (hg : g ∈ goals) :
    (covers subject g i).run s = (.ok ((s.individual i).knownToCover g), s) := by
  unfold covers
  rw [run_bind, h.run_fitness hg]
  rfl

end Evaluated

/-- What is learnt of one goal does not touch what is known of another one. -/
theorem knownToCover_knowing {h : Goal} {v : Float} :
    (x.knowing g v).refresh.knownToCover h = if g = h then v == 0.0 else x.refresh.knownToCover h := by
  rw [refresh_knowing, knownToCover, knownFitness, get?_cache_knowing]
  split <;> rfl

theorem knownFitness_of_bare (h : x.bare = y.bare) : x.knownFitness g = y.knownFitness g := by
  rw [knownFitness, knownFitness, (bare_eq_iff.1 h).2.2.2]

theorem knownToCover_of_bare (h : x.bare = y.bare) : x.knownToCover g = y.knownToCover g := by
  rw [knownToCover, knownToCover, knownFitness_of_bare h]

end Individual

end GoalSearch
