import GoalSearch.Proofs.Asking

/-!
# Reading what is up to date

As long as evaluators look at nothing but the statements (`Subject.Judges`), a test case is `Faithful` if what it would
read back is what its evaluators say about its present statements. Reading from such a test case gives the values of the
present statements, keeps it faithful, and asks an evaluator only if there is nothing to read back (`gives_fitness`,
`gives_coverage`).
-/

namespace GoalSearch

variable {σ ω : Type}

/-! ### Evaluators and operators -/

def Content.statements : Content σ → List σ
  | .testCase statements _ => statements
  | _ => []

namespace Subject
variable (subject : Subject σ ω)

/-- The evaluators are functions of the statements. -/
def Judges (judge : Nat → List σ → Verdict) : Prop :=
  ∀ n statements operator w, (subject.evaluate n (.testCase statements operator) w).1 = judge n statements

/-- The operators tell whenever they altered a test case. -/
def Honest : Prop :=
  ∀ n statements w, (subject.mutate n (statements, w)).1 ≠ .ok true →
    (subject.mutate n (statements, w)).2.1 = statements

end Subject

/-- The verdict of a goal on statements; goals over suites have nothing to say about them. -/
def judgement (judge : Nat → List σ → Verdict) : Goal → List σ → Verdict
  | .atom n, statements => judge n statements
  | .overSuite _ _, _ => .failure

/-- The fitness of statements for a goal, computed anew. -/
def currentFitness (judge : Nat → List σ → Verdict) (x : Individual σ) (g : Goal) : Except Fault Float :=
  Fitness.sanitised (judgement judge g x.content.statements)

theorem Subject.Judges.verdict_eq {subject : Subject σ ω} {judge : Nat → List σ → Verdict} (h : subject.Judges judge)
    {x : Individual σ} (hx : x.IsTestCase) (g : Goal) (w : ω) :
    subject.verdict g x.content w = judgement judge g x.content.statements := by
  obtain ⟨statements, operator, e⟩ := hx
  rw [e]
  cases g with
  | atom n => exact h n statements operator w
  | overSuite serial inner => rfl

/-! ### Members that are up to date -/

namespace Individual
variable {x y : Individual σ} {judge : Nat → List σ → Verdict} {g h : Goal} {v : Float}

/-- The value that is read back for a goal. -/
def recalled (x : Individual σ) (g : Goal) : Option Float := x.refresh.cache.get? g

theorem recalled_of_changed (h : x.changed = true) : x.recalled g = none := by
  rw [recalled, cache_refresh h]
  rfl

theorem changed_of_recalled (h : x.recalled g = some v) : x.changed = false := by
  by_contra hx
  rw [recalled_of_changed (Bool.not_eq_false _ ▸ hx)] at h
  cases h

theorem cache_of_recalled (h : x.recalled g = some v) : x.cache.get? g = some v := by
  rwa [recalled, refresh_of_unchanged (changed_of_recalled h)] at h

theorem recalled_forgotten : ({ x with cache := [] } : Individual σ).recalled g = none := by
  unfold recalled refresh
  split <;> rfl

theorem recalled_refresh : x.refresh.recalled g = x.recalled g := by
  rw [recalled, refresh_of_unchanged changed_refresh, recalled]

theorem recalled_knowing : (x.knowing g v).recalled h = if g = h then some v else x.recalled h := by
  rw [recalled, refresh_knowing, get?_cache_knowing, recalled]

theorem recalled_congr (hchanged : x.changed = y.changed) (hcache : x.cache = y.cache) :
    x.recalled g = y.recalled g := by
  unfold recalled refresh
  rw [hchanged]
  split
  · rfl
  · rw [hcache]

/-- A test case that reads back nothing but values of its present statements. -/
structure Faithful (judge : Nat → List σ → Verdict) (x : Individual σ) : Prop where
  testCase : x.IsTestCase
  current : ∀ g v, x.recalled g = some v → currentFitness judge x g = .ok v

namespace Faithful

theorem of_changed (hx : x.IsTestCase) (h : x.changed = true) : x.Faithful judge :=
  ⟨hx, fun g v hv => by rw [recalled_of_changed h] at hv; cases hv⟩

/-- What recalls no more of the same content is faithful still. -/
theorem of_content (hx : x.Faithful judge) (hcontent : y.content = x.content)
    (hrecalled : ∀ g v, y.recalled g = some v → x.recalled g = some v) : y.Faithful judge := by
  obtain ⟨⟨statements, operator, e⟩, hcurrent⟩ := hx
  refine ⟨⟨statements, operator, hcontent.trans e⟩, fun g v hv => ?_⟩
  rw [currentFitness, hcontent]
  exact hcurrent g v (hrecalled g v hv)

theorem refresh (hx : x.Faithful judge) : x.refresh.Faithful judge :=
  hx.of_content content_refresh fun g v hv => by rwa [recalled_refresh] at hv

theorem knowing (hx : x.Faithful judge) (hv : currentFitness judge x g = .ok v) : (x.knowing g v).Faithful judge := by
  obtain ⟨statements, operator, e⟩ := hx.testCase
  refine ⟨⟨statements, operator, content_knowing.trans e⟩, fun k u hu => ?_⟩
  rw [currentFitness, content_knowing]
  rw [recalled_knowing] at hu
  split at hu
  · rename_i hgk
    rw [← Option.some.inj hu, ← hgk]
    exact hv
  · exact hx.current k u hu

end Faithful
end Individual

/-! ### Reading -/

variable {subject : Subject σ ω} {judge : Nat → List σ → Verdict} {s t u : Scene σ ω} {i n : Nat} {g : Goal}

/-- For every goal whose evaluator always comes back: every question asked about the individual is one value more
that it recalls. -/
def AsksOnce (subject : Subject σ ω) (judge : Nat → List σ → Verdict) (i : Nat) (s t : Scene σ ω) : Prop :=
  ∀ asked, subject.Records asked → ∀ n, (∀ statements fault, judge n statements ≠ .abort fault) →
    (asked s.outside n).length ≤ (asked t.outside n).length ∧
      (asked t.outside n).length + ((s.individual i).recalled (.atom n)).isSome.toNat ≤
        (asked s.outside n).length + ((t.individual i).recalled (.atom n)).isSome.toNat

namespace AsksOnce

theorem trans (h : AsksOnce subject judge i s t) (h' : AsksOnce subject judge i t u) : AsksOnce subject judge i s u := by
  intro asked hasked n hn
  obtain ⟨hle, hst⟩ := h asked hasked n hn
  obtain ⟨hle', htu⟩ := h' asked hasked n hn
  omega

theorem of_quiet (houtside : subject.Quiet s.outside t.outside)
    (h : ∀ g, (t.individual i).recalled g = (s.individual i).recalled g) : AsksOnce subject judge i s t := by
  intro asked hasked n _
  rw [houtside.asked_eq hasked, h]
  exact ⟨le_rfl, le_rfl⟩

end AsksOnce

/-- From `s` to `t` the individual `i` is read. -/
structure Reads (subject : Subject σ ω) (judge : Nat → List σ → Verdict) (i : Nat) (s t : Scene σ ω) : Prop where
  sets : s.Sets i (t.individual i) t
  content : (t.individual i).content = (s.individual i).content
  functions : (t.individual i).functions = (s.individual i).functions
  faithful : (t.individual i).Faithful judge
  asks : AsksOnce subject judge i s t

namespace Reads

theorem refl (hs : (s.individual i).Faithful judge) : Reads subject judge i s s :=
  ⟨⟨rfl, rfl, fun _ _ => rfl⟩, rfl, rfl, hs, .of_quiet (.refl _ _) fun _ => rfl⟩

theorem trans (h : Reads subject judge i s t) (h' : Reads subject judge i t u) : Reads subject judge i s u :=
  ⟨h.sets.trans h'.sets, h'.content.trans h.content, h'.functions.trans h.functions, h'.faithful, h.asks.trans h'.asks⟩

/-- The value of a goal is computed and stored. -/
theorem computed {v : Float} (hs : (s.individual i).Faithful judge) (hv : currentFitness judge (s.individual i) g = .ok v)
    (hg : (s.individual i).recalled g = none)
    (houtside : t.outside = subject.asking g (s.individual i).content s.outside)
    (ht : s.Sets i ((s.individual i).knowing g v) t) : Reads subject judge i s t where
  sets := ht.self.symm ▸ ht
  content := by rw [ht.self, Individual.content_knowing]
  functions := by rw [ht.self]; exact Individual.functions_refresh
  faithful := by rw [ht.self]; exact hs.knowing hv
  asks asked hasked n _ := by
    rw [ht.self, houtside, hasked.asked_asking, List.length_append, Individual.recalled_knowing]
    split
    · rename_i hgn
      rw [← hgn, hg]
      exact ⟨Nat.le_add_right _ _, le_rfl⟩
    · exact ⟨Nat.le_add_right _ _, le_rfl⟩

/-- The evaluator of a goal gives up. -/
theorem abandoned {e : Fault} (hs : (s.individual i).Faithful judge)
    (he : currentFitness judge (s.individual i) g = .error e)
    (houtside : t.outside = subject.asking g (s.individual i).content s.outside)
    (ht : s.Sets i (s.individual i).refresh t) : Reads subject judge i s t where
  sets := ht.self.symm ▸ ht
  content := by rw [ht.self, Individual.content_refresh]
  functions := by rw [ht.self, Individual.functions_refresh]
  faithful := by rw [ht.self]; exact hs.refresh
  asks asked hasked n hn := by
    have hgn : g ≠ .atom n := by
      rintro rfl
      unfold currentFitness judgement Fitness.sanitised at he
      dsimp only at he
      split at he
      · cases he
      · cases he
      · cases he
      · exact hn _ _ ‹_›
    rw [ht.self, houtside, hasked.asked_asking, ite_eq_right_iff.2 fun h => absurd h hgn, List.append_nil,
      Individual.recalled_refresh]
    exact ⟨le_rfl, le_rfl⟩

end Reads

theorem gives_fitness (hjudge : subject.Judges judge) (hi : i < s.pool.size)
    (hs : (s.individual i).Faithful judge) :
    Gives (Reads subject judge i s) (fitness subject g i) (currentFitness judge (s.individual i) g) s := by
  cases hg : (s.individual i).recalled g with
  | some v =>
    have hrun : (fitness subject g i).run s = (.ok v, s) :=
      run_fitness_of_known (Individual.changed_of_recalled hg) (Individual.cache_of_recalled hg)
    exact (wp_of_run_eq hrun).2 ⟨hs.current g v hg, .refl hs⟩
  | none =>
    refine wp_mono (wp_fitness_of_unknown hi hs.testCase hg) ?_ ?_
    · rintro v t ⟨⟨hv, houtside⟩, ht⟩
      rw [hjudge.verdict_eq hs.testCase] at hv
      exact ⟨hv, .computed hs hv hg houtside ht⟩
    · rintro e t ⟨⟨he, houtside⟩, ht⟩
      rw [hjudge.verdict_eq hs.testCase] at he
      exact ⟨he, .abandoned hs he houtside ht⟩

theorem gives_covers (hjudge : subject.Judges judge) (hi : i < s.pool.size)
    (hs : (s.individual i).Faithful judge) :
    Gives (Reads subject judge i s) (Individual.covers subject g i)
      ((currentFitness judge (s.individual i) g).map (· == 0.0)) s :=
  (gives_fitness hjudge hi hs).map

theorem gives_coverage (hjudge : subject.Judges judge) (hi : i < s.pool.size)
    (hs : (s.individual i).Faithful judge) :
    Gives (Reads subject judge i s) (Individual.coverage subject i)
      (do
        let verdicts ← (s.individual i).functions.mapM fun g =>
          (currentFitness judge (s.individual i) g).map (· == 0.0)
        return coverageRatio (verdicts.count true) (s.individual i).functions.length) s := by
  have hcovers : ∀ g ∈ (s.individual i).functions, ∀ t, Reads subject judge i s t →
      Gives (Reads subject judge i s) (Individual.covers subject g i)
        ((currentFitness judge (s.individual i) g).map (· == 0.0)) t := by
    intro g _ t ht
    have hnext := gives_covers (g := g) hjudge (ht.sets.size.symm ▸ hi) ht.faithful
    rw [currentFitness, ht.content] at hnext
    exact hnext.mono fun _ => ht.trans
  unfold Individual.coverage Gives
  rw [wp_bind, SceneM.wp_individual]
  exact (Gives.mapM hcovers (.refl hs)).bind fun _ _ ht => .pure ht

end GoalSearch
