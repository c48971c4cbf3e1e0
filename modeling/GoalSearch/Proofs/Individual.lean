import GoalSearch.Individual

/-!
# What an individual is beside the notes about it

Ranking and breeding note age, rank and distance. `Individual.bare` is an individual without these notes: two
individuals with the same bare form have the same content, the same mark of change and the same known values.
-/

namespace GoalSearch.Individual

variable {σ : Type} {x y : Individual σ} {g h : Goal} {v : Float}

/-- The individual without age, rank and distance. -/
def bare (x : Individual σ) : Individual σ := { x with age := 0, rank := -1, distance := 0.0 }

theorem bare_eq_iff : x.bare = y.bare ↔
    x.content = y.content ∧ x.changed = y.changed ∧ x.functions = y.functions ∧ x.cache = y.cache := by
  simp [bare]

theorem exists_notes_of_bare (h : x.bare = y.bare) :
    ∃ age rank distance, x = { y with age := age, rank := rank, distance := distance } := by
  obtain ⟨hcontent, hchanged, hfunctions, hcache⟩ := bare_eq_iff.1 h
  refine ⟨x.age, x.rank, x.distance, ?_⟩
  rw [← hcontent, ← hchanged, ← hfunctions, ← hcache]

theorem size_of_bare (h : x.bare = y.bare) : x.size = y.size := congrArg Content.size (bare_eq_iff.1 h).1

def IsTestCase (x : Individual σ) : Prop := ∃ statements operator, x.content = .testCase statements operator

theorem IsTestCase.of_content (hy : y.IsTestCase) (h : x.content = y.content) : x.IsTestCase := by
  obtain ⟨statements, operator, e⟩ := hy
  exact ⟨statements, operator, h.trans e⟩

theorem IsTestCase.of_bare (hy : y.IsTestCase) (h : x.bare = y.bare) : x.IsTestCase :=
  hy.of_content (bare_eq_iff.1 h).1

theorem IsTestCase.ne_suite (h : x.IsTestCase) {members : List Nat} : x.content ≠ .suite members := by
  obtain ⟨statements, operator, e⟩ := h
  rw [e]
  nofun

/-- The individual with one more known value. -/
def knowing (x : Individual σ) (g : Goal) (v : Float) : Individual σ :=
  { x.refresh with cache := x.refresh.cache.insert g v }

theorem content_refresh : x.refresh.content = x.content := by unfold refresh; split <;> rfl

theorem functions_refresh : x.refresh.functions = x.functions := by unfold refresh; split <;> rfl

theorem changed_refresh : x.refresh.changed = false := by
  unfold refresh
  split
  · rfl
  · exact Bool.eq_false_iff.2 ‹_›

theorem refresh_of_unchanged (h : x.changed = false) : x.refresh = x := by
  unfold refresh
  rw [ite_eq_right_iff.2 fun h' => absurd (h.symm.trans h') (by decide)]

theorem cache_refresh (h : x.changed = true) : x.refresh.cache = [] := by
  unfold refresh
  rw [ite_eq_left_iff.2 fun h' => absurd h h']

theorem content_knowing : (x.knowing g v).content = x.content := content_refresh

theorem changed_knowing : (x.knowing g v).changed = false := changed_refresh

theorem refresh_knowing : (x.knowing g v).refresh = x.knowing g v := refresh_of_unchanged changed_knowing

theorem get?_cache_knowing : (x.knowing g v).cache.get? h = if g = h then some v else x.refresh.cache.get? h :=
  Cache.get?_insert _ _ _ _

end GoalSearch.Individual
