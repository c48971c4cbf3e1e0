import GoalSearch.Proofs.Chronicle.Basic

/-!
# Reading from suites

A suite that is asked for goals over suites answers for the test cases that it noted, and what it answers for is noted
(`Chronicle.gives_fitness_overSuite`, `Chronicle.gives_coverage_goals`). Its members stay up to date meanwhile. If it
answers for its present members, it covers what one of them covers (`Chronicle.covered_of_current`).
-/

namespace GoalSearch

variable {σ ω : Type} {subject : Subject σ ω} {judge : Nat → List σ → Verdict} {t : Scene σ ω} {i : Nat} {g : Goal}
  {members : List Nat}

/-! ### Lists of results -/

section Results
variable {α β γ : Type} {l : List α}

theorem mapM_congr {f f' : α → Except Fault β} (h : ∀ a ∈ l, f a = f' a) : l.mapM f = l.mapM f' := by
  induction l with
  | nil => rfl
  | cons a l ih => rw [List.mapM_cons, List.mapM_cons, h a (by simp), ih fun b hb => h b (by simp [hb])]

theorem mapM_map_result (f : α → Except Fault β) (k : β → γ) :
    (l.mapM fun a => (f a).map k) = (l.mapM f).map (List.map k) := by
  induction l with
  | nil => rfl
  | cons a l ih =>
    rw [List.mapM_cons, List.mapM_cons, ih]
    cases f a with
    | error e => rfl
    | ok v => cases l.mapM f <;> rfl

theorem inRange_of_mapM {f : α → Except Fault Float} {vs : List Float}
    (hf : ∀ a v, f a = .ok v → Fitness.InRange v) (h : l.mapM f = .ok vs) : ∀ v ∈ vs, Fitness.InRange v := by
  induction l generalizing vs with
  | nil =>
    cases h
    nofun
  | cons a l ih =>
    rw [List.mapM_cons] at h
    cases ha : f a with
    | error e => rw [ha] at h; cases h
    | ok v =>
      cases hl : l.mapM f with
      | error e => rw [ha, hl] at h; cases h
      | ok vs' =>
        rw [ha, hl] at h
        cases h
        exact List.forall_mem_cons.2 ⟨hf a v ha, ih hl⟩

end Results

/-! ### Reading -/

namespace Chronicle
variable {c d : Chronicle σ ω} {goals : List Goal}

/-- Until the scene became `t` test cases were read. -/
structure Asked (judge : Nat → List σ → Verdict) (c : Chronicle σ ω) (t : Scene σ ω) : Prop where
  alike : c.scene.Alike t
  accurate : Accurate judge ⟨t, c.noted⟩
  others : ∀ j, ¬ (c.scene.individual j).IsTestCase → t.individual j = c.scene.individual j

/-- Until the scene became `t` a suite was asked for some goals, and what it answered for was noted. -/
structure Answered (judge : Nat → List σ → Verdict) (c : Chronicle σ ω) (i : Nat) (goals : List Goal) (t : Scene σ ω) :
    Prop where
  alike : c.scene.Alike t
  accurate : Accurate judge ⟨t, c.note judge i goals⟩

theorem gives_members (hjudge : subject.Judges judge) (hc : c.Accurate judge)
    (hmembers : ∀ k ∈ members, (c.scene.individual k).IsTestCase) (g : Goal) :
    Gives (c.Asked judge) (members.mapM (fitness subject g))
      (members.mapM fun k => currentFitness judge (c.scene.individual k) g) c.scene := by
  refine Gives.mapM (fun k hk t ht => ?_) ⟨.refl _, hc, fun _ _ => rfl⟩
  have hcase : (t.individual k).IsTestCase := (hmembers k hk).of_content (ht.alike.content k)
  have hread := gives_fitness (g := g) hjudge (Scene.lt_size_of_isTestCase hcase) (ht.accurate.faithful hcase)
  rw [currentFitness, ht.alike.content] at hread
  refine hread.mono fun u hu => ⟨ht.alike.trans (.of_sets hu.sets hu.content),
    ht.accurate.of_sets_testCase hu.sets hu.faithful fun _ _ => rfl, fun j hj => ?_⟩
  rw [hu.sets.others j fun e => hj (e ▸ hmembers k hk), ht.others j hj]

variable {serial : Nat} {inner : Goal} {v : Float}

/-- A value that a suite keeps is the one of what is noted, which stays noted. -/
theorem gives_fitness_of_kept (hc : c.Accurate judge) (hi : c.Suite judge i members) (hg : g.isOverSuite = true)
    (hv : (c.scene.individual i).recalled g = some v) :
    Gives (c.Answered judge i [g]) (fitness subject g i)
      (c.value judge i g) c.scene := by
  have hkeeps := hi.recounts.keeps g hg
  rw [hv] at hkeeps
  obtain ⟨cases, hnoted, hcases⟩ := Option.map_eq_some_iff.1 hkeeps.symm
  have hbasis : c.basis i g = cases := by rw [basis, hnoted]; rfl
  have hsame : c.note judge i [g] = c.noted := by
    funext j k
    by_cases hj : j = i
    · subst hj
      rw [note_self]
      split
      · rename_i hk
        rw [List.mem_singleton.1 (List.takeWhile_subset _ hk), hbasis, hnoted]
      · rfl
    · rw [note_of_ne c hj]
  have hrun : (fitness subject g i).run c.scene = (.ok v, c.scene) :=
    run_fitness_of_known (Individual.changed_of_recalled hv) (Individual.cache_of_recalled hv)
  exact (wp_of_run_eq hrun).2 ⟨by rw [value, hbasis, hcases], .refl _, hsame ▸ hc⟩

theorem value_of_current (hi : (c.scene.individual i).content = .suite members)
    (h : c.basis i (.overSuite serial inner) = c.scene.testCases i) : c.value judge i (.overSuite serial inner) =
      (members.mapM fun k => currentFitness judge (c.scene.individual k) inner).map (Fitness.least Fitness.worst) := by
  rw [value, h, Scene.testCases_of_content hi, collective, List.mapM_map]
  rfl

/-- A goal counts as covered if a member covers it. -/
theorem covered_of_current (hi : (c.scene.individual i).content = .suite members)
    (h : c.basis i (.overSuite serial inner) = c.scene.testCases i) :
    (c.value judge i (.overSuite serial inner)).map (· == 0.0) =
      (members.mapM fun k => (currentFitness judge (c.scene.individual k) inner).map (· == 0.0)).map (·.any id) := by
  rw [value_of_current hi h, mapM_map_result]
  cases hvalues : members.mapM fun k => currentFitness judge (c.scene.individual k) inner with
  | error e => rfl
  | ok values =>
    have hrange := inRange_of_mapM (fun _ _ => Fitness.inRange_of_sanitised) hvalues
    refine congrArg Except.ok ?_
    dsimp only
    rw [Fitness.least_beq_zero hrange, List.any_map]
    rfl

/-- A value that a suite does not keep is computed from its present members, and these are noted. -/
theorem gives_fitness_of_unkept (hjudge : subject.Judges judge) (hc : c.Accurate judge) (hi : c.Suite judge i members)
    (hg : (c.scene.individual i).recalled (.overSuite serial inner) = none) :
    Gives (c.Answered judge i [.overSuite serial inner])
      (fitness subject (.overSuite serial inner) i) (c.value judge i (.overSuite serial inner)) c.scene := by
  have hsize := Scene.lt_size_of_content hi.content
  have hkeeps := hi.recounts.keeps (.overSuite serial inner) rfl
  rw [hg] at hkeeps
  have hbasis : c.basis i (.overSuite serial inner) = c.scene.testCases i := by
    rw [basis, Option.map_eq_none_iff.1 hkeeps.symm, Option.getD_none]
  have hvalue : c.value judge i (.overSuite serial inner) = _ := value_of_current hi.content hbasis
  unfold Gives
  rw [fitness]
  refine wp_remember hsize hg fun t _ ht => ?_
  -- the suite is brought up to date, then its members are read
  have halike : c.scene.Alike t := .of_sets ht Individual.content_refresh
  have hd : Accurate judge ⟨t, c.noted⟩ := hc.of_sets_suite hi ht (Individual.content_refresh.trans hi.content)
    hi.testCases hi.recounts.refresh fun _ _ => rfl
  have hread : Gives (Asked judge ⟨t, c.noted⟩) (members.mapM (fitness subject inner)) _ t :=
    gives_members hjudge hd (fun k hk => (hi.testCases k hk).of_content (halike.content k)) inner
  simp only [currentFitness, halike.content] at hread
  rw [wp_bind, SceneM.wp_individual, ht.self, Individual.content_refresh, hi.content]
  refine wp_bind.2 (wp_mono hread ?_ ?_)
  · rintro values u ⟨hvalues, hu⟩
    have hok : c.value judge i (.overSuite serial inner) = .ok (Fitness.least Fitness.worst values) :=
      hvalue.trans (congrArg (Except.map _) hvalues)
    have hrange := inRange_of_mapM (fun _ _ => Fitness.inRange_of_sanitised) hvalues
    rw [wp_of_run_eq (Fitness.run_check_of_inRange (Fitness.inRange_least hrange))]
    have hself : u.individual i = (c.scene.individual i).refresh := by
      rw [hu.others i fun h => h.ne_suite ((halike.content i).trans hi.content), ht.self]
    have hset := Scene.sets_modify (f := fun x => { x with
      cache := x.cache.insert (.overSuite serial inner) (Fitness.least Fitness.worst values) })
      (hu.alike.size.trans ht.size ▸ hsize : i < u.pool.size)
    refine ⟨hok, (halike.trans hu.alike).trans (.of_sets hset rfl), ?_⟩
    rw [hself] at hset
    have hsuite : Suite judge ⟨u, c.noted⟩ i members :=
      hu.accurate.suite ((hu.alike.content i).trans ((halike.content i).trans hi.content))
    refine hu.accurate.of_sets_suite hsuite hset (Individual.content_refresh.trans hi.content) hsuite.testCases ?_
      fun j hj => note_of_ne c hj
    rw [note_of_ok c hok]
    exact hi.recounts.knowing hok
  · rintro e u ⟨hvalues, hu⟩
    have herror : c.value judge i (.overSuite serial inner) = .error e :=
      hvalue.trans (congrArg (Except.map _) hvalues)
    exact ⟨herror, halike.trans hu.alike, (note_of_error c herror).symm ▸ hu.accurate⟩

/-- A suite that is asked for a goal over suites answers for what is noted, and what it answers for is noted. -/
theorem gives_fitness_overSuite (hjudge : subject.Judges judge) (hc : c.Accurate judge) (hi : c.Suite judge i members)
    (hg : g.isOverSuite = true) :
    Gives (c.Answered judge i [g]) (fitness subject g i)
      (c.value judge i g) c.scene := by
  cases hv : (c.scene.individual i).recalled g with
  | some v => exact gives_fitness_of_kept hc hi hg hv
  | none =>
    cases g with
    | atom n => cases hg
    | overSuite serial inner => exact gives_fitness_of_unkept hjudge hc hi hv

/-- Other goals are no concern of the notes. -/
theorem wp_fitness_atom (hc : c.Accurate judge) (hi : c.Suite judge i members) (n : Nat) :
    wp (fitness subject (.atom n) i)
      (fun _ => c.Answered judge i [.atom n])
      (fun _ => c.Answered judge i [.atom n]) c.scene := by
  have hsize := Scene.lt_size_of_content hi.content
  have hnoted : ∀ g, g.isOverSuite = true → c.note judge i [.atom n] i g = c.noted i g := by
    intro g hg
    rw [note_self, ite_eq_right_iff.2 fun h => ?_]
    rw [List.mem_singleton.1 (List.takeWhile_subset _ h)] at hg
    cases hg
  have hsets : ∀ t x, c.scene.Sets i x t → x.content = (c.scene.individual i).content →
      x.functions = (c.scene.individual i).functions →
      (∀ g, g.isOverSuite = true → x.recalled g = (c.scene.individual i).recalled g) →
      c.Answered judge i [.atom n] t := by
    intro t x ht hcontent hfunctions hrecalled
    refine ⟨.of_sets ht hcontent, hc.of_sets_suite hi ht (hcontent.trans hi.content) hi.testCases ?_
      fun j hj => note_of_ne c hj⟩
    exact hi.recounts.of_recalled hfunctions hrecalled hnoted
  cases hv : (c.scene.individual i).recalled (.atom n) with
  | some v =>
    have hrun : (fitness subject (.atom n) i).run c.scene = (.ok v, c.scene) :=
      run_fitness_of_known (Individual.changed_of_recalled hv) (Individual.cache_of_recalled hv)
    exact (wp_of_run_eq hrun).2 (hsets _ _ ⟨rfl, rfl, fun _ _ => rfl⟩ rfl rfl fun _ _ => rfl)
  | none =>
    refine wp_mono (wp_fitness_atom_of_unknown hsize hv) ?_ ?_
    · rintro v t ⟨-, ht⟩
      refine hsets t _ ht Individual.content_knowing Individual.functions_refresh fun g hg => ?_
      rw [Individual.recalled_knowing, ite_eq_right_iff.2]
      rintro rfl
      cases hg
    · rintro e t ⟨-, ht⟩
      exact hsets t _ ht Individual.content_refresh Individual.functions_refresh fun _ _ => Individual.recalled_refresh

/-- Whatever goal a suite is asked for, what it answers for is noted. -/
theorem wp_fitness_notes (hjudge : subject.Judges judge) (hc : c.Accurate judge) (hi : c.Suite judge i members)
    (g : Goal) :
    wp (fitness subject g i) (fun _ => c.Answered judge i [g])
      (fun _ => c.Answered judge i [g]) c.scene := by
  cases g with
  | atom n => exact wp_fitness_atom hc hi n
  | overSuite serial inner =>
    exact wp_mono (gives_fitness_overSuite hjudge hc hi rfl) (fun _ _ h => h.2) fun _ _ h => h.2

/-- A suite that is asked for several goals over suites. -/
theorem gives_covers_goals (hjudge : subject.Judges judge) (hc : c.Accurate judge) (hi : c.Suite judge i members)
    (hgoals : ∀ g ∈ goals, g.isOverSuite = true) :
    Gives (c.Answered judge i goals)
      (goals.mapM (Individual.covers subject · i)) (goals.mapM fun g => (c.value judge i g).map (· == 0.0))
      c.scene := by
  induction goals generalizing c with
  | nil =>
    refine .pure ⟨.refl _, ?_⟩
    have hsame : c.note judge i [] = c.noted := by
      funext j k
      simp [note]
    rw [hsame]
    exact hc
  | cons g goals ih =>
    have hread := (gives_fitness_overSuite hjudge hc hi (hgoals g (by simp))).map (k := (· == 0.0))
    rw [List.mapM_cons, List.mapM_cons]
    cases hv : c.value judge i g with
    | error e =>
      rw [hv] at hread
      refine wp_bind.2 (wp_mono hread ?_ ?_)
      · rintro _ _ ⟨⟨⟩, -⟩
      · rintro _ t ⟨⟨⟩, halike, haccurate⟩
        rw [note_of_error c hv] at haccurate
        exact ⟨rfl, halike, (note_of_error c hv).symm ▸ haccurate⟩
    | ok v =>
      rw [hv] at hread
      refine wp_bind.2 (wp_mono hread ?_ ?_)
      · rintro _ t ⟨⟨⟩, halike, haccurate⟩
        have hsuite : Suite judge ⟨t, c.note judge i [g]⟩ i members :=
          haccurate.suite ((halike.content i).trans hi.content)
        have hrest := ih haccurate hsuite fun h hh => hgoals h (by simp [hh])
        simp only [value_note c halike] at hrest
        exact (hrest.bind fun _ _ hu => .pure hu).mono fun u hu =>
          ⟨halike.trans hu.alike, note_cons c halike hv ▸ hu.accurate⟩
      · rintro _ _ ⟨⟨⟩, -⟩

theorem gives_coverage_goals (hjudge : subject.Judges judge) (hc : c.Accurate judge) (hi : c.Suite judge i members) :
    Gives (c.Answered judge i (c.scene.individual i).functions)
      (Individual.coverage subject i)
      (do
        let verdicts ← (c.scene.individual i).functions.mapM fun g => (c.value judge i g).map (· == 0.0)
        return coverageRatio (verdicts.count true) (c.scene.individual i).functions.length) c.scene := by
  unfold Individual.coverage Gives
  rw [wp_bind, SceneM.wp_individual]
  exact (gives_covers_goals hjudge hc hi hi.recounts.goals).bind fun _ _ ht => .pure ht

end Chronicle

end GoalSearch
