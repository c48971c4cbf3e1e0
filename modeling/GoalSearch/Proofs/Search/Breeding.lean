import GoalSearch.Proofs.Draws
import GoalSearch.Proofs.Search.Accounts
import GoalSearch.Proofs.Search.Archiving

/-!
# Breeding keeps track

Every step of breeding leaves a tracked search tracked: an offspring is owned from when it is made until it is
evaluated or dropped, and nobody else is changed. Only what is retained is evaluated. So the individuals that breeding
and the first population come back with are evaluated, and they are just what is added to the accounts
(`Audited.wp_breed`, `Audited.wp_randomPopulation`). As long as factory, operators and evaluators honour a contract,
no step fails but with what the contract allows: there are candidates for every tournament and every choice.
-/

namespace GoalSearch

variable {σ ω : Type}

/-- What a step keeps, repeating it keeps. -/
theorem SearchM.wp_times {body : SearchM σ ω Unit} {P : Search σ ω → Prop} {E : Fault → Search σ ω → Prop}
    {s : Search σ ω} (hbody : ∀ s, P s → wp body (fun _ => P) E s) (k : Nat) (hs : P s) :
    wp (SearchM.times body k) (fun _ => P) E s := by
  induction k generalizing s with
  | zero => exact hs
  | succ k ih =>
    unfold SearchM.times
    exact wp_seq (hbody s hs) fun _ t ht => ih ht

theorem Archive.solutions_ne_nil {a : Archive Nat} (h : a.covered ≠ []) : a.solutions ≠ [] := by
  obtain ⟨p, hp⟩ := List.exists_mem_of_ne_nil _ h
  exact List.ne_nil_of_mem (Distinct.mem_ofList.2 (List.mem_map_of_mem hp))

namespace Audited
open SearchM

variable {contract : Contract σ} {start s : Search σ ω} {goals : List Goal} {n : Nat}
  {population kept own made : List Nat} {setup : Setup σ ω} {i : Nat}

/-! ### Making, copying and mutating -/

theorem wp_construct (hsetup : setup.Honours contract)
    (h : Audited setup.subject contract start goals n population kept own made s) :
    wp (construct setup)
      (fun r t => (∀ i ∈ r, (t.scene.individual i).changed = true) ∧
        Audited setup.subject contract start goals n population kept (r.toList ++ own) made t)
      (contract.Fails setup.subject goals start n) s := by
  unfold construct
  refine wp_seq (h.wp_act (R := contract.Admits setup.subject) (hsetup.make s.scene.outside) fun _ _ h => h.make)
    fun made t hpost => ?_
  obtain ⟨hmade, ht⟩ := hpost
  split
  · rename_i plan
    refine wp_bind.2 (ht.wp_onScene (wp_mono (Individual.wp_build [] plan) (fun _ _ h => h) ?_)
      (fun _ => Individual.keeps_build (Scene.timeless_outside _) _) ?_)
    · rintro e u ⟨⟨rfl, hmaximised⟩, hu⟩
      exact ⟨hmade.2 hmaximised, hu.mono (List.nil_subset _)⟩
    · rintro k u ⟨hk, -, hnew, hu⟩ hquiet
      refine ⟨?_, ht.adopt hu hquiet hk.ge ?_ ?_⟩
      · intro j hj
        show (u.individual j).changed = true
        rw [← Option.mem_some_iff.1 hj, hnew]
      · rw [hnew]
        exact ⟨_, _, rfl⟩
      · rw [hnew]
        exact hmade.1
  · rw [wp_bind]
    exact ⟨by simp, ht.log _⟩
  · rename_i fault hfault
    exact ht.fails (hmade.resolve_left hfault) (.refl _ _) rfl (.refl _ _)

theorem wp_clone (h : Audited setup.subject contract start goals n population kept own made s)
    (htest : (s.scene.individual i).IsTestCase) (hfits : contract.Fits (s.scene.individual i).content) :
    wp (SearchM.onScene (Individual.clone i))
      (fun k => Audited setup.subject contract start goals n population kept (k :: own) made)
      (contract.Fails setup.subject goals start n) s := by
  rw [SearchM.wp_onScene, wp_of_run_eq (Individual.run_clone htest)]
  exact h.adopt .push (.refl _ _) le_rfl (by rwa [Scene.individual_push_size]) (by rwa [Scene.individual_push_size])

/-- What was evaluated may be copied. -/
theorem wp_clone_evaluated (h : Audited setup.subject contract start goals n population kept own made s)
    (hi : ∃ x, (i, x) ∈ Event.evaluationsFrom n s.events) :
    wp (SearchM.onScene (Individual.clone i))
      (fun k => Audited setup.subject contract start goals n population kept (k :: own) made)
      (contract.Fails setup.subject goals start n) s := by
  obtain ⟨x, hx⟩ := hi
  exact h.wp_clone (h.evaluated_of_mem hx).testCase (h.fits_of_mem hx)

theorem wp_setAge (h : Audited setup.subject contract start goals n population kept own made s) (generation : Int) :
    wp (SearchM.onScene (Individual.setAge i generation))
      (fun _ => Audited setup.subject contract start goals n population kept own made)
      (contract.Fails setup.subject goals start n) s :=
  h.onScene (.modify fun _ => rfl) (.refl _ _)

/-- Only what is owned is mutated. -/
theorem wp_mutateOnce (hsetup : setup.Honours contract)
    (h : Audited setup.subject contract start goals n population kept own made s) (hi : i ∈ own) :
    wp (mutateOnce setup i) (fun _ => Audited setup.subject contract start goals n population kept own made)
      (contract.Fails setup.subject goals start n) s := by
  have hown : [i] ⊆ own := by simpa using hi
  unfold mutateOnce
  refine wp_bind.2 (h.wp_onScene (wp_mono (hsetup.wp_mutate (h.of_own i hi).1 (h.own_fits i hi)) (fun _ _ hu => hu)
    fun e u hu => ⟨hu.1, hu.2.mono hown⟩) (fun w => Individual.quiet_mutate _ w i) fun _ u hu hquiet => ?_)
  have hchanged := h.change (hu.1.mono hown) hquiet fun j hj => by
    by_cases hji : j = i
    · exact hji ▸ hu.2
    · exact h.fits_of_keeps hu.1 hj (by simpa using hji)
  refine wp_seq (hchanged.wp_signal _) fun _ t ht => ?_
  rw [wp_bind, wp_get]
  exact ht.wp_record rfl

theorem wp_mutateOffspring (hsetup : setup.Honours contract)
    (h : Audited setup.subject contract start goals n population kept own made s) (hi : i ∈ own) :
    wp (mutateOffspring setup i) (fun _ => Audited setup.subject contract start goals n population kept own made)
      (contract.Fails setup.subject goals start n) s := by
  unfold mutateOffspring
  refine wp_seq (h.wp_mutateOnce hsetup hi) fun _ t ht => ?_
  rw [wp_bind, SearchM.wp_onScene, SceneM.wp_individual]
  split
  · exact ht.wp_mutateOnce hsetup hi
  · exact ht

/-! ### Choosing whom to copy -/

theorem wp_selectParent (h : Audited setup.subject contract start goals n population kept own made s)
    (hpopulation : population ≠ []) :
    wp (selectParent setup)
      (fun i t => i ∈ population ∧ Audited setup.subject contract start goals n population kept own made t)
      (contract.Fails setup.subject goals start n) s := by
  have hcount : 0 < s.population.toArray.size := by
    rw [h.population_eq]
    exact List.length_pos_iff.2 hpopulation
  unfold selectParent
  rw [wp_bind, wp_get]
  dsimp only
  refine wp_seq (h.wp_act (Tournament.wp_index hcount) fun w => .keeps_index _ w _ _ _ _) fun k t hpost => ?_
  obtain ⟨hk, ht⟩ := hpost
  refine ⟨?_, ht⟩
  rw [List.size_toArray, h.population_eq] at hk
  simp [h.population_eq, hk]

theorem wp_choice (h : Audited setup.subject contract start goals n population kept own made s)
    (hcovered : s.archive.covered ≠ []) :
    wp (SearchM.onScene (SceneM.draw (setup.subject.random.choice s.archive.solutions)))
      (fun i t => (∃ x, (i, x) ∈ Event.evaluationsFrom n t.events) ∧
        Audited setup.subject contract start goals n population kept own made t)
        (contract.Fails setup.subject goals start n) s := by
  refine h.wp_onScene (R := fun i u => i ∈ s.archive.solutions ∧ s.scene.Keeps [] u) ?_
    (fun w => SceneM.keeps_act (.keeps_choice _ w _)) fun i u hu hquiet => ⟨?_, h.onScene hu.2 hquiet⟩
  · rw [SceneM.wp_draw]
    exact wp_imp (setup.subject.random.wp_choice (Archive.solutions_ne_nil hcovered)) fun i w hi =>
      ⟨hi, .of_pool rfl⟩
  · obtain ⟨g, hg⟩ := h.exists_of_mem_solutions hu.1
    exact (h.stored hg).2.1

/-! ### Breeding -/

/-- An individual that is worth keeping gets evaluated, any other is owned no more. -/
theorem wp_retain (hsetup : setup.Honours contract)
    (h : Audited setup.subject contract start goals n population kept (i :: own) made s) :
    wp (retain setup i)
      (fun l => Audited setup.subject contract start goals n population (kept ++ l) own (made ++ l))
      (contract.Fails setup.subject goals start n) s := by
  unfold retain
  rw [wp_bind, SearchM.wp_onScene, SceneM.wp_individual]
  split
  · rename_i hretained
    simp only [isRetained, Bool.and_eq_true, decide_eq_true_eq] at hretained
    rw [wp_bind]
    exact wp_evaluate hsetup h hretained.1.1 hretained.1.2
  · rw [wp_pure, List.append_nil, List.append_nil]
    exact h.disown (List.subset_cons_self _ _) (List.nodup_cons.1 h.own_nodup).2

theorem wp_breedFrom (hsetup : setup.Honours contract)
    (h : Audited setup.subject contract start goals n population kept (i :: own) made s) (parent : Nat) :
    wp (breedFrom setup parent i)
      (fun l => Audited setup.subject contract start goals n population (kept ++ l) own (made ++ l))
      (contract.Fails setup.subject goals start n) s := by
  unfold breedFrom
  rw [wp_bind, wp_get]
  refine wp_seq (h.wp_setAge _) fun _ t ht => ?_
  refine wp_seq (ht.wp_setAge _) fun _ t ht => ?_
  refine wp_seq (wp_times (fun _ hs => hs.wp_mutateOffspring hsetup List.mem_cons_self) _ ht) fun _ t ht => ?_
  exact ht.wp_retain hsetup

theorem wp_breedPairs (hsetup : setup.Honours contract)
    (h : Audited setup.subject contract start goals n population kept own made s)
    (hpopulation : population ≠ []) (hsub : population ⊆ kept) (k : Nat) :
    wp (breedPairs setup k)
      (fun l => Audited setup.subject contract start goals n population (kept ++ l) own (made ++ l))
      (contract.Fails setup.subject goals start n) s := by
  induction k generalizing kept made s with
  | zero => simpa [breedPairs] using h
  | succ k ih =>
    unfold breedPairs
    rw [wp_bind, wp_resourcesLeft, wp_ite]
    split
    · refine wp_seq (h.wp_selectParent hpopulation) fun p₁ t hpost => ?_
      obtain ⟨hp₁, ht⟩ := hpost
      refine wp_seq (ht.wp_selectParent hpopulation) fun p₂ t hpost => ?_
      obtain ⟨hp₂, ht⟩ := hpost
      refine wp_seq (ht.wp_clone_evaluated (ht.of_kept p₁ (hsub hp₁))) fun o₁ t ht => ?_
      refine wp_seq (ht.wp_clone_evaluated (ht.of_kept p₂ (hsub hp₂))) fun o₂ t ht => ?_
      -- the first offspring is bred first, though the second was copied last
      have ht : Audited setup.subject contract start goals n population kept (o₁ :: o₂ :: own) made t :=
        ht.disown (List.Perm.swap _ _ _).subset ((List.Perm.swap _ _ _).nodup ht.own_nodup)
      refine wp_seq (ht.wp_breedFrom hsetup p₁) fun l₁ t ht => ?_
      refine wp_seq (ht.wp_breedFrom hsetup p₂) fun l₂ t ht => ?_
      refine wp_seq (ih ht fun p hp => by simp [hsub hp]) fun l t ht => ?_
      simpa using ht
    · rw [wp_bind]
      simpa using h.log _

/-! ### Newcomers -/

theorem wp_revive (hsetup : setup.Honours contract)
    (h : Audited setup.subject contract start goals n population kept own made s) (hcovered : s.archive.covered ≠ []) :
    wp (revive setup) (fun i => Audited setup.subject contract start goals n population kept (i :: own) made)
      (contract.Fails setup.subject goals start n) s := by
  unfold revive
  rw [wp_bind, wp_of_run_eq h.run_solutions]
  refine wp_seq (h.wp_choice hcovered) fun i t hpost => ?_
  obtain ⟨hi, ht⟩ := hpost
  refine wp_seq (ht.wp_clone_evaluated hi) fun k t ht => ?_
  exact wp_seq (wp_times (fun _ hs => hs.wp_mutateOnce hsetup List.mem_cons_self) 2 ht) fun _ _ ht => ht

/-- A newcomer is owned. -/
theorem wp_newcomer (hsetup : setup.Honours contract)
    (h : Audited setup.subject contract start goals n population kept own made s) :
    wp (newcomer setup) (fun r => Audited setup.subject contract start goals n population kept (r.toList ++ own) made)
      (contract.Fails setup.subject goals start n) s := by
  have hnew := fun {s} (h : Audited setup.subject contract start goals n population kept own made s) =>
    wp_imp (h.wp_construct hsetup) fun _ _ ht => ht.2
  unfold newcomer
  rw [wp_bind, wp_get]
  split
  · exact hnew h
  · rename_i hcovered
    rw [List.isEmpty_iff] at hcovered
    -- the draw does not touch the archive
    refine wp_seq (h.wp_onScene (R := fun _ u => s.scene.Keeps [] u) (y := SceneM.draw setup.subject.random.bool)
      (Q := fun _ t => t.archive = s.archive ∧
        Audited setup.subject contract start goals n population kept own made t) (.of_pool rfl)
      (fun w => SceneM.keeps_act (.keeps_bool _ w)) fun _ u hu hquiet => ⟨rfl, h.onScene hu hquiet⟩)
      fun fresh t hpost => ?_
    obtain ⟨harchive, ht⟩ := hpost
    dsimp only
    split
    · exact hnew ht
    · exact wp_seq (ht.wp_revive hsetup (harchive ▸ hcovered)) fun _ _ ht => ht

theorem wp_inject (hsetup : setup.Honours contract)
    (h : Audited setup.subject contract start goals n population kept own made s) (k : Nat) :
    wp (inject setup k)
      (fun l => Audited setup.subject contract start goals n population (kept ++ l) own (made ++ l))
      (contract.Fails setup.subject goals start n) s := by
  induction k generalizing kept made s with
  | zero => simpa [inject] using h
  | succ k ih =>
    unfold inject
    refine wp_seq (h.wp_newcomer hsetup) fun r t ht => ?_
    cases r with
    | none => exact ih ht
    | some i =>
      dsimp only
      rw [wp_bind, wp_get]
      refine wp_seq (ht.wp_setAge _) fun _ t ht => ?_
      refine wp_seq (ht.wp_retain hsetup) fun l t ht => ?_
      refine wp_seq (ih ht) fun l' t ht => ?_
      rwa [wp_pure, ← List.append_assoc, ← List.append_assoc]

theorem wp_breedPopulation (hsetup : setup.Honours contract)
    (h : Audited setup.subject contract start goals n population kept own made s) (hsub : population ⊆ kept) :
    wp (breedPopulation setup)
      (fun l => Audited setup.subject contract start goals n population (kept ++ l) own (made ++ l))
      (contract.Fails setup.subject goals start n) s := by
  unfold breedPopulation
  rw [wp_bind, wp_get, h.population_eq]
  split
  · simpa using h
  · rename_i hempty
    rw [List.isEmpty_iff] at hempty
    exact h.wp_breedPairs hsetup hempty hsub _

/-- The offspring are evaluated, each of them once, and nobody else is. -/
theorem wp_breed (hsetup : setup.Honours contract)
    (h : Audited setup.subject contract start goals n population kept own made s) (hsub : population ⊆ kept) :
    wp (breed setup)
      (fun l => Audited setup.subject contract start goals n population (kept ++ l) own (made ++ l))
      (contract.Fails setup.subject goals start n) s := by
  unfold breed
  refine wp_seq (h.wp_breedPopulation hsetup hsub) fun bred t ht => ?_
  refine wp_seq (ht.wp_act (R := fun _ => True) (wp_except.2 ⟨fun _ _ => trivial, hsetup.injection⟩) fun _ _ hw => hw)
    fun k t hpost => ?_
  refine wp_seq (hpost.2.wp_inject hsetup k) fun injected t ht => ?_
  rw [List.append_assoc, List.append_assoc] at ht
  exact ht.log _

/-! ### The first population -/

theorem wp_newMembers (hsetup : setup.Honours contract)
    (h : Audited setup.subject contract start goals n population kept own made s) (k : Nat) :
    wp (newMembers setup k)
      (fun l => Audited setup.subject contract start goals n population (kept ++ l) own (made ++ l))
      (contract.Fails setup.subject goals start n) s := by
  induction k generalizing kept made s with
  | zero => simpa [newMembers] using h
  | succ k ih =>
    unfold newMembers
    refine wp_seq (h.wp_construct hsetup) fun r t ht => ?_
    cases r with
    | none => exact ih ht.2
    | some i =>
      obtain ⟨hchanged, ht⟩ := ht
      have hchanged := hchanged i rfl
      dsimp only
      rw [wp_bind, SearchM.wp_onScene, SceneM.wp_individual]
      split
      · rw [wp_bind]
        exact ih ((ht.log _).disown (List.subset_cons_self _ _) (List.nodup_cons.1 ht.own_nodup).2)
      · rename_i hsize
        have hi : i < t.scene.pool.size := Scene.lt_size_of_isTestCase (ht.of_own i (by simp)).1
        let aged : Scene σ ω := t.scene.modify i fun x => { x with age := t.generation }
        have hself : aged.individual i = { t.scene.individual i with age := t.generation } :=
          Scene.individual_modify_self hi
        have haged := ht.onScene (u := aged) (.modify fun _ => rfl) (.refl _ _)
        have hnew : (aged.individual i).changed = true := by rw [hself]; exact hchanged
        have hnonempty : 0 < (aged.individual i).size := by rw [hself]; exact Nat.pos_of_ne_zero hsize
        rw [wp_bind, wp_get, wp_bind, SearchM.wp_onScene]
        refine wp_seq (wp_evaluate hsetup haged hnew hnonempty) fun _ u hu => ?_
        refine wp_seq (ih hu) fun l u hu => ?_
        rwa [List.append_assoc, List.append_assoc] at hu

/-- The members of a new population are evaluated, each of them once, and nobody else is. -/
theorem wp_randomPopulation (hsetup : setup.Honours contract)
    (h : Audited setup.subject contract start goals n population kept own made s) :
    wp (randomPopulation setup)
      (fun l => Audited setup.subject contract start goals n population (kept ++ l) own (made ++ l))
      (contract.Fails setup.subject goals start n) s := by
  unfold randomPopulation
  exact wp_seq (h.wp_newMembers hsetup _) fun l t ht => ht.log _

end Audited

end GoalSearch
