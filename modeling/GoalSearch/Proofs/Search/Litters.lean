import GoalSearch.Proofs.Search.Budget

/-!
# Litters

Breeding tries candidates, one after the other. Observers are told of every mutation of a candidate, and then of its
evaluation, if it is kept (`Candidate.events`): every call of the operator adds one mutation
(`Search.Tells.wp_mutateOnce`), and nobody is evaluated but who is retained (`Search.Tells.wp_retain`). First two and
two candidates are copied from members, and mutated again wherever a mutation was in vain; the others are injected. All
of them are new to the pool, and those whose evaluations are told are what breeding comes back with
(`SearchM.wp_breed_told`).
-/

namespace GoalSearch

variable {σ ω : Type} {setup : Setup σ ω} {s t u : Search σ ω} {i k : Nat}

/-- Somebody whom breeding tries: the number in the pool, how many mutations there are, and the individual as it is
evaluated in the end, if it is kept. -/
structure Candidate (σ : Type) where
  number : Nat
  mutations : Nat
  evaluation : Option (Individual σ)

namespace Candidate

/-- What observers are told of a candidate: its mutations, and its evaluation. -/
def events (phase : Phase) (c : Candidate σ) : List (Event σ) :=
  List.replicate c.mutations (.mutated c.number phase) ++ c.evaluation.toList.map fun x => .evaluated c.number x phase

/-- Nobody is evaluated twice, and only who is kept. -/
theorem evaluations_events (c : Candidate σ) (phase : Phase) :
    (c.events phase).filterMap Event.evaluation? = c.evaluation.toList.map fun x => (c.number, x) := by
  have hmutations : (List.replicate c.mutations (Event.mutated c.number phase)).filterMap Event.evaluation? =
      ([] : List (Nat × Individual σ)) := List.filterMap_eq_nil_iff.2 fun e he => List.eq_of_mem_replicate he ▸ rfl
  rw [events, List.filterMap_append, hmutations, List.nil_append, List.filterMap_map]
  exact congrFun List.filterMap_eq_map _

/-- Mutated as often as the copy of a member is: a mutation that was in vain is made once more. -/
def Bred (setup : Setup σ ω) (c : Candidate σ) : Prop :=
  setup.options.numberOfMutations.toNat ≤ c.mutations ∧ c.mutations ≤ 2 * setup.options.numberOfMutations.toNat

/-- New, or the copy of somebody archived, which is mutated twice. -/
def Injected (c : Candidate σ) : Prop := c.mutations = 0 ∨ c.mutations = 2

end Candidate

/-- The candidates of a generation: those who are bred in pairs, and those who are injected. -/
structure Litter (setup : Setup σ ω) (paired injected : List (Candidate σ)) : Prop where
  mutations_paired : ∀ c ∈ paired, c.Bred setup
  length_paired : ∃ n ≤ (Int.fdiv setup.options.population 2).toNat, paired.length = 2 * n
  mutations_injected : ∀ c ∈ injected, c.Injected
  length_injected : injected.length ≤ setup.options.injections
  /-- Nobody is two of them. -/
  increasing : (paired ++ injected).Pairwise fun c d => c.number < d.number
  accepted : ∀ c ∈ paired ++ injected, ∀ x ∈ c.evaluation, 0 < x.size ∧ setup.trivial x.content = false

/-- The events tell of a litter that is tried in the phase. -/
def Litter.Told (setup : Setup σ ω) (phase : Phase) (events : List (Event σ)) : Prop :=
  ∃ paired injected, Litter setup paired injected ∧ events = (paired ++ injected).flatMap (Candidate.events phase)

namespace Search

/-- From `s` to `t` observers are told of the candidates, and of nothing else. -/
structure Tells (s : Search σ ω) (candidates : List (Candidate σ)) (t : Search σ ω) : Prop where
  phase : t.phase = s.phase
  generation : t.generation = s.generation
  size_le : s.scene.pool.size ≤ t.scene.pool.size
  events : t.events.toList = s.events.toList ++ candidates.flatMap (Candidate.events s.phase)

namespace Tells
variable {candidates candidates' : List (Candidate σ)}

theorem refl (s : Search σ ω) : s.Tells [] s := ⟨rfl, rfl, le_rfl, by simp⟩

theorem trans (h : s.Tells candidates t) (h' : t.Tells candidates' u) : s.Tells (candidates ++ candidates') u where
  phase := h'.phase.trans h.phase
  generation := h'.generation.trans h.generation
  size_le := h.size_le.trans h'.size_le
  events := by rw [h'.events, h.events, h.phase, List.flatMap_append, List.append_assoc]

theorem growing (s : Search σ ω) (candidates : List (Candidate σ)) : Growing (s.Tells candidates) where
  scene _ _ hscene h := ⟨h.phase, h.generation, h.size_le.trans hscene.size_le, h.events⟩

/-! ### One candidate -/

/-- Somebody of whom nothing is told. -/
theorem untold (h : s.Tells [] t) (i : Nat) : s.Tells [⟨i, 0, none⟩] t := ⟨h.phase, h.generation, h.size_le, h.events⟩

theorem mutated (h : s.Tells [⟨i, k, none⟩] t) :
    s.Tells [⟨i, k + 1, none⟩] { t with events := t.events.push (.mutated i t.phase) } where
  phase := h.phase
  generation := h.generation
  size_le := h.size_le
  events := by
    rw [Array.toList_push, h.events, h.phase]
    simp [Candidate.events, List.replicate_succ']

theorem evaluated (h : s.Tells [⟨i, k, none⟩] t) (x : Individual σ) :
    s.Tells [⟨i, k, some x⟩] { t with events := t.events.push (.evaluated i x t.phase) } where
  phase := h.phase
  generation := h.generation
  size_le := h.size_le
  events := by
    rw [Array.toList_push, h.events, h.phase]
    simp [Candidate.events]

end Tells

end Search

namespace SearchM

/-- An evaluation is told of once, and shows the individual with the same content. -/
theorem wp_evaluate_told :
    wp (evaluate setup i) (fun _ t => ∃ scene archive conditions x, s.scene.Learns scene ∧
      x.content = (s.scene.individual i).content ∧ t =
      { s with
        scene := scene
        archive := archive
        conditions := conditions
        events := s.events.push (.evaluated i x s.phase) }) (fun _ _ => True) s := by
  have hcrediting : Search.Crediting fun t : Search σ ω => ∃ scene archive, s.scene.Learns scene ∧
      t = { s with scene := scene, archive := archive } := {
    scene := by
      rintro _ scene hscene ⟨_, archive, hlearns, rfl⟩
      exact ⟨scene, archive, hlearns.trans hscene, rfl⟩
    submit := by
      rintro _ size i g ⟨scene, archive, hlearns, rfl⟩
      exact ⟨scene, (archive.submit size i g).1, hlearns, rfl⟩ }
  unfold evaluate
  rw [wp_bind, wp_get]
  refine wp_seq ((Keeps.forM (keeps_evaluateFor setup hcrediting i)).wp_kept ⟨s.scene, s.archive, .refl _, rfl⟩) ?_
  rintro - _ ⟨scene, archive, hlearns, rfl⟩
  unfold onEvaluation
  rw [wp_bind, wp_signal, wp_bind, wp_get, wp_bind, wp_record, wp_notice]
  refine ⟨_, _, _, _, ?_, hlearns.content i, rfl⟩
  exact hlearns.trans (.of_pool rfl)

end SearchM

namespace Search.Tells
open SearchM

/-- Every mutation is told of. -/
theorem wp_mutateOnce (h : s.Tells [⟨i, k, none⟩] t) :
    wp (mutateOnce setup i) (fun _ u => s.Tells [⟨i, k + 1, none⟩] u) (fun _ _ => True) t := by
  unfold mutateOnce onMutation
  refine wp_seq ((keeps_aging (growing s _) fun _ _ => .keeps_mutate i).wp_kept h) fun _ u hu => ?_
  rw [wp_bind, wp_signal, Condition.map_step_mutation, wp_bind, wp_get, wp_record]
  exact hu.mutated

/-- There is a second mutation just if the individual has not changed by the first. -/
theorem wp_mutateOffspring (h : s.Tells [⟨i, k, none⟩] t) :
    wp (mutateOffspring setup i) (fun _ v => ∃ u, s.Tells [⟨i, k + 1, none⟩] u ∧
      if (u.scene.individual i).changed then v = u else s.Tells [⟨i, k + 1 + 1, none⟩] v) (fun _ _ => True) t := by
  unfold mutateOffspring
  refine wp_seq h.wp_mutateOnce fun _ u hu => ?_
  rw [wp_bind, wp_onScene, SceneM.wp_individual]
  cases hchanged : (u.scene.individual i).changed with
  | true => exact ⟨u, hu, by rw [hchanged]; rfl⟩
  | false => exact wp_imp hu.wp_mutateOnce fun _ v hv => ⟨u, hu, by rw [hchanged]; exact hv⟩

/-- Where each round brings from `a` to `b` mutations, several rounds bring so many times as much. -/
theorem wp_times {body : SearchM σ ω Unit} {a b : Nat}
    (hbody : ∀ {k t}, s.Tells [⟨i, k, none⟩] t → wp body
      (fun _ u => ∃ k', k + a ≤ k' ∧ k' ≤ k + b ∧ s.Tells [⟨i, k', none⟩] u) (fun _ _ => True) t)
    (h : s.Tells [⟨i, k, none⟩] t) (n : Nat) :
    wp (times body n) (fun _ u => ∃ k', k + n * a ≤ k' ∧ k' ≤ k + n * b ∧ s.Tells [⟨i, k', none⟩] u)
      (fun _ _ => True) t := by
  induction n generalizing k t with
  | zero => exact ⟨k, by omega, by omega, h⟩
  | succ n ih =>
    unfold times
    refine wp_seq (hbody h) fun _ u hpost => ?_
    obtain ⟨k', hle, hle', hu⟩ := hpost
    refine wp_imp (ih hu) fun _ v hpost => ?_
    obtain ⟨k'', hmore, hmore', hv⟩ := hpost
    rw [Nat.succ_mul, Nat.succ_mul]
    exact ⟨k'', by omega, by omega, hv⟩

end Search.Tells

/-! ### Several candidates -/

namespace Search

/-- From `s` to `t` the candidates are tried, of whom those in `l` are kept: just they are evaluated. -/
structure Tries (setup : Setup σ ω) (s : Search σ ω) (candidates : List (Candidate σ)) (l : List Nat)
    (t : Search σ ω) : Prop extends s.Tells candidates t where
  kept : ((candidates.flatMap (Candidate.events s.phase)).filterMap Event.evaluation?).map (·.1) = l
  accepted : ∀ c ∈ candidates, ∀ x ∈ c.evaluation, 0 < x.size ∧ setup.trivial x.content = false

/-- The candidates are new to the pool of `s`, and come one after the other into that of `t`. -/
structure Makes (s : Search σ ω) (candidates : List (Candidate σ)) (t : Search σ ω) : Prop where
  new : ∀ c ∈ candidates, s.scene.pool.size ≤ c.number ∧ c.number < t.scene.pool.size
  increasing : candidates.Pairwise fun c d => c.number < d.number

/-- From `s` to `t` somebody new came into the pool, of whom observers are told mutations only, or nobody did. -/
def Welcomes (s : Search σ ω) : Option Nat → Search σ ω → Prop
  | none, t => s.Tells [] t
  | some i, t => s.scene.pool.size ≤ i ∧ i < t.scene.pool.size ∧
      ∃ k, Candidate.Injected (σ := σ) ⟨i, k, none⟩ ∧ s.Tells [⟨i, k, none⟩] t

variable {candidates candidates' : List (Candidate σ)} {l l' : List Nat}

theorem Tries.append (h : s.Tries setup candidates l t) (h' : t.Tries setup candidates' l' u) :
    s.Tries setup (candidates ++ candidates') (l ++ l') u where
  toTells := h.toTells.trans h'.toTells
  kept := by rw [List.flatMap_append, List.filterMap_append, List.map_append, h.kept, ← h.phase, h'.kept]
  accepted := List.forall_mem_append.2 ⟨h.accepted, h'.accepted⟩

theorem Makes.nil (s t : Search σ ω) : s.Makes [] t := ⟨by simp, .nil⟩

theorem Makes.append (h : s.Makes candidates t) (h' : t.Makes candidates' u)
    (hst : s.scene.pool.size ≤ t.scene.pool.size) (htu : t.scene.pool.size ≤ u.scene.pool.size) :
    s.Makes (candidates ++ candidates') u where
  new := List.forall_mem_append.2 ⟨fun c hc => ⟨(h.new c hc).1, (h.new c hc).2.trans_le htu⟩,
    fun c hc => ⟨hst.trans (h'.new c hc).1, (h'.new c hc).2⟩⟩
  increasing := List.pairwise_append.2 ⟨h.increasing, h'.increasing, fun c hc d hd =>
    (h.new c hc).2.trans_le (h'.new d hd).1⟩

end Search

namespace Search.Tells
open SearchM

variable {candidates : List (Candidate σ)}

theorem tries (h : s.Tells [] t) : s.Tries setup [] [] t := ⟨h, rfl, List.forall_mem_nil _⟩

/-- Just who is retained is evaluated, and comes back. -/
theorem wp_retain (h : s.Tells [⟨i, k, none⟩] t) :
    wp (retain setup i) (fun l u => t.scene.pool.size ≤ u.scene.pool.size ∧ ∃ evaluation,
      s.Tries setup [⟨i, k, evaluation⟩] l u ∧ evaluation.isSome = isRetained setup (t.scene.individual i))
      (fun _ _ => True) t := by
  unfold retain
  rw [wp_bind, wp_onScene, SceneM.wp_individual]
  cases hretained : isRetained setup (t.scene.individual i) with
  | true =>
    simp only [isRetained, Bool.and_eq_true, decide_eq_true_eq, Bool.not_eq_true'] at hretained
    refine wp_seq wp_evaluate_told ?_
    rintro - _ ⟨scene, archive, conditions, x, hlearns, hcontent, rfl⟩
    have hsize := hlearns.size.ge
    have htold := h.evaluated x
    refine ⟨hsize, some x, ⟨⟨htold.phase, htold.generation, h.size_le.trans hsize, htold.events⟩, ?_, ?_⟩, rfl⟩
    · simp [Candidate.evaluations_events]
    · rintro c hc _ hx
      obtain rfl := List.mem_singleton.1 hc
      obtain rfl := Option.mem_some_iff.1 hx
      rw [Individual.size, hcontent]
      exact ⟨hretained.1.2, hretained.2⟩
  | false => exact ⟨le_rfl, none, ⟨h, by simp [Candidate.evaluations_events], by simp⟩, rfl⟩

theorem wp_setAge (h : s.Tells candidates t) (i : Nat) (generation : Int) :
    wp (onScene (Individual.setAge i generation))
      (fun _ u => t.scene.pool.size ≤ u.scene.pool.size ∧ s.Tells candidates u) (fun _ _ => True) t := by
  have hsize : t.scene.pool.size ≤
      (t.scene.modify i fun x => { x with age := generation }).pool.size := Scene.size_modify.ge
  exact ⟨hsize, h.phase, h.generation, h.size_le.trans hsize, h.events⟩

/-- A copy is new to the pool. -/
theorem wp_clone (h : s.Tells candidates t) (i : Nat) : wp (onScene (Individual.clone i))
    (fun k u => t.scene.pool.size ≤ k ∧ k < u.scene.pool.size ∧ s.Tells candidates u) (fun _ _ => True) t := by
  rw [SearchM.wp_onScene]
  refine wp_mono (Scene.Ages.wp_clone t.scene t.generation i) (fun k v hpost => ?_) fun _ _ _ => trivial
  obtain ⟨hle, hlt, hages⟩ := hpost
  exact ⟨hle, hlt, (growing s candidates).scene t v hages h⟩

end Search.Tells

namespace SearchM
open Search (Tells Makes)

theorem wp_breedFrom_told (parent i : Nat) :
    wp (breedFrom setup parent i) (fun l t => ∃ c : Candidate σ, c.number = i ∧ c.Bred setup ∧ s.Tries setup [c] l t)
      (fun _ _ => True) s := by
  unfold breedFrom
  rw [wp_bind, wp_get]
  refine wp_seq ((Tells.refl s).wp_setAge _ _) fun _ t ht => ?_
  refine wp_seq (ht.2.wp_setAge _ _) fun _ t ht => ?_
  refine wp_seq (Tells.wp_times (a := 1) (b := 2) (fun {k t} h => ?_) (ht.2.untold i) _) fun _ t hpost => ?_
  · refine wp_imp h.wp_mutateOffspring fun _ v hpost => ?_
    obtain ⟨u, hu, hv⟩ := hpost
    split at hv
    · exact ⟨k + 1, le_rfl, Nat.le_succ _, hv ▸ hu⟩
    · exact ⟨k + 1 + 1, Nat.le_succ _, le_rfl, hv⟩
  · obtain ⟨k, hle, hle', ht⟩ := hpost
    refine wp_imp ht.wp_retain fun l u hpost => ?_
    obtain ⟨-, evaluation, hu, -⟩ := hpost
    refine ⟨⟨i, k, evaluation⟩, rfl, ?_, hu⟩
    simp only [Candidate.Bred]
    omega

theorem wp_breedPairs_told (k : Nat) :
    wp (breedPairs setup k) (fun l t => ∃ paired, s.Tries setup paired l t ∧ s.Makes paired t ∧
      (∀ c ∈ paired, c.Bred setup) ∧ ∃ n ≤ k, paired.length = 2 * n) (fun _ _ => True) s := by
  induction k generalizing s with
  | zero => exact ⟨[], (Tells.refl s).tries, Makes.nil _ _, List.forall_mem_nil _, 0, le_rfl, rfl⟩
  | succ k ih =>
    unfold breedPairs
    rw [wp_bind, wp_resourcesLeft, wp_ite]
    split
    · have hselect := keeps_selectParent setup (Tells.growing s [])
      refine wp_seq (hselect.wp_kept (.refl s)) fun p₁ t ht => ?_
      refine wp_seq (hselect.wp_kept ht) fun p₂ t ht => ?_
      have hst := ht.size_le
      refine wp_seq (ht.wp_clone p₁) fun o₁ u hpost => ?_
      obtain ⟨hle₁, hlt₁, hu⟩ := hpost
      refine wp_seq (hu.wp_clone p₂) fun o₂ v hpost => ?_
      obtain ⟨hle₂, hlt₂, hv⟩ := hpost
      refine wp_seq (wp_breedFrom_told p₁ o₁) fun l₁ t₁ hpost => ?_
      obtain ⟨c₁, rfl, hbred₁, ht₁⟩ := hpost
      refine wp_seq (wp_breedFrom_told p₂ o₂) fun l₂ t₂ hpost => ?_
      obtain ⟨c₂, rfl, hbred₂, ht₂⟩ := hpost
      refine wp_seq ih fun l w hpost => ?_
      obtain ⟨paired, hw, hmakes, hbred, n, hn, hlength⟩ := hpost
      have hpair := (hv.tries.append ht₁).append ht₂
      have hvt := ht₁.size_le.trans ht₂.size_le
      -- both are copied before the first is bred, so the pool of that moment says nothing about the second
      have hnew : s.Makes [c₁, c₂] t₂ := by
        refine ⟨fun c hc => ?_, by simp; omega⟩
        rcases List.mem_pair.1 hc with rfl | rfl
        · omega
        · omega
      refine ⟨[c₁, c₂] ++ paired, hpair.append hw, hnew.append hmakes hpair.size_le hw.size_le, ?_, n + 1, by omega, ?_⟩
      · simpa using ⟨hbred₁, hbred₂, hbred⟩
      · rw [List.length_append, hlength, Nat.mul_succ, Nat.add_comm]
        rfl
    · have hlogged : s.Tells [] { s with scene := s.scene.logged .budgetUsedUp } := ⟨rfl, rfl, le_rfl, by simp⟩
      exact ⟨[], hlogged.tries, Makes.nil _ _, List.forall_mem_nil _, 0, Nat.zero_le _, rfl⟩

theorem wp_revive_told : wp (revive setup) (fun i t => s.Tells [⟨i, 2, none⟩] t ∧ s.scene.pool.size ≤ i ∧
    i < t.scene.pool.size) (fun _ _ => True) s := by
  unfold revive
  refine wp_seq ((keeps_solutions _ (Tells.growing s [])).wp_kept (.refl s)) fun _ t ht => ?_
  refine wp_seq ((keeps_aging (Tells.growing s []) fun _ _ => .keeps_act _).wp_kept ht) fun i t ht => ?_
  refine wp_seq (ht.wp_clone i) fun i u hpost => ?_
  obtain ⟨hle, hlt, hu⟩ := hpost
  refine wp_seq (Tells.wp_times (a := 1) (b := 1) (fun {k t} h => ?_) ((Tells.refl u).untold i) 2) fun _ v hpost => ?_
  · exact wp_imp h.wp_mutateOnce fun _ v hv => ⟨k + 1, le_rfl, le_rfl, hv⟩
  · obtain ⟨k, hk, hk', hv⟩ := hpost
    obtain rfl : k = 2 := by omega
    exact ⟨hu.trans hv, ht.size_le.trans hle, hlt.trans_le hv.size_le⟩

theorem wp_newcomer_told : wp (newcomer setup) (fun r t => s.Welcomes r t) (fun _ _ => True) s := by
  have hnew : ∀ (fresh : Bool) {t : Search σ ω}, s.Tells [] t →
      wp (if fresh = true then construct setup else return some (← revive setup)) (fun r u => s.Welcomes r u)
        (fun _ _ => True) t := by
    intro fresh t ht
    split
    · refine wp_mono (wp_and ((keeps_construct setup (Tells.growing s [])).wp_kept ht) (wp_construct_new setup))
        (fun r u hpost => ?_) fun _ _ _ => trivial
      obtain ⟨hu, hmade⟩ := hpost
      cases r with
      | none => exact hu
      | some i =>
        obtain ⟨-, hle, hlt⟩ := hmade i rfl
        exact ⟨ht.size_le.trans hle, hlt, 0, .inl rfl, hu.untold i⟩
    · refine wp_seq wp_revive_told fun i u hpost => ?_
      obtain ⟨hu, hle, hlt⟩ := hpost
      exact ⟨ht.size_le.trans hle, hlt, 2, .inr rfl, ht.trans hu⟩
  unfold newcomer
  rw [wp_bind, wp_get]
  split
  · exact hnew true (.refl s)
  · refine wp_seq ((keeps_aging (Tells.growing s []) fun _ _ => .keeps_act _).wp_kept (.refl s)) fun fresh t ht => ?_
    exact hnew fresh ht

theorem wp_inject_told (k : Nat) :
    wp (inject setup k) (fun l t => ∃ injected, s.Tries setup injected l t ∧ s.Makes injected t ∧
      (∀ c ∈ injected, c.Injected) ∧ injected.length ≤ k) (fun _ _ => True) s := by
  induction k generalizing s with
  | zero => exact ⟨[], (Tells.refl s).tries, Makes.nil _ _, List.forall_mem_nil _, le_rfl⟩
  | succ k ih =>
    unfold inject
    refine wp_seq wp_newcomer_told fun r t hpost => ?_
    cases r with
    | none =>
      have ht : s.Tells [] t := hpost
      refine wp_imp ih fun l u hpost => ?_
      obtain ⟨injected, hu, hmakes, hinjected, hlength⟩ := hpost
      exact ⟨injected, ht.tries.append hu, (Makes.nil s t).append hmakes ht.size_le hu.size_le, hinjected,
        Nat.le_succ_of_le hlength⟩
    | some i =>
      obtain ⟨hle, hlt, m, hm, ht⟩ := hpost
      dsimp only
      rw [wp_bind, wp_get]
      refine wp_seq (ht.wp_setAge _ _) fun _ v hpost => ?_
      obtain ⟨htv, hv⟩ := hpost
      refine wp_seq hv.wp_retain fun kept u hpost => ?_
      obtain ⟨hvu, evaluation, hu, -⟩ := hpost
      refine wp_seq ih fun l w hpost => ?_
      obtain ⟨injected, hw, hmakes, hinjected, hlength⟩ := hpost
      have hnew : s.Makes [⟨i, m, evaluation⟩] u :=
        ⟨List.forall_mem_singleton.2 ⟨hle, hlt.trans_le (htv.trans hvu)⟩, List.pairwise_singleton _ _⟩
      exact ⟨_, hu.append hw, hnew.append hmakes hu.size_le hw.size_le, List.forall_mem_cons.2 ⟨hm, hinjected⟩,
        Nat.succ_le_succ hlength⟩

/-- Breeding tries a litter, and comes back with those who are kept. -/
theorem wp_breed_told : wp (breed setup) (fun offspring t => ∃ paired injected,
    s.Tries setup (paired ++ injected) offspring t ∧ Litter setup paired injected) (fun _ _ => True) s := by
  have hpaired : wp (breedPopulation setup) (fun l t => ∃ paired, s.Tries setup paired l t ∧ s.Makes paired t ∧
      (∀ c ∈ paired, c.Bred setup) ∧ ∃ n ≤ (Int.fdiv setup.options.population 2).toNat, paired.length = 2 * n)
      (fun _ _ => True) s := by
    unfold breedPopulation
    rw [wp_bind, wp_get, wp_ite]
    split
    · exact ⟨[], (Tells.refl s).tries, Makes.nil _ _, List.forall_mem_nil _, 0, Nat.zero_le _, rfl⟩
    · exact wp_breedPairs_told _
  unfold breed
  refine wp_seq hpaired fun bred t hpost => ?_
  obtain ⟨paired, ht, hmade, hbred, hlength⟩ := hpost
  rw [wp_bind, wp_onScene, SceneM.wp_act]
  cases hcount : injectionCount setup.options with
  | error e => trivial
  | ok k =>
    refine wp_seq (wp_inject_told k) fun l u hpost => ?_
    obtain ⟨injected, hu, hmade', hinjected, hle⟩ := hpost
    have htries := ht.append hu
    refine ⟨paired, injected, ⟨⟨htries.phase, htries.generation, htries.size_le, htries.events⟩, htries.kept,
      htries.accepted⟩, ?_⟩
    exact {
      mutations_paired := hbred
      length_paired := hlength
      mutations_injected := hinjected
      length_injected := (SearchOptions.injections_eq hcount).symm ▸ hle
      increasing := (hmade.append hmade' ht.size_le hu.size_le).increasing
      accepted := htries.accepted }

end SearchM

end GoalSearch
