import GoalSearch.Proofs.Archive.Calls
import GoalSearch.Proofs.Fitness
import Mathlib.Data.List.MinMax

/-!
# The archive stores the first of the smallest

`StoresSmallest size l a`: for every goal the archive `a` stores the earliest of the smallest individuals that
the list `l` of submissions has for it. One more submission extends the list by one (`StoresSmallest.submit`),
and a batch extends it by the pairs it hands in. So after any calls with individuals that keep their sizes and
verdicts the archive is told by the submissions alone (`smallest_of_leads`), and their order decides no more
than which of several equally small individuals is stored.
-/

namespace GoalSearch.Archive

variable {ι : Type} {a : Archive ι} {size size' : ι → Nat} {l l' : List (ι × Goal)} {x : ι} {g : Goal}

/-- The individuals submitted for a goal. -/
def submittedFor (g : Goal) (l : List (ι × Goal)) : List ι := (l.filter (·.2 = g)).map (·.1)

theorem mem_submittedFor : x ∈ submittedFor g l ↔ (x, g) ∈ l := by simp [submittedFor]

theorem submittedFor_concat (h : Goal) :
    submittedFor h (l ++ [(x, g)]) = if g = h then submittedFor h l ++ [x] else submittedFor h l := by
  unfold submittedFor
  split <;> simp [*]

/-- For every goal the archive stores the earliest of the smallest individuals submitted for it. -/
def StoresSmallest (size : ι → Nat) (l : List (ι × Goal)) (a : Archive ι) : Prop :=
  ∀ g, a.get? g = (submittedFor g l).argmin size

theorem storesSmallest_ofGoals (goals : List Goal) : (ofGoals goals : Archive ι).StoresSmallest size [] :=
  fun _ => rfl

namespace StoresSmallest

theorem mem (h : a.StoresSmallest size l) (hx : a.get? g = some x) : (x, g) ∈ l :=
  mem_submittedFor.1 (List.argmin_mem (f := size) (by rw [← h g, hx]; rfl))

/-- A submission for an objective is one more entry of the list. The sizes seen by it may be others, as long
as they agree for the individuals of the list and the new one. -/
theorem submit (h : a.StoresSmallest size l) (hg : g ∈ a.objectives)
    (hl : ∀ p ∈ l, size' p.1 = size p.1) (hx : size' x = size x) :
    (a.submit size' x g).1.StoresSmallest size (l ++ [(x, g)]) := by
  intro k
  rw [get?_submit, submittedFor_concat]
  by_cases hk : k = g
  · subst hk
    rw [ite_eq_left_iff.2 fun hn => absurd ⟨rfl, hg⟩ hn, ite_eq_left_iff.2 fun hn => absurd rfl hn,
      List.argmin_concat, ← h k]
    cases hy : a.get? k with
    | none => rfl
    | some y =>
      have hsize : size' y = size y := hl _ (h.mem hy)
      simp only [hsize, hx]
  · rw [ite_eq_right_iff.2 fun hn => absurd hn.1 hk, ite_eq_right_iff.2 fun e => absurd e.symm hk]
    exact h k

theorem mem_coveredGoals (h : a.StoresSmallest size l) : g ∈ a.coveredGoals ↔ submittedFor g l ≠ [] := by
  rw [← isSome_get?_iff, h g, Option.isSome_iff_ne_none, ne_eq, List.argmin_eq_none]

end StoresSmallest

/-- Only the sizes of the members of a list matter. -/
theorem argmin_congr {xs : List ι} (h : ∀ x ∈ xs, size' x = size x) : xs.argmin size' = xs.argmin size := by
  induction xs using List.reverseRecOn with
  | nil => rfl
  | append_singleton xs x ih =>
    have ih := ih fun y hy => h y (by simp [hy])
    rw [List.argmin_concat, List.argmin_concat, ih]
    cases hm : xs.argmin size with
    | none => rfl
    | some y =>
      have hy : y ∈ xs := List.argmin_mem hm
      simp only [h y (by simp [hy]), h x (by simp)]

theorem argmin_map {κ : Type} {f : κ → ι} {xs : List κ} :
    (xs.map f).argmin size = (xs.argmin fun x => size (f x)).map f := by
  induction xs using List.reverseRecOn with
  | nil => rfl
  | append_singleton xs x ih =>
    rw [List.map_append, List.map_singleton, List.argmin_concat, List.argmin_concat, ih]
    cases xs.argmin fun x => size (f x) with
    | none => rfl
    | some y =>
      show (if _ then _ else _) = Option.map f (if _ then _ else _)
      split <;> rfl

theorem StoresSmallest.congr (h : a.StoresSmallest size l) (hl : ∀ p ∈ l, size' p.1 = size p.1) :
    a.StoresSmallest size' l := by
  intro g
  rw [h g]
  exact (argmin_congr fun x hx => hl _ (mem_submittedFor.1 hx)).symm

/-- Lists with the same members have equally small first minima. -/
theorem map_argmin_perm {xs ys : List ι} (h : xs.Perm ys) :
    (xs.argmin size).map size = (ys.argmin size).map size := by
  cases hx : xs.argmin size with
  | none =>
    rw [List.argmin_eq_none] at hx
    subst hx
    rw [← h.nil_eq]; rfl
  | some x =>
    cases hy : ys.argmin size with
    | none =>
      rw [List.argmin_eq_none] at hy
      subst hy
      rw [h.eq_nil] at hx
      cases hx
    | some y =>
      have hxy : size x ≤ size y := List.le_of_mem_argmin (h.mem_iff.2 (List.argmin_mem hy)) hx
      have hyx : size y ≤ size x := List.le_of_mem_argmin (h.mem_iff.1 (List.argmin_mem hx)) hy
      exact congrArg some (Nat.le_antisymm hxy hyx)

/-! ### Calls that submit -/

namespace Call

/-- The individuals that a call hands in. -/
def members : Call → List Nat
  | submit i _ => [i]
  | update members => members
  | addGoals _ | reset => []

/-- The call neither adds goals nor resets. -/
def Submits : Call → Prop
  | submit _ _ | update _ => True
  | addGoals _ | reset => False

/-- What a call submits for objectives, in the order of processing. A batch asks for goal after goal which
members cover it, and leaves out empty ones. -/
def submissions (objectives : List Goal) (size : Nat → Nat) (verdict : Goal → Nat → Bool) :
    Call → List (Nat × Goal)
  | submit i g => if g ∈ objectives then [(i, g)] else []
  | update members => objectives.flatMap fun g =>
      (members.filter fun i => decide (0 < size i) && verdict g i).map fun i => (i, g)
  | addGoals _ | reset => []

theorem mem_submissions_update {objectives : List Goal} {size : Nat → Nat} {verdict : Goal → Nat → Bool}
    {batch : List Nat} {i : Nat} {g : Goal} : (i, g) ∈ (update batch).submissions objectives size verdict ↔
      g ∈ objectives ∧ i ∈ batch ∧ 0 < size i ∧ verdict g i = true := by
  simp [submissions, and_left_comm]

end Call

variable {σ ω : Type} {subject : Subject σ ω}

/-- In all scenes with `P` the individuals have given sizes, and those that are not empty give given verdicts,
which lead to scenes with `P` again. -/
structure Steady (subject : Subject σ ω) (P : Scene σ ω → Prop) (goals : List Goal) (members : List Nat)
    (size : Nat → Nat) (verdict : Goal → Nat → Bool) : Prop where
  size_eq : ∀ s, P s → ∀ i ∈ members, (s.individual i).size = size i
  covers : ∀ g ∈ goals, ∀ i ∈ members, 0 < size i → Yields P (Individual.covers subject g i) (verdict g i)
  logged : ∀ s log, P s → P { s with log := log }

namespace Steady
variable {P : Scene σ ω → Prop} {goals : List Goal} {members : List Nat} {size : Nat → Nat}
  {verdict : Goal → Nat → Bool} {s : Search σ ω} {l : List (Nat × Goal)}

/-- What is known between two submissions. -/
structure Between (P : Scene σ ω → Prop) (goals : List Goal) (members : List Nat) (size : Nat → Nat)
    (l : List (Nat × Goal)) (s : Search σ ω) : Prop where
  scene : P s.scene
  objectives : s.archive.objectives = goals
  known : ∀ p ∈ l, p.1 ∈ members
  smallest : s.archive.StoresSmallest size l

theorem wp_submit (hst : Steady subject P goals members size verdict)
    (h : Between P goals members size l s) {i : Nat} (hi : i ∈ members) {g : Goal} (hg : g ∈ goals) :
    wp (SearchM.submit i g) (fun _ => Between P goals members size (l ++ [(i, g)])) (fun _ _ => False) s := by
  refine SearchM.wp_submit fun log => ⟨hst.logged _ log h.scene, ?_, ?_, ?_⟩
  · rw [← h.objectives]; exact objectives_submit
  · intro p hp
    rcases List.mem_append.1 hp with hp | hp
    · exact h.known p hp
    · rw [List.mem_singleton.1 hp]; exact hi
  · refine h.smallest.submit (h.objectives ▸ hg) (fun p hp => ?_) (hst.size_eq _ h.scene i hi)
    exact hst.size_eq _ h.scene p.1 (h.known p hp)

section Batch
variable {J : List (Nat × Goal) → Bool → Search σ ω → Prop} {batch : List Nat} {b : Bool}
  (hst : Steady subject P goals members size verdict) (hJ : ∀ l b s, J l b s → P s.scene)
  (hscene : ∀ l b s scene, P scene → J l b s → J l b { s with scene := scene })
  (hsubmit : ∀ l b s, J l b s → ∀ p ∈ (Call.update batch).submissions goals size verdict,
    wp (SearchM.submit p.1 p.2) (fun changed => J (l ++ [p]) (b || changed)) (fun _ _ => False) s)
  (hb : batch ⊆ members)
include hst hJ hscene hsubmit hb

theorem wp_offer_of_submit (hs : J l b s) {i : Nat} (hi : i ∈ batch) {g : Goal} (hg : g ∈ goals) :
    wp (SearchM.offer subject g i)
      (fun changed => J (l ++ ([i].filter fun i => decide (0 < size i) && verdict g i).map fun i => (i, g))
        (b || changed)) (fun _ _ => False) s := by
  unfold SearchM.offer
  rw [wp_bind, SearchM.wp_onScene, SceneM.wp_individual, hst.size_eq _ (hJ l b s hs) i (hb hi), wp_ite]
  split
  · rename_i hzero
    simpa [hzero] using hs
  · have hpos : 0 < size i := Nat.pos_of_ne_zero ‹_›
    rw [wp_bind, SearchM.wp_onScene]
    refine wp_imp (hst.covers g hg i (hb hi) hpos _ (hJ l b s hs)) ?_
    rintro _ t ⟨rfl, ht⟩
    have hs' : J l b { s with scene := t } := hscene l b s t ht hs
    cases hv : verdict g i with
    | false => simpa [hv] using hs'
    | true =>
      have hp : (i, g) ∈ (Call.update batch).submissions goals size verdict :=
        Call.mem_submissions_update.2 ⟨hg, hi, hpos, hv⟩
      simpa [hv, hpos] using hsubmit l b _ hs' (i, g) hp

/-- A batch submits, goal after goal, the members that are not empty and cover the goal. What is kept by each
submission, and by what happens on the scene in between, holds at the end; it may speak of the submissions made and of
whether one of them told that the archive changed. -/
theorem wp_updateArchive_of_submit (ho : s.archive.objectives = goals) (hs : J l false s) :
    wp (SearchM.updateArchive subject batch)
      (fun changed => J (l ++ (Call.update batch).submissions goals size verdict) changed) (fun _ _ => False) s := by
  -- the invariant of both loops: the submissions of the goals, and of the members, that are done
  have hgoal : ∀ g ∈ goals, ∀ l b s, J l b s →
      wp (batch.mapM (SearchM.offer subject g))
        (fun changes => J (l ++ (batch.filter fun i => decide (0 < size i) && verdict g i).map fun i => (i, g))
          (b || changes.any id)) (fun _ _ => False) s := by
    intro g hg l b s hs
    refine wp_mapM (I := fun done changes => J
      (l ++ (done.filter fun i => decide (0 < size i) && verdict g i).map fun i => (i, g)) (b || changes.any id))
      (fun done changes i rest hbatch s hs => ?_) (by simpa using hs)
    refine wp_imp (hst.wp_offer_of_submit hJ hscene hsubmit hb hs (by simp [hbatch]) hg) fun changed t ht => ?_
    rw [List.filter_append, List.map_append, ← List.append_assoc]
    simpa [Bool.or_assoc] using ht
  unfold SearchM.updateArchive
  rw [wp_bind, wp_get, ho]
  refine wp_seq (wp_mapM (I := fun done changes => J
    (l ++ (Call.update batch).submissions done size verdict) (changes.any (·.any id)))
    (fun done changes g rest hgoals s hs => ?_) (by simpa [Call.submissions] using hs)) fun changes t ht => ?_
  · refine wp_imp (hgoal g (by simp [hgoals]) _ _ s hs) fun _ t ht => ?_
    simpa [Call.submissions, List.flatMap_append] using ht
  · exact hscene _ _ t _ (hst.logged _ _ (hJ _ _ t ht)) ht

end Batch

/-- The submissions of a batch are added to those made before. -/
theorem wp_updateArchive (hst : Steady subject P goals members size verdict)
    (h : Between P goals members size l s) {batch : List Nat} (hb : ∀ i ∈ batch, i ∈ members) :
    wp (SearchM.updateArchive subject batch)
      (fun _ => Between P goals members size (l ++ (Call.update batch).submissions goals size verdict))
      (fun _ _ => False) s :=
  hst.wp_updateArchive_of_submit (J := fun l _ => Between P goals members size l) (fun _ _ _ h => h.scene)
    (fun _ _ _ _ hscene h => ⟨hscene, h.objectives, h.known, h.smallest⟩)
    (fun _ _ _ h p hp => by
      obtain ⟨hg, hi, -⟩ := Call.mem_submissions_update.1 hp
      exact hst.wp_submit h (hb p.1 hi) hg) hb h.objectives h

theorem wp_make (hst : Steady subject P goals members size verdict)
    (h : Between P goals members size l s) {c : Call} (hc : c.Submits) (hm : ∀ i ∈ c.members, i ∈ members) :
    wp (c.make subject) (fun _ => Between P goals members size (l ++ c.submissions goals size verdict))
      (fun _ _ => False) s := by
  cases c with
  | submit i g =>
    simp only [Call.make, wp_bind, Call.submissions]
    by_cases hg : g ∈ goals
    · simp only [hg, ↓reduceIte]
      exact hst.wp_submit h (hm i (by simp [Call.members])) hg
    · have hunknown : s.archive.submit (fun j => (s.scene.individual j).size) i g = (s.archive, .unknown) := by
        unfold Archive.submit
        rw [h.objectives, ite_eq_left_iff.2 fun hn => absurd hg hn]
      simp only [hg, ↓reduceIte, List.append_nil]
      refine SearchM.wp_submit fun log => ?_
      rw [hunknown]
      exact ⟨hst.logged _ _ h.scene, h.objectives, h.known, h.smallest⟩
  | update batch =>
    simp only [Call.make, wp_bind]
    exact hst.wp_updateArchive h hm
  | addGoals | reset => exact hc.elim

/-- The submissions of the calls are added to those made before. -/
theorem storesSmallest_of_leads (hst : Steady subject P goals members size verdict) {a b : Archive Nat}
    {calls : List Call} (hab : Leads subject P a calls b) (hc : ∀ c ∈ calls, c.Submits)
    (hm : ∀ c ∈ calls, ∀ i ∈ c.members, i ∈ members) (ho : a.objectives = goals) (hl : ∀ p ∈ l, p.1 ∈ members)
    (ha : a.StoresSmallest size l) :
    b.StoresSmallest size (l ++ calls.flatMap (·.submissions goals size verdict)) := by
  induction hab generalizing l with
  | refl a => simpa using ha
  | @call b c calls s hs _ ih =>
    have hmake := hst.wp_make ⟨hs, ho, hl, ha⟩ (hc c (by simp)) (hm c (by simp))
    rw [List.flatMap_cons, ← List.append_assoc]
    revert hmake ih
    unfold wp
    rcases (c.make subject).run s with ⟨e | u, t⟩
    · exact fun _ h => h.elim
    · exact fun ih h => ih (fun c h => hc c (by simp [h])) (fun c h => hm c (by simp [h])) h.objectives h.known
        h.smallest

/-- Individuals that know their fitness are steady, as long as they stay what they are. -/
theorem of_evaluated {u : Scene σ ω} (h : ∀ i ∈ members, (u.individual i).Evaluated goals) :
    Steady subject (fun t => t.pool = u.pool) goals members (fun i => (u.individual i).size)
      (fun g i => (u.individual i).knownToCover g) where
  size_eq t ht i _ := by unfold Scene.individual; rw [ht]
  covers g hg i hi _ t ht := by
    have hsame : t.individual i = u.individual i := by unfold Scene.individual; rw [ht]
    have heval := hsame ▸ h i hi
    rw [wp_of_run_eq (heval.run_covers hg), hsame]
    exact ⟨rfl, ht⟩
  logged _ _ ht := ht

end Steady

/-- For individuals that keep their sizes and verdicts, calls without additions and resets leave for every goal
the earliest of the smallest individuals submitted for it. Other calls that submit the same in another order,
to an archive with the same objectives, end with the same covered goals and the same sizes. -/
theorem smallest_of_leads {P : Scene σ ω → Prop} {goals : List Goal} {members : List Nat} {size : Nat → Nat}
    {verdict : Goal → Nat → Bool}
    (hst : Steady subject P (Distinct.ofList goals) members size verdict) {calls : List Call} {a : Archive Nat}
    (ha : Leads subject P (ofGoals goals) calls a)
    (hc : ∀ c ∈ calls, c.Submits ∧ ∀ i ∈ c.members, i ∈ members) :
    (∀ g, a.get? g =
      (submittedFor g (calls.flatMap (·.submissions (Distinct.ofList goals) size verdict))).argmin size) ∧
    ∀ (goals' : List Goal) (calls' : List Call) (b : Archive Nat), (∀ g, g ∈ goals' ↔ g ∈ goals) →
      Leads subject P (ofGoals goals') calls' b → (∀ c ∈ calls', c.Submits ∧ ∀ i ∈ c.members, i ∈ members) →
      (calls'.flatMap (·.submissions (Distinct.ofList goals') size verdict)).Perm
        (calls.flatMap (·.submissions (Distinct.ofList goals) size verdict)) →
      (∀ g, g ∈ b.coveredGoals ↔ g ∈ a.coveredGoals) ∧ ∀ g, (b.get? g).map size = (a.get? g).map size := by
  have hsmall := hst.storesSmallest_of_leads (l := []) ha (fun c h => (hc c h).1) (fun c h => (hc c h).2) rfl
    (by simp) (storesSmallest_ofGoals goals)
  rw [List.nil_append] at hsmall
  refine ⟨hsmall, fun goals' calls' b hgoals hb hc' hperm => ?_⟩
  have hst' : Steady subject P (Distinct.ofList goals') members size verdict :=
    ⟨hst.size_eq, fun g hg => hst.covers g (by simpa [hgoals] using hg), hst.logged⟩
  have hsmall' := hst'.storesSmallest_of_leads (l := []) hb (fun c h => (hc' c h).1) (fun c h => (hc' c h).2)
    rfl (by simp) (storesSmallest_ofGoals goals')
  rw [List.nil_append] at hsmall'
  have hsame : ∀ g, (b.get? g).map size = (a.get? g).map size := by
    intro g
    rw [hsmall' g, hsmall g]
    exact map_argmin_perm ((hperm.filter _).map _)
  refine ⟨fun g => ?_, hsame⟩
  rw [← isSome_get?_iff, ← isSome_get?_iff, ← Option.isSome_map (f := size), hsame g, Option.isSome_map]

/-- Two test cases that are known to cover a goal, the smaller one behind the other. -/
def coveringPair : Scene Statement Sample.World where
  pool :=
    #[{ content := .testCase [.null, .null] none, changed := false, cache := [(.atom 0, 0.0)] },
      { content := .testCase [.null] none, changed := false, cache := [(.atom 0, 0.0)] }]
  outside := { generator := .scripted ⟨#[], #[], #[], 0, 0, 0⟩ }
  log := #[]

theorem evaluated_coveringPair : ∀ i ∈ [0, 1], (coveringPair.individual i).Evaluated [.atom 0] := by
  have hzero : Fitness.InRange 0.0 := ⟨by decide +kernel, by decide +kernel, by decide +kernel⟩
  intro i hi
  rcases List.mem_pair.1 hi with rfl | rfl
  · exact ⟨⟨_, _, rfl⟩, by decide, fun _ => rfl, fun g hg => ⟨0.0, by rw [List.mem_singleton.1 hg]; rfl, hzero⟩⟩
  · exact ⟨⟨_, _, rfl⟩, by decide, fun _ => rfl, fun g hg => ⟨0.0, by rw [List.mem_singleton.1 hg]; rfl, hzero⟩⟩

/-- The first one is handed in for the goal, then both of them in a batch: the smaller one is stored. -/
theorem smallest_of_leads_pair : ∃ a,
    Leads nobody (fun t => t.pool = coveringPair.pool) (ofGoals [.atom 0])
      [.submit 0 (.atom 0), .update [0, 1]] a ∧
    a.get? (.atom 0) = some 1 := by
  have hst : Steady nobody (fun t => t.pool = coveringPair.pool) (Distinct.ofList [.atom 0]) [0, 1] _ _ :=
    .of_evaluated evaluated_coveringPair
  have ha : Leads nobody (fun t => t.pool = coveringPair.pool) (ofGoals [.atom 0])
      [.submit 0 (.atom 0), .update [0, 1]] _ :=
    .call { scene := coveringPair, archive := ofGoals [.atom 0] } rfl (.call _ rfl (.refl _))
  have hcalls : ∀ c ∈ [Call.submit 0 (.atom 0), .update [0, 1]], c.Submits ∧ ∀ i ∈ c.members, i ∈ [0, 1] := by
    simp [Call.Submits, Call.members]
  refine ⟨_, ha, ?_⟩
  rw [(smallest_of_leads hst ha hcalls).1 (.atom 0)]
  decide +kernel

end GoalSearch.Archive
