import GoalSearch.Proofs.Ranks

/-!
# Ranking without an order

A NaN is neither better nor worse than any value, so over fitness values with NaNs dominance need not be transitive:
a pass over the members may drive out someone whom nobody in the front that it ends with dominates. Two facts do not
need an order. The two ways to look for the members that nobody dominates find the same ones
(`Ranking.nonDominated_eq`): one counts all whom a member beats, and takes them out one by one after the member has
joined; the other stops at the first who beats the member. And each pass keeps somebody, so pass by pass fewer members
are left, until the fronts hold all of them (`Ranking.splits_fronts`).
-/

namespace GoalSearch

open Dominance

namespace Ranking

variable {ι α : Type} [DecidableEq ι] {front members : List ι}

/-! ### Two ways to the first front -/

/-- Taking out one occurrence for each occurrence of those with a property leaves those without it. -/
theorem foldl_erase_filter {p : ι → Bool} {others : List ι} :
    (front.filter p).foldl List.erase (front ++ others) = front.filter (fun y => !p y) ++ others := by
  induction front with
  | nil => rfl
  | cons y front ih =>
    by_cases hy : p y = true
    · rw [List.filter_cons_of_pos hy, List.foldl_cons, List.cons_append, List.erase_cons_head, ih,
        List.filter_cons_of_neg (by simp [hy])]
    · -- nobody takes out `y`, which stays in front
      have hnot : y ∉ front.filter p := fun hmem => hy (List.mem_filter.1 hmem).2
      rw [List.filter_cons_of_neg hy, List.cons_append, ← List.diff_eq_foldl, List.cons_diff_of_not_mem hnot,
        List.diff_eq_foldl, ih, List.filter_cons_of_pos (by simp [hy]), List.cons_append]

variable [LT α] [DecidableLT α] {value : Goal → ι → α} {goals : List Goal}

/-- Both ways to pass the members end with the same front, in every state of the front. -/
theorem nonDominated_eq : Id.run (nonDominated value goals front members) =
    Id.run (nonDominatedFrom value goals (fun _ => ()) front members) := by
  induction members generalizing front with
  | nil => rfl
  | cons x rest ih =>
    have hbeaten : (front.filter fun y => Id.run (compare value goals x y) == .lt).foldl List.erase (front ++ [x]) =
        front.filter (¬ Dominates value goals x ·) ++ [x] := by
      rw [foldl_erase_filter]
      refine congrArg (· ++ [x]) (List.filter_congr fun y _ => ?_)
      simp only [decide_not, ← compare_eq_lt_iff, beq_eq_decide]
    rw [nonDominated_cons, nonDominatedFrom_cons, hbeaten, ih, ih]
    simp only [compare_eq_gt_iff]

/-! ### What a pass keeps -/

theorem nonDominatedFrom_sublist :
    (Id.run (nonDominatedFrom value goals (fun _ => ()) front members)).Sublist (front ++ members) := by
  induction members generalizing front with
  | nil => exact List.sublist_append_left _ _
  | cons x rest ih =>
    rw [nonDominatedFrom_cons]
    split
    · exact ih.trans (List.Sublist.append_left (List.sublist_cons_self x rest) front)
    · rw [List.append_cons front x rest]
      exact ih.trans ((List.filter_sublist.append_right [x]).append_right rest)

/-- Who is told that somebody dominates it is told so by someone in the front; who is not joins the front. -/
theorem nonDominatedFrom_ne_nil (h : front ++ members ≠ []) :
    Id.run (nonDominatedFrom value goals (fun _ => ()) front members) ≠ [] := by
  induction members generalizing front with
  | nil => exact fun hnil => h (by rw [List.append_nil]; exact hnil)
  | cons x rest ih =>
    rw [nonDominatedFrom_cons]
    split
    · rename_i hdom
      obtain ⟨y, hy, -⟩ := hdom
      exact ih (List.append_ne_nil_of_left_ne_nil (List.ne_nil_of_mem hy) _)
    · exact ih (by simp)

/-! ### Front after front -/

/-- The members are split into fronts: a front is made of some of those left, and takes away all its members. -/
inductive Splits : List (List ι) → List ι → Prop
  | nil : Splits [] []
  | cons {members front : List ι} {fronts : List (List ι)} (hne : front ≠ []) (hsub : front.Sublist members)
      (h : Splits fronts (members.filter (· ∉ front))) : Splits (front :: fronts) members

namespace Splits
variable {fronts : List (List ι)}

theorem ne_nil_of_mem (h : Splits fronts members) : ∀ front ∈ fronts, front ≠ [] := by
  induction h with
  | nil => simp
  | cons hne _ _ ih => exact List.forall_mem_cons.2 ⟨hne, ih⟩

theorem perm (h : Splits fronts members) (hnodup : members.Nodup) : fronts.flatten.Perm members := by
  induction h with
  | nil => exact .nil
  | @cons members front fronts hne hsub h ih =>
    have hfront : front.Perm (members.filter (· ∈ front)) := by
      refine (List.perm_ext_iff_of_nodup (hsub.nodup hnodup) (hnodup.filter _)).2 fun x => ?_
      simp only [List.mem_filter, decide_eq_true_eq]
      exact ⟨fun hx => ⟨hsub.subset hx, hx⟩, And.right⟩
    have hothers : (members.filter (· ∈ front) ++ members.filter (· ∉ front)).Perm members := by
      simpa only [decide_not] using List.filter_append_perm (· ∈ front) members
    rw [List.flatten_cons]
    exact (hfront.append (ih (hnodup.filter _))).trans hothers

/-- Every member is in one front and in no other. -/
theorem exists_unique (h : Splits fronts members) (hnodup : members.Nodup) {x : ι} (hx : x ∈ members) :
    ∃ (k : Nat) (front : List ι), fronts[k]? = some front ∧ front.count x = 1 ∧
      ∀ (j : Nat) (other : List ι), fronts[j]? = some other → x ∈ other → j = k := by
  have hperm := h.perm hnodup
  obtain ⟨hfronts, hdisjoint⟩ := List.nodup_flatten.1 (hperm.nodup_iff.2 hnodup)
  obtain ⟨front, hfront, hx⟩ := List.mem_flatten.1 (hperm.mem_iff.2 hx)
  obtain ⟨k, hk⟩ := List.mem_iff_getElem?.1 hfront
  refine ⟨k, front, hk, List.count_eq_one_of_mem (hfronts front hfront) hx, fun j other hj hx' => ?_⟩
  obtain ⟨hklt, rfl⟩ := List.getElem?_eq_some_iff.1 hk
  obtain ⟨hjlt, rfl⟩ := List.getElem?_eq_some_iff.1 hj
  rcases Nat.lt_trichotomy j k with hlt | rfl | hlt
  · exact absurd hx (List.pairwise_iff_getElem.1 hdisjoint j k hjlt hklt hlt hx')
  · rfl
  · exact absurd hx' (List.pairwise_iff_getElem.1 hdisjoint k j hklt hjlt hlt hx)

end Splits

/-- The first pass over somebody keeps somebody. -/
theorem exists_pass (value : Goal → ι → α) (goals : List Goal) (hne : members ≠ []) :
    ∃ front, Id.run (nonDominatedFrom value goals (fun _ => ()) [] members) = front ∧ front ≠ [] ∧
      front.Sublist members :=
  ⟨_, rfl, nonDominatedFrom_ne_nil (by simpa using hne), nonDominatedFrom_sublist⟩

/-- As many passes as there are members are enough, whatever the values are. -/
theorem splits_fronts {fuel rank : Nat} (hfuel : members.length ≤ fuel) :
    Splits (Id.run (fronts value goals (fun _ _ => ()) fuel rank members)) members := by
  induction fuel generalizing rank members with
  | zero =>
    rw [List.length_eq_zero_iff.1 (Nat.le_zero.1 hfuel)]
    exact .nil
  | succ fuel ih =>
    rcases eq_or_ne members [] with rfl | hne
    · rw [fronts_nil]
      exact .nil
    · obtain ⟨front, hfront, hsome, hsub⟩ := exists_pass value goals hne
      have hlt := length_filter_lt hsome hsub.subset
      rw [fronts_succ hne hfront]
      exact .cons hsome hsub (ih (by omega))

/-- To allow for more passes than there are members changes nothing. -/
theorem fronts_eq_of_le {fuel fuel' rank : Nat} (hfuel : members.length ≤ fuel) (hfuel' : members.length ≤ fuel') :
    Id.run (fronts value goals (fun _ _ => ()) fuel rank members) =
      Id.run (fronts value goals (fun _ _ => ()) fuel' rank members) := by
  induction fuel generalizing fuel' rank members with
  | zero => rw [List.length_eq_zero_iff.1 (Nat.le_zero.1 hfuel), fronts_nil, fronts_nil]
  | succ fuel ih =>
    rcases eq_or_ne members [] with rfl | hne
    · rw [fronts_nil, fronts_nil]
    · obtain ⟨front, hfront, hsome, hsub⟩ := exists_pass value goals hne
      have hlt := length_filter_lt hsome hsub.subset
      cases fuel' with
      | zero => omega
      | succ fuel' =>
        rw [fronts_succ hne hfront, fronts_succ hne hfront]
        exact congrArg (front :: ·) (ih (by omega) (by omega))

omit [DecidableEq ι] in
theorem front?_cons_zero {fronts : List (List ι)} : front? (front :: fronts) 0 = some front := by
  rw [front?, if_neg (by rw [List.length_cons]; omega)]
  simp [Position.get?, Position.inside?, Position.fromFront]

end Ranking

/-! ### Values that are handed in -/

variable {σ ω : Type} {subject : Subject σ ω} {goals : List Goal} {members : List Nat} {value : Goal → Nat → Float}
  {I : Scene σ ω → Prop} {s t : Scene σ ω}

open Individual

theorem Individual.wp_setFitness {i : Nat} {values : List (Goal × Float)} (hi : i < s.pool.size) :
    wp (setFitness i values)
      (fun _ => s.Sets i { (s.individual i).refresh with
        cache := values.foldl (fun c (g, v) => c.insert g v) (s.individual i).refresh.cache })
      (fun _ _ => False) s := by
  have h := Scene.sets_modify (f := Individual.refresh) hi
  have h' := Scene.sets_modify (f := fun x => { x with cache := values.foldl (fun c (g, v) => c.insert g v) x.cache })
    (h.size.symm ▸ hi)
  rw [h.self] at h'
  exact h.trans h'

/-- Of several values for one goal the last one counts, but some value there is. -/
theorem Cache.exists_get?_foldl {values : List (Goal × Float)} {c : Cache} {g : Goal}
    (h : (∃ v, c.get? g = some v) ∨ g ∈ values.map Prod.fst) :
    ∃ v, (values.foldl (fun c (g, v) => c.insert g v) c : Cache).get? g = some v := by
  induction values generalizing c with
  | nil => simpa using h
  | cons p values ih =>
    refine ih ?_
    rw [Cache.get?_insert]
    split
    · exact .inl ⟨_, rfl⟩
    · rename_i hne
      exact h.imp_right fun hg => (List.mem_cons.1 hg).resolve_left fun he => hne he.symm

/-- An individual that knows some value for each of the goals. -/
structure Individual.Valued (goals : List Goal) (x : Individual σ) : Prop where
  unchanged : x.changed = false
  known : ∀ g ∈ goals, ∃ v, x.cache.get? g = some v

/-- Hands in fitness values for some members. -/
def setAll (values : Nat → List (Goal × Float)) (members : List Nat) : SceneM σ ω Unit :=
  members.forM fun i => setFitness i (values i)

theorem wp_setAll {values : Nat → List (Goal × Float)} (hm : ∀ i ∈ members, i < s.pool.size)
    (hvalues : ∀ i ∈ members, ∀ g ∈ goals, g ∈ (values i).map Prod.fst) :
    wp (setAll values members)
      (fun _ t => t.pool.size = s.pool.size ∧ ∀ i ∈ members, (t.individual i).Valued goals) (fun _ _ => False) s := by
  refine wp_forM (I := fun done (t : Scene σ ω) => t.pool.size = s.pool.size ∧
    ∀ i ∈ done, (t.individual i).Valued goals) (fun done i rest hl t ht => ?_) ⟨rfl, by simp⟩
  obtain ⟨hsize, hdone⟩ := ht
  have hi : i ∈ members := by simp [hl]
  refine wp_imp (wp_setFitness (hsize.symm ▸ hm i hi)) fun _ u hu => ⟨hu.size.trans hsize, fun j hj => ?_⟩
  by_cases hij : j = i
  · subst hij
    rw [hu.self]
    exact ⟨changed_refresh, fun g hg => Cache.exists_get?_foldl (.inr (hvalues j hi g hg))⟩
  · rw [hu.others j hij]
    exact hdone j (by simpa [hij] using hj)

/-- Members that were handed arbitrary values, NaNs among them, are ranked in as many passes as there are members at
most: the fronts are not empty, every member is in one front, once, and in no other, and is told the number of its front
as its rank. The loop ends by itself: to allow for more passes gives the same fronts. -/
theorem partition_of_rankAll (subject : Subject σ ω) (values : Nat → List (Goal × Float)) (goals : List Goal)
    (hnodup : members.Nodup) (hm : ∀ i ∈ members, i < s.pool.size)
    (hvalues : ∀ i ∈ members, ∀ g ∈ goals, g ∈ (values i).map Prod.fst) :
    ∃ u fronts t, (setAll values members).run s = (.ok (), u) ∧
      (rankAll subject members goals).run u = (.ok fronts, t) ∧
      (∀ front ∈ fronts, front ≠ []) ∧ fronts.flatten.Perm members ∧
      (∀ i ∈ members, ∃ (k : Nat) (front : List Nat), fronts[k]? = some front ∧ front.count i = 1 ∧
        (∀ (j : Nat) (other : List Nat), fronts[j]? = some other → i ∈ other → j = k) ∧
        (t.individual i).rank = k) ∧
      ∀ passes, members.length ≤ passes →
        ∃ t', (Ranking.fronts (fitness subject) goals setRank passes 0 members).run u = (.ok fronts, t') := by
  obtain ⟨_, u, hset, hsize, hvalued⟩ := exists_of_wp (wp_setAll hm hvalues)
  have hfixed : Fixed subject goals members u.known (u.Keeps []) := fixed_known fun i hi =>
    ⟨hsize.symm ▸ hm i hi, fun _ => (hvalued i hi).unchanged, (hvalued i hi).known⟩
  obtain ⟨fronts, t, hrun, hfronts, -, hranks⟩ := exists_of_wp (hfixed.wp_rankAll (.refl _ _))
  have hsplits : Ranking.Splits fronts members := hfronts ▸ Ranking.splits_fronts le_rfl
  refine ⟨u, fronts, t, hset, hrun, hsplits.ne_nil_of_mem, hsplits.perm hnodup, fun i hi => ?_,
    fun passes hpasses => ?_⟩
  · obtain ⟨k, front, hk, hcount, hunique⟩ := hsplits.exists_unique hnodup hi
    have hmem : i ∈ front := List.count_pos_iff.1 (hcount ▸ Nat.zero_lt_one)
    exact ⟨k, front, hk, hcount, hunique, hranks k front hk i hmem⟩
  · have hpass : wp (Ranking.fronts (fitness subject) goals setRank passes 0 members) _ _ u :=
      hfixed.wp_fronts (.refl _ _) (List.Subset.refl members)
    obtain ⟨_, t', hrun', rfl, -⟩ := exists_of_wp hpass
    exact ⟨t', hrun'.trans (by rw [hfronts, Ranking.rank, Ranking.fronts_eq_of_le hpasses le_rfl])⟩

/-- Three test cases that nobody has measured. -/
def threeUnmeasured : Scene Statement Sample.World where
  pool := Array.replicate 3 { content := .testCase [] none }
  outside := { generator := .scripted ⟨#[], #[], #[], 0, 0, 0⟩ }
  log := #[]

/-- The first dominates the second and the second the third, but the first does not dominate the third. -/
def unlike : Nat → List (Goal × Float)
  | 0 => [(.atom 0, 0.0), (.atom 1, Binary64.nan)]
  | 1 => [(.atom 0, 1.0), (.atom 1, 0.0)]
  | _ => [(.atom 0, Binary64.nan), (.atom 1, 1.0)]

/-- Every test case drives out the one before it, so the first pass keeps one, which does not dominate all others. -/
theorem partition_of_rankAll_unlike : ∃ u t,
    (setAll unlike [2, 1, 0]).run threeUnmeasured = (.ok (), u) ∧
    (rankAll (Sample.Parts.subject { goals := #[] }) [2, 1, 0] [.atom 0, .atom 1]).run u = (.ok [[0], [1], [2]], t) ∧
    Dominates u.known [.atom 0, .atom 1] 0 1 ∧ Dominates u.known [.atom 0, .atom 1] 1 2 ∧
    ¬ Dominates u.known [.atom 0, .atom 1] 0 2 ∧ (t.individual 2).rank = 2 := by
  obtain ⟨u, fronts, t, hset, hrun, -, -, hranks, -⟩ :=
    partition_of_rankAll (s := threeUnmeasured) (Sample.Parts.subject { goals := #[] }) unlike [.atom 0, .atom 1]
      (show [2, 1, 0].Nodup by decide) (by decide) (by decide)
  obtain rfl : ((setAll unlike [2, 1, 0]).run threeUnmeasured).2 = u := by rw [hset]
  have hfronts : ((rankAll (Sample.Parts.subject { goals := #[] }) [2, 1, 0] [.atom 0, .atom 1]).run
      ((setAll unlike [2, 1, 0]).run threeUnmeasured).2).1.toOption = some [[0], [1], [2]] := by decide +kernel
  rw [hrun] at hfronts
  obtain rfl : fronts = _ := Option.some.inj hfronts
  obtain ⟨k, front, hk, -, hunique, hrank⟩ := hranks 2 (by decide)
  obtain rfl : 2 = k := hunique 2 [2] rfl (by decide)
  exact ⟨_, t, hset, hrun, by decide +kernel, by decide +kernel, by decide +kernel, hrank⟩

/-! ### The front that a search keeps -/

/-- The members that none of the others dominates over the covered goals, as a search looks for them, are the first
front that ranking makes of the members over these goals: the same members in the same order, each as often. -/
theorem front_of_nonDominated (search : Search σ ω) (hI : I search.scene) (hs : I s)
    (hfixed : Fixed subject search.archive.coveredGoals members value I) :
    ∃ front search' fronts t, (SearchM.nonDominated subject members).run search = (.ok front, search') ∧
      (rankAll subject members search.archive.coveredGoals).run s = (.ok fronts, t) ∧
      Ranking.front? fronts 0 = some front := by
  have hfront : Yields I (Ranking.nonDominated (fitness subject) search.archive.coveredGoals [] members)
      (Id.run (Ranking.nonDominated value search.archive.coveredGoals [] members)) :=
    Ranking.yields_nonDominated fun g hg i hi => hfixed.fitness g hg i hi
  have hsearch : wp (SearchM.nonDominated subject members)
      (fun r _ => r = Id.run (Ranking.nonDominated value search.archive.coveredGoals [] members))
      (fun _ _ => False) search := by
    unfold SearchM.nonDominated
    rw [wp_bind, wp_get, SearchM.wp_onScene]
    exact wp_imp (hfront search.scene hI) fun _ _ hr => hr.1
  obtain ⟨_, search', hrun, rfl⟩ := exists_of_wp hsearch
  obtain ⟨_, t, hrank, rfl, -⟩ := exists_of_wp (hfixed.wp_rankAll hs)
  refine ⟨_, search', _, t, hrun, hrank, ?_⟩
  rw [Ranking.nonDominated_eq, Ranking.rank]
  rcases eq_or_ne members [] with rfl | hne
  · rfl
  · obtain ⟨n, hn⟩ := Nat.exists_eq_succ_of_ne_zero (List.length_pos_iff.2 hne).ne'
    rw [hn, Ranking.fronts_succ hne rfl, Ranking.front?_cons_zero]

/-- A search in which the three test cases are known by their values, and both goals are covered. -/
def unlikeMeasured : Search Statement Sample.World where
  scene := ((setAll unlike [0, 1, 2]).run threeUnmeasured).2
  archive := ⟨[.atom 0, .atom 1], [], [(.atom 0, 0), (.atom 1, 1)], []⟩

/-- The third is driven out by the second, and comes back behind the first, which drove out the second. -/
theorem front_of_nonDominated_unlike : ∃ search' fronts t,
    (SearchM.nonDominated (Sample.Parts.subject { goals := #[] }) [2, 1, 0, 2]).run unlikeMeasured =
      (.ok [0, 2], search') ∧
    (rankAll (Sample.Parts.subject { goals := #[] }) [2, 1, 0, 2] unlikeMeasured.archive.coveredGoals).run
      unlikeMeasured.scene = (.ok fronts, t) ∧
    Ranking.front? fronts 0 = some [0, 2] := by
  have hfixed : Fixed (Sample.Parts.subject { goals := #[] }) unlikeMeasured.archive.coveredGoals [2, 1, 0, 2]
      unlikeMeasured.scene.known (unlikeMeasured.scene.Keeps []) := by
    refine fixed_known fun i hi => ⟨?_, ?_, fun g hg => Option.isSome_iff_exists.1 ?_⟩
    · revert i; decide +kernel
    · revert i; decide +kernel
    · revert g i; decide +kernel
  obtain ⟨front, search', fronts, t, hrun, hrank, hfront⟩ :=
    front_of_nonDominated unlikeMeasured (.refl _ _) (.refl _ _) hfixed
  have hkept : ((SearchM.nonDominated (Sample.Parts.subject { goals := #[] }) [2, 1, 0, 2]).run
      unlikeMeasured).1.toOption = some [0, 2] := by decide +kernel
  rw [hrun] at hkept
  obtain rfl : front = _ := Option.some.inj hkept
  exact ⟨search', fronts, t, hrun, hrank, hfront⟩

end GoalSearch
