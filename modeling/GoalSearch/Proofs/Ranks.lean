import GoalSearch.Proofs.Aging
import GoalSearch.Proofs.Fronts
import GoalSearch.Proofs.Selection
import GoalSearch.Sample.Subject

/-!
# Ranks

Ranking tells every member the number of its front, also where it was told other numbers before
(`Individual.wp_rankAll`).
-/

namespace GoalSearch

open Dominance Peeling Scene

variable {σ ω : Type} {subject : Subject σ ω} {s t u : Scene σ ω} {i : Nat} {g : Goal}

/-! ### Ranking with fixed values -/

namespace Individual

/-- On every scene with `I` the members have fixed fitness values, whatever ranks they are given. -/
structure Fixed (subject : Subject σ ω) (goals : List Goal) (members : List Nat) (value : Goal → Nat → Float)
    (I : Scene σ ω → Prop) : Prop where
  inPool : ∀ s, I s → ∀ i ∈ members, i < s.pool.size
  fitness : ∀ g ∈ goals, ∀ i ∈ members, Yields I (fitness subject g i) (value g i)
  ranked : ∀ s, I s → ∀ i ∈ members, ∀ rank : Int, I (s.modify i fun x => { x with rank := rank })
  logged : ∀ s, I s → ∀ notice, I (s.logged notice)

variable {goals : List Goal} {members : List Nat} {value : Goal → Nat → Float} {I : Scene σ ω → Prop}

theorem strict_dominates (hnan : ∀ g ∈ goals, ∀ i ∈ members, ¬ Binary64.isNaN (value g i) = true) :
    Strict (Dominates value goals) members where
  irrefl i _ := Dominates.irrefl Binary64.lt_irrefl i
  trans _ _ j hj k hk := Dominates.trans (fun g hg => hnan g hg j hj) fun g hg => hnan g hg k hk

/-- Values that unchanged individuals know are fixed as long as these are left alone. -/
theorem fixed_of_keeps (hI : ∀ t, I t → s.Keeps [] t)
    (hranked : ∀ t, I t → ∀ i, ∀ rank : Int, I (t.modify i fun x => { x with rank := rank }))
    (hlogged : ∀ t, I t → ∀ notice, I (t.logged notice))
    (hm : ∀ i ∈ members, i < s.pool.size ∧ (goals ≠ [] → (s.individual i).changed = false) ∧
      ∀ g ∈ goals, ∃ v, (s.individual i).cache.get? g = some v) : Fixed subject goals members s.known I where
  inPool t ht i hi := Nat.lt_of_lt_of_le (hm i hi).1 (hI t ht).size_le
  fitness g hg i hi t ht := by
    obtain ⟨hsize, hchanged, hknown⟩ := hm i hi
    obtain ⟨v, hv⟩ := hknown g hg
    obtain ⟨-, hchanged', -, hcache⟩ := bare_eq_iff.1 ((hI t ht).bare i hsize (by simp))
    rw [wp_of_run_eq (run_fitness_of_known (hchanged'.trans (hchanged (List.ne_nil_of_mem hg))) (hcache ▸ hv))]
    exact ⟨by simp [Scene.known, knownFitness, hv], ht⟩
  ranked t ht i _ rank := hranked t ht i rank
  logged := hlogged

theorem fixed_known (hm : ∀ i ∈ members, i < s.pool.size ∧ (goals ≠ [] → (s.individual i).changed = false) ∧
    ∀ g ∈ goals, ∃ v, (s.individual i).cache.get? g = some v) :
    Fixed subject goals members s.known (s.Keeps []) :=
  fixed_of_keeps (fun _ ht => ht) (fun _ ht _ _ => ht.trans (.modify fun _ => rfl))
    (fun _ ht _ => ht.trans (.of_pool rfl)) hm

namespace Fixed
variable {front rest : List Nat} {k : Nat}

theorem yields_fitness (h : Fixed subject goals members value I) (s : Scene σ ω) :
    ∀ g ∈ goals, ∀ i ∈ members, Yields (fun t => I t ∧ s.Learns t) (GoalSearch.fitness subject g i) (value g i) := by
  rintro g hg i hi t ⟨ht, hlearns⟩
  refine wp_mono (wp_and (h.fitness g hg i hi t ht) (Keeps.iff_wp.1 (Learns.keeps_fitness g i) t hlearns)) ?_
    fun _ _ he => he.1
  rintro v u ⟨⟨hv, hu⟩, hlearns⟩
  exact ⟨hv, hu, hlearns⟩

/-- One pass tells those of the front their rank, and nobody else who is not passed. -/
theorem wp_nonDominatedFrom (h : Fixed subject goals members value I) (hs : I s) (hfront : front ⊆ members)
    (hrest : rest ⊆ members) (hranks : ∀ i ∈ front, (s.individual i).rank = k) :
    wp (Ranking.nonDominatedFrom (GoalSearch.fitness subject) goals (setRank · k) front rest)
      (fun r t => r = Id.run (Ranking.nonDominatedFrom value goals (fun _ => ()) front rest) ∧ I t ∧
        (∀ i ∈ r, (t.individual i).rank = k) ∧ ∀ i ∉ rest, (t.individual i).rank = (s.individual i).rank)
      (fun _ _ => False) s := by
  induction rest generalizing front s with
  | nil => exact ⟨rfl, hs, hranks, fun _ _ => rfl⟩
  | cons x rest ih =>
    obtain ⟨hx, hrest⟩ := List.cons_subset.1 hrest
    have hchallenge : Yields (fun t => I t ∧ s.Learns t)
        (Ranking.challenge (GoalSearch.fitness subject) goals x front)
        (Id.run (Ranking.challenge value goals x front)) :=
      Ranking.yields_challenge fun g hg y hy => h.yields_fitness s g hg y (List.cons_subset.2 ⟨hx, hfront⟩ hy)
    unfold Ranking.nonDominatedFrom
    refine wp_seq (hchallenge s ⟨hs, .refl s⟩) fun outcome t hpost => ?_
    obtain ⟨rfl, ht, hlearns⟩ := hpost
    rw [Id.run_bind]
    cases Id.run (Ranking.challenge value goals x front) with
    | none =>
      refine wp_imp (ih ht hfront hrest fun i hi => (hlearns.rank i).trans (hranks i hi)) fun r u hpost => ?_
      obtain ⟨hr, hu, hin, hout⟩ := hpost
      exact ⟨hr, hu, hin, fun i hi => (hout i fun hi' => hi (by simp [hi'])).trans (hlearns.rank i)⟩
    | some beaten =>
      have hxt : (t.modify x fun y => { y with rank := (k : Int) }).individual x = { t.individual x with rank := k } :=
        individual_modify_self (h.inPool t ht x hx)
      dsimp only
      rw [wp_bind]
      show wp (Ranking.nonDominatedFrom _ _ _ _ _) _ _ (t.modify x fun y => { y with rank := (k : Int) })
      refine wp_imp (ih (h.ranked t ht x hx k) ?_ hrest fun i hi => ?_) fun r u hpost => ?_
      · exact List.append_subset.2 ⟨fun y hy => hfront (List.mem_filter.1 hy).1, by simpa using hx⟩
      · by_cases hix : x = i
        · rw [← hix, hxt]
        · rw [individual_modify_ne hix, hlearns.rank]
          simp only [List.mem_append, List.mem_filter, List.mem_singleton] at hi
          exact hranks i (hi.resolve_right fun e => hix e.symm).1
      · obtain ⟨hr, hu, hin, hout⟩ := hpost
        refine ⟨hr, hu, hin, fun i hi => ?_⟩
        rw [List.mem_cons, not_or] at hi
        rw [hout i hi.2, individual_modify_ne fun e => hi.1 e.symm, hlearns.rank]

/-- Pass by pass the members are told the numbers of their fronts; what an earlier pass told one that it did not
keep is overwritten. -/
theorem wp_fronts (h : Fixed subject goals members value I) (hs : I s) (hrest : rest ⊆ members) {fuel : Nat} :
    wp (Ranking.fronts (GoalSearch.fitness subject) goals setRank fuel k rest)
      (fun fronts t => fronts = Id.run (Ranking.fronts value goals (fun _ _ => ()) fuel k rest) ∧ I t ∧
        (∀ (j : Nat) (front : List Nat), fronts[j]? = some front → ∀ i ∈ front, (t.individual i).rank = k + j) ∧
        ∀ i ∉ rest, (t.individual i).rank = (s.individual i).rank)
      (fun _ _ => False) s := by
  induction fuel generalizing k rest s with
  | zero => exact ⟨rfl, hs, by simp, fun _ _ => rfl⟩
  | succ fuel ih =>
    unfold Ranking.fronts
    split
    · exact ⟨rfl, hs, by simp, fun _ _ => rfl⟩
    · refine wp_seq (h.wp_nonDominatedFrom hs (List.nil_subset _) hrest (by simp)) fun front t hpost => ?_
      obtain ⟨rfl, ht, hin, hout⟩ := hpost
      refine wp_seq (ih (k := k + 1) ht (List.Subset.trans (List.filter_subset_self _) hrest)) fun others u hpost => ?_
      obtain ⟨rfl, hu, hin', hout'⟩ := hpost
      refine ⟨rfl, hu, fun j front hj i hi => ?_, fun i hi => ?_⟩
      · cases j with
        | zero =>
          -- later passes leave the first front alone
          rw [List.getElem?_cons_zero, Option.some.injEq] at hj
          subst hj
          rw [hout' i (by simp [hi]), hin i hi]
          simp
        | succ j =>
          rw [hin' j front hj i hi]
          omega
      · rw [hout' i fun hi' => hi (List.mem_filter.1 hi').1, hout i hi]

theorem wp_rankAll (h : Fixed subject goals members value I) (hs : I s) :
    wp (rankAll subject members goals)
      (fun fronts t => fronts = Id.run (Ranking.rank value goals (fun _ _ => ()) members) ∧ I t ∧
        ∀ (k : Nat) (front : List Nat), fronts[k]? = some front → ∀ i ∈ front, (t.individual i).rank = k)
      (fun _ _ => False) s := by
  unfold rankAll
  split
  · rename_i hempty
    rw [List.isEmpty_iff.1 hempty, wp_bind]
    exact ⟨rfl, h.logged s hs _, by simp⟩
  · unfold Ranking.rank
    refine wp_seq (h.wp_fronts hs (List.Subset.refl _)) fun fronts t hpost => ?_
    obtain ⟨rfl, ht, hin, -⟩ := hpost
    rw [wp_bind]
    refine ⟨rfl, h.logged t ht _, fun k front hk i hi => ?_⟩
    have hrank := hin k front hk i hi
    rwa [Int.natCast_zero, Int.zero_add] at hrank

theorem mono (h : Fixed subject goals members value I) {goals' : List Goal} {members' : List Nat}
    (hgoals : goals' ⊆ goals) (hmembers : members' ⊆ members) : Fixed subject goals' members' value I where
  inPool s hs i hi := h.inPool s hs i (hmembers hi)
  fitness g hg i hi := h.fitness g (hgoals hg) i (hmembers hi)
  ranked s hs i hi := h.ranked s hs i (hmembers hi)
  logged := h.logged

/-- Ranking peels the members, and tells each of them the number of its front. -/
theorem exists_peels (h : Fixed subject goals members value I) (hs : I s)
    (hnan : ∀ g ∈ goals, ∀ i ∈ members, ¬ Binary64.isNaN (value g i) = true) :
    ∃ fronts t, (rankAll subject members goals).run s = (.ok fronts, t) ∧
      Peels (Dominates value goals) fronts members ∧
      ∀ (k : Nat) (front : List Nat), fronts[k]? = some front → ∀ i ∈ front, (t.individual i).rank = k := by
  obtain ⟨_, t, hrun, rfl, -, hranks⟩ := exists_of_wp (h.wp_rankAll hs)
  exact ⟨_, t, hrun, Ranking.peels_rank (strict_dominates hnan), hranks⟩

end Fixed

/-- Ranking members with fixed fitness gives the fronts of the naive definition: each front holds, in the order of
the members and as often as they occur, those members in no front before it that no other such member dominates.
So the fronts are not empty, partition the members, and have no dominance inside; every member of a later front is
dominated by one of the front before; and every member is told the number of its front as its rank. -/
theorem fronts_of_rankAll (hfixed : Fixed subject goals members value I)
    (hnan : ∀ g ∈ goals, ∀ i ∈ members, ¬ Binary64.isNaN (value g i) = true) (hs : I s) :
    ∃ fronts t, (rankAll subject members goals).run s = (.ok fronts, t) ∧
      (∀ (k : Nat) (front : List Nat), fronts[k]? = some front →
        front = undominated (Dominates value goals) (left (fronts.take k) members)) ∧
      (∀ front ∈ fronts, front ≠ []) ∧ fronts.flatten.Perm members ∧ fronts.Pairwise List.Disjoint ∧
      (∀ front ∈ fronts, ∀ i ∈ front, ∀ j ∈ front, ¬ Dominates value goals i j) ∧
      (∀ (k : Nat) (front next : List Nat), fronts[k]? = some front → fronts[k + 1]? = some next →
        ∀ j ∈ next, ∃ i ∈ front, Dominates value goals i j) ∧
      ∀ (k : Nat) (front : List Nat), fronts[k]? = some front → ∀ i ∈ front, (t.individual i).rank = k := by
  have hdom := strict_dominates hnan
  obtain ⟨fronts, t, hrun, hpeels, hranks⟩ := hfixed.exists_peels hs hnan
  refine ⟨fronts, t, hrun, fun k front hk => hpeels.front_eq hk, hpeels.ne_nil hdom, hpeels.flatten_perm,
    hpeels.disjoint, fun front hfront i hi j hj => ?_,
    fun k front next hk hnext j hj => hpeels.exists_dominating hdom hk hnext hj, hranks⟩
  obtain ⟨k, hk⟩ := List.mem_iff_getElem?.1 hfront
  exact hpeels.not_dom hk hi hj

/-- Five test cases with their fitness for two goals. -/
def fiveMeasured : Scene Statement Sample.World where
  pool := #[(2.0, 2.0), (1.0, 3.0), (1.0, 1.0), (3.0, 3.0), (0.0, 5.0)].map fun (x, y) =>
    { content := .testCase [] none, changed := false, cache := [(.atom 0, x), (.atom 1, y)] }
  outside := { generator := .scripted ⟨#[], #[], #[], 0, 0, 0⟩ }
  log := #[]

theorem fixed_fiveMeasured : Fixed (Sample.Parts.subject { goals := #[] }) [.atom 0, .atom 1] [3, 0, 1, 2, 0, 4]
    fiveMeasured.known (fiveMeasured.Keeps []) := by
  refine fixed_known fun i hi => ⟨?_, ?_, fun g hg => Option.isSome_iff_exists.1 ?_⟩
  · revert i; decide +kernel
  · revert i; decide +kernel
  · revert g i; decide +kernel

/-- The fourth and the first are first in the front, before others drive them out. -/
theorem fronts_of_rankAll_five : ∃ t,
    (rankAll (Sample.Parts.subject { goals := #[] }) [3, 0, 1, 2, 0, 4] [.atom 0, .atom 1]).run fiveMeasured =
      (.ok [[2, 4], [0, 1, 0], [3]], t) ∧
    Dominates fiveMeasured.known [.atom 0, .atom 1] 2 1 ∧ (t.individual 0).rank = 1 ∧ (t.individual 3).rank = 2 := by
  obtain ⟨fronts, t, hrun, -, -, -, -, -, -, hranks⟩ := fronts_of_rankAll fixed_fiveMeasured
    (by decide +kernel) (.refl _ _)
  have hfronts : ((rankAll (Sample.Parts.subject { goals := #[] }) [3, 0, 1, 2, 0, 4] [.atom 0, .atom 1]).run
      fiveMeasured).1.toOption = some [[2, 4], [0, 1, 0], [3]] := by decide +kernel
  rw [hrun] at hfronts
  obtain rfl : fronts = _ := Option.some.inj hfronts
  exact ⟨t, hrun, by decide +kernel, hranks 1 _ rfl 0 (by simp), hranks 2 _ rfl 3 (by simp)⟩

/-- The rank of a member is the length of the longest chain of members that dominate each other up to it. So the
order of the members and of the goals does not matter: ranking them in another order tells every member the same
rank, and makes fronts of the same members. -/
theorem isGreatest_rank (hfixed : Fixed subject goals members value I)
    (hnan : ∀ g ∈ goals, ∀ i ∈ members, ¬ Binary64.isNaN (value g i) = true) (hs : I s) :
    ∃ fronts t, (rankAll subject members goals).run s = (.ok fronts, t) ∧
      (∀ i ∈ members, ∃ k : Nat, (t.individual i).rank = k ∧
        IsGreatest (chainLengths (Dominates value goals) members i) k ∧
        (k = 0 ↔ ∀ j ∈ members, ¬ Dominates value goals j i)) ∧
      ∀ members' goals' s', members'.Perm members → goals'.Perm goals → I s' →
        ∃ fronts' t', (rankAll subject members' goals').run s' = (.ok fronts', t') ∧
          (∀ i ∈ members, (t'.individual i).rank = (t.individual i).rank) ∧
          fronts'.length = fronts.length ∧
          ∀ (k : Nat) (front front' : List Nat), fronts[k]? = some front → fronts'[k]? = some front' →
            ∀ i, i ∈ front' ↔ i ∈ front := by
  have hdom := strict_dominates hnan
  obtain ⟨fronts, t, hrun, hpeels, hranks⟩ := hfixed.exists_peels hs hnan
  refine ⟨fronts, t, hrun, fun i hi => ?_, fun members' goals' s' hmembers hgoals hs' => ?_⟩
  · obtain ⟨k, front, hk, hi'⟩ := hpeels.exists_front hi
    exact ⟨k, hranks k front hk i hi', hpeels.isGreatest hdom hk hi', hpeels.eq_zero_iff hdom hk hi'⟩
  · obtain ⟨fronts', t', hrun', hpeels', hranks'⟩ := (hfixed.mono hgoals.subset hmembers.subset).exists_peels hs'
      fun g hg i hi => hnan g (hgoals.subset hg) i (hmembers.subset hi)
    -- both are peelings of one relation, since the order of the goals does not matter to dominance
    replace hpeels' : Peels (Dominates value goals) fronts' members' :=
      hpeels'.congr fun i j => Dominates.congr fun g => hgoals.mem_iff
    refine ⟨fronts', t', hrun', fun i hi => ?_, le_antisymm ?_ ?_, fun k front front' hk hk' i => ?_⟩
    · obtain ⟨k, front, hk, hi⟩ := hpeels.exists_front hi
      obtain ⟨front', hk', hi'⟩ := hpeels.exists_front_of_perm hdom hpeels' hmembers hk hi
      rw [hranks k front hk i hi, hranks' k front' hk' i hi']
    · exact hpeels'.length_le_of_perm (hdom.mono hmembers.subset) hpeels hmembers.symm
    · exact hpeels.length_le_of_perm hdom hpeels' hmembers
    · exact (hpeels.mem_iff_of_perm hdom hpeels' hmembers hk hk').symm

/-- The fourth test case ends a chain of three, whatever the order of the test cases and the goals. -/
theorem isGreatest_rank_five : ∃ fronts t fronts' t',
    (rankAll (Sample.Parts.subject { goals := #[] }) [3, 0, 1, 2, 0, 4] [.atom 0, .atom 1]).run fiveMeasured =
      (.ok fronts, t) ∧
    (rankAll (Sample.Parts.subject { goals := #[] }) [4, 2, 0, 3, 1, 0] [.atom 1, .atom 0]).run fiveMeasured =
      (.ok fronts', t') ∧
    (t.individual 3).rank = 2 ∧ 2 ∈ chainLengths (Dominates fiveMeasured.known [.atom 0, .atom 1])
      [3, 0, 1, 2, 0, 4] 3 ∧ (t'.individual 3).rank = 2 ∧ fronts'.length = fronts.length := by
  obtain ⟨fronts, t, hrun, hchains, hlearns⟩ := isGreatest_rank fixed_fiveMeasured (by decide +kernel) (.refl _ _)
  obtain ⟨fronts', t', hrun', hranks, hlength, -⟩ := hlearns [4, 2, 0, 3, 1, 0] [.atom 1, .atom 0] fiveMeasured
    (by decide) (by decide) (.refl _ _)
  have hrank : (((rankAll (Sample.Parts.subject { goals := #[] }) [3, 0, 1, 2, 0, 4] [.atom 0, .atom 1]).run
      fiveMeasured).2.individual 3).rank = 2 := by decide +kernel
  have hthird : (t.individual 3).rank = 2 := by rw [hrun] at hrank; exact hrank
  obtain ⟨k, hk, hgreatest, -⟩ := hchains 3 (by decide)
  obtain rfl : k = 2 := Int.ofNat_inj.1 (hk.symm.trans hthird)
  exact ⟨fronts, t, fronts', t', hrun, hrun', hthird, hgreatest.1, (hranks 3 (by decide)).trans hthird, hlength⟩

end Individual

end GoalSearch
