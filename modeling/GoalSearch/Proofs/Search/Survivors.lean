import GoalSearch.Proofs.Crowding
import GoalSearch.Search.Evolution

/-!
# Nobody better is left out

Survivors without a reserved place are taken front by front, and from the front that is cut by their distances. So
whoever is left out has a higher rank, or the same rank and no larger distance, and does not dominate them
(`ranked_of_selectSurvivors`).
-/

namespace GoalSearch

namespace Survival
variable {ι : Type} [DecidableEq ι] {dist : ι → Float} {members reserved : List ι}

omit [DecidableEq ι] in
/-- By distance nobody stands behind one that is nearer. -/
theorem pairwise_byDistance (hd : ∀ y ∈ members, ¬ Binary64.isNaN (dist y) = true) :
    (Id.run (byDistance dist members)).Pairwise fun a b => ¬ dist a < dist b := by
  have horders := Crowding.orders_of_not_nan (l := members.map fun x => (x, dist x)) fun p hp => by
    obtain ⟨y, hy, rfl⟩ := List.mem_map.1 hp
    exact hd y hy
  have hpairs : ∀ p ∈ Sorting.sortDescending (fun a b => decide (a.2 < b.2)) (members.map fun x => (x, dist x)),
      p.2 = dist p.1 := by
    intro p hp
    obtain ⟨y, -, rfl⟩ := List.mem_map.1 ((Sorting.sortDescending_perm _ _).mem_iff.1 hp)
    rfl
  rw [byDistance_eq, List.pairwise_map]
  refine (Sorting.sorted_sortDescending horders).imp_of_mem fun {p q} hp hq hpq => ?_
  rw [← hpairs p hp, ← hpairs q hq]
  exact of_decide_eq_false hpq

/-- Whoever gets a place stands in an earlier front than one who gets none, or is no nearer. -/
theorem exists_fronts_of_mem_fill {places : Nat} {fronts : List (List ι)}
    (hd : ∀ y ∈ fronts.flatten, ¬ Binary64.isNaN (dist y) = true) {x d : ι}
    (hx : x ∈ Id.run (fill dist reserved places fronts)) (hout : d ∉ Id.run (fill dist reserved places fronts))
    (hmem : d ∈ fronts.flatten) (hfree : d ∉ reserved) :
    ∃ (j k : Nat) (front next : List ι), fronts[j]? = some front ∧ x ∈ front ∧ fronts[k]? = some next ∧ d ∈ next ∧
      (j < k ∨ j = k ∧ ¬ dist x < dist d) := by
  induction fronts generalizing places with
  | nil => cases hmem
  | cons front fronts ih =>
    cases places with
    | zero => cases hx
    | succ places =>
      have hlater : ∀ d ∈ fronts.flatten,
          ∃ (k : Nat) (next : List ι), (front :: fronts)[k + 1]? = some next ∧ d ∈ next := by
        intro d hd
        obtain ⟨next, hnext, hd⟩ := List.mem_flatten.1 hd
        obtain ⟨k, hk⟩ := List.mem_iff_getElem?.1 hnext
        exact ⟨k, next, by simpa using hk, hd⟩
      rw [List.flatten_cons, List.mem_append] at hmem
      unfold fill at hx hout
      dsimp only at hx hout
      split at hx
      · -- the whole front fits in
        rename_i hfits
        rw [if_pos hfits] at hout
        rw [Id.run_bind, Id.run_pure, List.mem_append] at hx hout
        rw [not_or] at hout
        replace hmem : d ∈ fronts.flatten := hmem.resolve_left fun h => hout.1 (List.mem_filter.2 ⟨h, by simpa⟩)
        rcases hx with hx | hx
        · obtain ⟨k, next, hk, hd⟩ := hlater d hmem
          exact ⟨0, k + 1, front, next, rfl, (List.mem_filter.1 hx).1, hk, hd, .inl (Nat.succ_pos k)⟩
        · obtain ⟨j, k, first, next, hj, hx, hk, hd, h⟩ := ih (fun y hy => hd y (by simp [hy])) hx hout.2 hmem
          refine ⟨j + 1, k + 1, first, next, by simpa using hj, hx, by simpa using hk, hd, ?_⟩
          exact h.imp Nat.succ_lt_succ fun hsame => ⟨congrArg Nat.succ hsame.1, hsame.2⟩
      · rename_i hfits
        rw [if_neg hfits] at hout
        rw [Id.run_bind, Id.run_pure] at hx hout
        have hfront : x ∈ front := (List.mem_filter.1 (byDistance_perm.subset (List.take_subset _ _ hx))).1
        rcases hmem with hmem | hmem
        · -- both stand in the front that is cut
          have hsorted : (Id.run (byDistance dist (front.filter (· ∉ reserved)))).Pairwise
              fun a b => ¬ dist a < dist b :=
            pairwise_byDistance fun y hy => hd y (by simp [(List.mem_filter.1 hy).1])
          have hd : d ∈ Id.run (byDistance dist (front.filter (· ∉ reserved))) :=
            byDistance_perm.mem_iff.2 (List.mem_filter.2 ⟨hmem, by simpa⟩)
          rw [← List.take_append_drop (places + 1) (Id.run (byDistance dist (front.filter (· ∉ reserved))))]
            at hsorted hd
          have hrest := (List.mem_append.1 hd).resolve_left hout
          exact ⟨0, 0, front, front, rfl, hfront, rfl, hmem,
            .inr ⟨rfl, (List.pairwise_append.1 hsorted).2.2 x hx d hrest⟩⟩
        · obtain ⟨k, next, hk, hd⟩ := hlater d hmem
          exact ⟨0, k + 1, front, next, rfl, hfront, hk, hd, .inl (Nat.succ_pos k)⟩

open Dominance in
/-- Over fronts that were peeled off, who gets a place has the lower rank, or the same rank and no smaller distance
than one who gets none, and is not dominated by the other one. -/
theorem better_of_mem_fill {value : Goal → ι → Float} {goals : List Goal} (rank : ι → Int) {places : Nat}
    {fronts : List (List ι)} (hpeels : Peeling.Peels (Dominates value goals) fronts members)
    (hranks : ∀ (k : Nat) (front : List ι), fronts[k]? = some front → ∀ i ∈ front, rank i = k)
    (hdist : ∀ y ∈ members, ¬ Binary64.isNaN (dist y) = true) {x d : ι}
    (hx : x ∈ Id.run (fill dist reserved places fronts)) (hout : d ∉ Id.run (fill dist reserved places fronts))
    (hmem : d ∈ members) (hfree : d ∉ reserved) :
    (rank x < rank d ∨ rank x = rank d ∧ dist d ≤ dist x) ∧ ¬ Dominates value goals d x := by
  obtain ⟨j, k, front, next, hj, hxj, hk, hdk, hbetter⟩ := exists_fronts_of_mem_fill
    (fun y hy => hdist y (hpeels.flatten_perm.mem_iff.1 hy)) hx hout (hpeels.flatten_perm.mem_iff.2 hmem) hfree
  have hrank := hranks k next hk d hdk
  rw [hranks j front hj x hxj, hrank]
  constructor
  · rcases hbetter with hlt | ⟨rfl, hnear⟩
    · exact .inl (Int.ofNat_lt.2 hlt)
    · exact .inr ⟨rfl, Binary64.le_of_not_lt (hdist d hmem) (hdist x (hpeels.front_subset hj hxj)) hnear⟩
  · intro hdom
    -- who dominates stands in an earlier front
    obtain ⟨l, hl, before, hbefore, hdl⟩ := hpeels.exists_front_lt hj hxj hmem hdom
    have hearlier := hranks l before hbefore d hdl
    rw [hrank] at hearlier
    omega

end Survival

open Dominance

variable {σ ω : Type} {setup : Setup σ ω} {s : Search σ ω} {members : List Nat} {goals : List Goal}

/-- Whatever the places, after ranking and crowding of members with known fitness nobody is left out who has a lower
rank than a survivor without a reserved place, or the same rank and a larger distance. So nobody who is left out
dominates such a survivor. -/
theorem ranked_of_selectSurvivors
    (hm : ∀ i ∈ members, i < s.scene.pool.size ∧ (s.scene.individual i).Informed goals) :
    ∃ fronts t reserved rest,
      (SearchM.computeDominance setup.subject members goals).run s = (.ok fronts, t) ∧
      (SearchM.selectSurvivors setup members fronts goals).run t = (.ok (reserved ++ rest), t) ∧
      (setup.options.reserveBestPerGoal = true →
        (Survival.reserve (fitness setup.subject) Individual.distanceOf members goals setup.options.population).run
          t.scene = (.ok reserved, t.scene)) ∧
      (setup.options.reserveBestPerGoal = false → reserved = []) ∧
      (∀ g ∈ goals, ∀ i ∈ members, (fitness setup.subject g i).run t.scene = (.ok (s.scene.known g i), t.scene)) ∧
      ∀ i ∈ reserved ++ rest, i ∉ reserved → ∀ d ∈ members, d ∉ reserved ++ rest →
        ((t.scene.individual i).rank < (t.scene.individual d).rank ∨
          (t.scene.individual i).rank = (t.scene.individual d).rank ∧
            (t.scene.individual d).distance ≤ (t.scene.individual i).distance) ∧
        ¬ Dominates s.scene.known goals d i := by
  obtain ⟨fronts, u, hrun, hu, hpeels, hranks, hdistances⟩ :=
    exists_of_wp (@Scene.wp_rankAndCrowd _ _ setup.subject _ _ _ hm)
  -- what was known before is known thereafter
  have hinformed : ∀ i ∈ members, (u.individual i).Informed goals := fun i hi =>
    (hm i hi).2.of_bare (hu.keeps.bare i (hm i hi).1 (by simp))
  have hknown : ∀ i ∈ members, ∀ g, u.known g i = s.scene.known g i := fun i hi g =>
    Individual.knownFitness_of_bare (hu.keeps.bare i (hm i hi).1 (by simp))
  have hdist : ∀ i ∈ members, ¬ Binary64.isNaN (u.individual i).distance = true := fun i hi =>
    (Binary64.not_nan_of_le (hdistances i hi)).2
  let t : Search σ ω := { s with phase := .ranking, scene := u }
  let reserved : List Nat := Survival.privileged u.known (fun i => (u.individual i).distance)
    setup.options.reserveBestPerGoal setup.options.population members goals
  let rest : List Nat := Id.run (Survival.fill (fun i => (u.individual i).distance) reserved
    (setup.options.population - reserved.length).toNat fronts)
  have hcompute : (SearchM.computeDominance setup.subject members goals).run s = (.ok fronts, t) := by
    refine run_eq_of_wp ?_
    unfold SearchM.computeDominance
    rw [wp_bind, SearchM.wp_enter, SearchM.wp_onScene, wp_of_run_eq hrun]
    exact ⟨rfl, rfl⟩
  have hselect : (SearchM.selectSurvivors setup members fronts goals).run t = (.ok (reserved ++ rest), t) := by
    refine run_eq_of_wp ?_
    unfold SearchM.selectSurvivors
    rw [SearchM.wp_onScene, wp_of_run_eq (Scene.run_survivors hinformed), Survival.survivors_eq]
    exact ⟨rfl, rfl⟩
  refine ⟨fronts, t, reserved, rest, hcompute, hselect, fun hreserve => ?_, fun hreserve => ?_,
    fun g hg i hi => ?_, fun i hi hfree d hd hout => ?_⟩
  · rw [show reserved = _ from if_pos hreserve]
    refine (Survival.yields_reserve (fun g hg i hi => .of_run_eq ((hinformed i hi).run_fitness hg))
      fun i _ => ?_).run_eq
    rintro _ rfl
    exact ⟨rfl, rfl⟩
  · exact if_neg (by simp [hreserve])
  · rw [← hknown i hi]
    exact (hinformed i hi).run_fitness hg
  · rw [List.mem_append, not_or] at hout
    exact Survival.better_of_mem_fill (fun i => (u.individual i).rank) hpeels hranks hdist
      ((List.mem_append.1 hi).resolve_left hfree) hout.2 hd hout.1

/-- Two places are reserved, and the third is left to the second front. -/
def threePlaces : Setup Statement Sample.World where
  subject := Sample.Parts.subject { goals := #[] }
  strategy := .static
  options := { population := 3 }
  tournamentSize := 2
  trivial _ := false

/-- Of the second front the first test case survives and the second one is left out, like the fourth behind it. -/
theorem ranked_of_selectSurvivors_five : ∃ t,
    (SearchM.selectSurvivors threePlaces [3, 0, 1, 2, 4] [[2, 4], [0, 1], [3]] [.atom 0, .atom 1]).run t =
      (.ok [4, 2, 0], t) ∧
    ∀ d ∈ [1, 3], ((t.scene.individual 0).rank < (t.scene.individual d).rank ∨
        (t.scene.individual 0).rank = (t.scene.individual d).rank ∧
          (t.scene.individual d).distance ≤ (t.scene.individual 0).distance) ∧
      ¬ Dominates Individual.fiveMeasured.known [.atom 0, .atom 1] d 0 := by
  let s : Search Statement Sample.World := { scene := Individual.fiveMeasured }
  have hm : ∀ i ∈ [3, 0, 1, 2, 4],
      i < s.scene.pool.size ∧ (s.scene.individual i).Informed [.atom 0, .atom 1] := by
    refine fun i hi => ⟨?_, ?_, fun g hg => ⟨(s.scene.individual i).knownFitness g, ?_, ?_⟩⟩
    · revert i; decide +kernel
    · revert i; decide +kernel
    · revert g i; decide +kernel
    · revert g i; decide +kernel
  obtain ⟨fronts, t, reserved, rest, hcompute, hselect, hreserve, -, -, hbetter⟩ :=
    @ranked_of_selectSurvivors _ _ threePlaces s _ _ hm
  have hfronts : ((SearchM.computeDominance threePlaces.subject [3, 0, 1, 2, 4] [.atom 0, .atom 1]).run s).1.toOption =
      some [[2, 4], [0, 1], [3]] := by decide +kernel
  rw [hcompute] at hfronts
  obtain rfl : fronts = _ := Option.some.inj hfronts
  obtain rfl : ((SearchM.computeDominance threePlaces.subject [3, 0, 1, 2, 4] [.atom 0, .atom 1]).run s).2 = t := by
    rw [hcompute]
  have hselected := congrArg (fun r => r.1.toOption) hselect
  have hreserved := congrArg (fun r => r.1.toOption) (hreserve rfl)
  obtain rfl : [4, 2] = reserved := Option.some.inj (Eq.trans (by decide +kernel) hreserved)
  have hrest : [4, 2, 0] = [4, 2] ++ rest := Option.some.inj (Eq.trans (by decide +kernel) hselected)
  rw [← hrest] at hselect hbetter
  refine ⟨_, hselect, fun d hd => hbetter 0 (by decide) (by decide) d ?_ ?_⟩
  · revert d; decide
  · revert d; decide

end GoalSearch
