import GoalSearch.Proofs.Number.Arithmetic
import GoalSearch.Proofs.Ranks

/-!
# Distances

Among members with known fitness crowding gives everybody a distance that is a number from zero on
(`Scene.wp_rankAndCrowd`): gaps between neighbours in a sorted front are not negative, and the span they are divided
by is not zero. So the distances of a front are ordered, infinite ones among them.
-/

namespace GoalSearch

variable {σ ω : Type} {subject : Subject σ ω} {s t u : Scene σ ω} {goals : List Goal} {members front done : List Nat}

/-! ### Gaps -/

namespace Crowding
variable {ι : Type} {l : List (ι × Float)}

theorem orders_of_not_nan (h : ∀ p ∈ l, ¬ Binary64.isNaN p.2 = true) :
    Sorting.Orders (fun a b => decide (a.2 < b.2)) l where
  asymm _ _ _ _ hab := decide_eq_false fun hba =>
    Binary64.lt_irrefl _ (Binary64.lt_trans (of_decide_eq_true hab) hba)
  trans _ _ b hb _ _ hab hbc := decide_eq_false fun hca =>
    of_decide_eq_false hbc (Binary64.lt_of_lt_of_not_lt (h b hb) hca (of_decide_eq_false hab))

/-- The first of a sorted list is not above the last. -/
theorem head?_le_getLast? {less : ι × Float → ι × Float → Bool} (h : Sorting.Sorted less l) {first last : ι × Float}
    (hfirst : first ∈ l.head?) (hlast : last ∈ l.getLast?) : first = last ∨ less last first = false := by
  cases l with
  | nil => cases hfirst
  | cons x l =>
    obtain rfl : x = first := Option.some.inj hfirst
    rcases List.mem_cons.1 (List.mem_of_getLast? hlast) with rfl | hmem
    · exact .inl rfl
    · exact .inr ((List.pairwise_cons.1 h).1 last hmem)

/-- In a sorted list of values in range the gaps are not negative. -/
theorem gapsKeep_nonneg {value : Goal → ι → Float} {front : List ι} {g : Goal}
    (h : ∀ y ∈ front, Fitness.InRange (value g y)) :
    GapsKeep (0.0 ≤ ·) (Sorting.sort (fun a b => decide (a.2 < b.2)) (front.map fun y => (y, value g y))) := by
  have hrange : ∀ p ∈ Sorting.sort (fun a b => decide (a.2 < b.2)) (front.map fun y => (y, value g y)),
      Fitness.InRange p.2 := by
    intro p hp
    obtain ⟨y, hy, rfl⟩ := List.mem_map.1 ((Sorting.sort_perm _ _).mem_iff.1 hp)
    exact h y hy
  have hsorted := Sorting.sorted_sort (orders_of_not_nan (l := front.map fun y => (y, value g y)) fun p hp => by
    exact (hrange p ((Sorting.sort_perm _ _).mem_iff.2 hp)).not_nan)
  intro first hfirst last hlast hne before x behind htriple d hd
  have hsub := sublist_of_mem_triples htriple
  have hbefore := hrange before (hsub.subset (by simp))
  have hbehind := hrange behind (hsub.subset (by simp))
  have hfirst' := hrange first (List.mem_of_head? hfirst)
  have hlast' := hrange last (List.mem_of_getLast? hlast)
  have hgap : before.2 ≤ behind.2 := Binary64.le_of_not_lt hbefore.not_nan hbehind.not_nan
    (of_decide_eq_false ((List.pairwise_cons.1 (hsorted.sublist hsub)).1 behind (by simp)))
  have hspan : first.2 < last.2 := by
    by_contra hlt
    have hle : ¬ last.2 < first.2 := by
      rcases head?_le_getLast? hsorted hfirst hlast with rfl | hle
      · exact Binary64.lt_irrefl _
      · exact of_decide_eq_false hle
    exact hne (Binary64.beq_of_not_lt hlast'.not_nan hfirst'.not_nan hle hlt)
  obtain ⟨hpos, hfinite⟩ := Binary64.sub_pos hfirst'.nonneg hspan hlast'.lt_infinity
  exact Binary64.add_nonneg hd
    (Binary64.div_nonneg (Binary64.sub_nonneg hbefore.nonneg hgap hbehind.lt_infinity) hpos hfinite)

end Crowding

/-! ### Ranking and crowding of a scene -/

namespace Scene

/-- On the way from `s` the members got their ranks in `u`, and those in `done` their distances thereafter. -/
structure Spread (s u : Scene σ ω) (done : List Nat) (t : Scene σ ω) : Prop where
  noted : s.Noted t
  rank : ∀ i, (t.individual i).rank = (u.individual i).rank
  nonneg : ∀ i ∈ done, 0.0 ≤ (t.individual i).distance

theorem Spread.setDistance (h : Spread s u done t) {i : Nat} (hi : i < s.pool.size) {d : Float} (hd : 0.0 ≤ d) :
    Spread s u (done ++ [i]) (t.modify i fun x => { x with distance := d }) where
  noted := h.noted.modify fun _ => rfl
  rank j := by
    rcases t.individual_modify i j fun x => { x with distance := d } with e | e
    · rw [e]
      exact h.rank j
    · rw [e]
      exact h.rank j
  nonneg j hj := by
    by_cases hij : i = j
    · subst hij
      rw [individual_modify_self (Nat.lt_of_lt_of_le hi h.noted.keeps.size_le)]
      exact hd
    · rw [individual_modify_ne hij]
      exact h.nonneg j (by simpa [Ne.symm hij] using hj)

theorem Spread.mono (h : Spread s u done t) {done' : List Nat} (hsub : done' ⊆ done) : Spread s u done' t :=
  ⟨h.noted, h.rank, fun i hi => h.nonneg i (hsub hi)⟩

theorem yields_known {I : Scene σ ω → Prop} (hI : ∀ t, I t → s.Noted t)
    (hm : ∀ i ∈ members, i < s.pool.size ∧ (s.individual i).Informed goals) :
    ∀ g ∈ goals, ∀ i ∈ members, Yields I (fitness subject g i) (s.known g i) := by
  intro g hg i hi t ht
  obtain ⟨hsize, hinformed⟩ := hm i hi
  have hbare := (hI t ht).keeps.bare i hsize (by simp)
  rw [wp_of_run_eq ((hinformed.of_bare hbare).run_fitness hg), Individual.knownFitness_of_bare hbare]
  exact ⟨rfl, ht⟩

/-- A front gets its distances. -/
theorem Spread.wp_assignDistances (h : Spread s u done t)
    (hm : ∀ i ∈ front, i < s.pool.size ∧ (s.individual i).Informed goals) :
    wp (Individual.assignDistances subject front goals) (fun _ => Spread s u (done ++ front)) (fun _ _ => False) t := by
  refine Crowding.wp_assign (I := Spread s u (done ++ front)) (0.0 ≤ ·) ?_ (fun i hi d hd t ht => ?_)
    (fun i hi t ht => ?_) (yields_known (fun _ ht => ht.noted) hm) (by decide +kernel) fun g hg => ?_
  · refine wp_forM (I := fun l => Spread s u (done ++ l)) (fun l i rest hl t ht => ?_) (by simpa using h)
    have hi : i < s.pool.size := (hm i (by simp [hl])).1
    rw [← List.append_assoc]
    exact ht.setDistance hi (by decide +kernel)
  · exact ⟨rfl, (ht.setDistance (hm i hi).1 hd).mono (List.subset_append_left _ _)⟩
  · exact ⟨ht.nonneg i (by simp [hi]), ht⟩
  · exact Crowding.gapsKeep_nonneg fun i hi => (hm i hi).2.inRange hg

/-- Ranking and crowding peel informed members into fronts, tell each the number of its front, and give each a
distance from zero on. -/
theorem wp_rankAndCrowd (hm : ∀ i ∈ members, i < s.pool.size ∧ (s.individual i).Informed goals) :
    wp (Individual.rankAndCrowd subject members goals)
      (fun fronts t => s.Noted t ∧ Peeling.Peels (Dominance.Dominates s.known goals) fronts members ∧
        (∀ (k : Nat) (front : List Nat), fronts[k]? = some front → ∀ i ∈ front, (t.individual i).rank = k) ∧
        ∀ i ∈ members, 0.0 ≤ (t.individual i).distance)
      (fun _ _ => False) s := by
  have hfixed : Individual.Fixed subject goals members s.known s.Noted :=
    Individual.fixed_of_keeps (fun _ ht => ht.keeps) (fun _ ht _ _ => ht.modify fun _ => rfl)
      (fun _ ht notice => ht.logged notice) fun i hi =>
        ⟨(hm i hi).1, (hm i hi).2.unchanged, fun g hg => ((hm i hi).2.known g hg).imp fun _ h => h.1⟩
  have hpeels : Peeling.Peels (Dominance.Dominates s.known goals) _ members :=
    Ranking.peels_rank (Individual.strict_dominates fun g hg i hi => ((hm i hi).2.inRange hg).not_nan)
  unfold Individual.rankAndCrowd
  refine wp_seq (hfixed.wp_rankAll (.refl _)) fun fronts u hpost => ?_
  obtain ⟨rfl, hu, hranks⟩ := hpost
  refine wp_seq (wp_forM (I := fun l => Spread s u l.flatten) (fun l front rest hl t ht => ?_) ?_)
    fun _ t ht => ?_
  · have hfront : front ⊆ members := fun i hi =>
      hpeels.flatten_perm.subset (List.mem_flatten.2 ⟨front, by simp [hl], hi⟩)
    rw [List.flatten_append, List.flatten_singleton]
    exact ht.wp_assignDistances fun i hi => hm i (hfront hi)
  · exact ⟨hu, fun _ => rfl, by simp⟩
  · refine ⟨ht.noted, hpeels, fun k front hk i hi => (ht.rank i).trans (hranks k front hk i hi), fun i hi => ?_⟩
    exact ht.nonneg i (hpeels.flatten_perm.mem_iff.2 hi)

end Scene

end GoalSearch
