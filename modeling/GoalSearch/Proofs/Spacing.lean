import GoalSearch.Proofs.Neighbours
import GoalSearch.Proofs.Number.Exact
import GoalSearch.Proofs.Reading
import GoalSearch.Proofs.Stable
import Mathlib.Algebra.Order.BigOperators.Group.List
import Mathlib.Algebra.Order.Field.Basic

/-!
# Spacing

Read exactly, the crowding distance of a member tells how far its neighbours are apart. For each goal the front is
sorted; whoever comes first or last for some goal is infinitely far from the others, and anybody else has the sum of the
gaps between its two neighbours, each as a share of the span of the goal (`spacing`). The distances are written one
after the other, goal after goal, over what was there before (`wp_addGaps`, `wp_assignExact`); a store that refuses
what has no value shows that nothing is ever divided by zero.
-/

namespace GoalSearch.Crowding

variable {ι : Type} {value : Goal → ι → ℚ} {front ordered : List ι} {goals : List Goal} {g : Goal} {i : ι}

/-- A fitness as an exact number. -/
def exactFitness (value : Goal → ι → ℚ) (g : Goal) (i : ι) : Exact := .finite (value g i)

/-- Reads a fitness that is known. -/
def readFitness {S : Type} (value : Goal → ι → ℚ) (g : Goal) (i : ι) : ExceptT Fault (StateM S) Exact :=
  pure (exactFitness value g i)

theorem wp_sorted {S : Type} {s : S} : wp (sorted (readFitness value) g front)
    (fun r t => r = (ascending value front g).map (fun i => (i, Exact.finite (value g i))) ∧ t = s)
    (fun _ _ => False) s := by
  have hsort : Sorting.sort (fun a b => decide (a.2 < b.2)) (front.map fun i => (i, exactFitness value g i)) =
      (ascending value front g).map fun i => (i, Exact.finite (value g i)) := by
    rw [ascending, ← Sorting.sort_eq_mergeSort]
    exact Sorting.sort_map (List.pairwise_of_forall fun i j => decide_eq_decide.2 Exact.finite_lt)
  have hread : ∀ i ∈ front, Yields (· = s) (readFitness value g i) (exactFitness value g i) := fun _ _ => Yields.pure _
  have hyields := yields_sorted hread
  rw [hsort] at hyields
  exact hyields s rfl

/-! ### The gaps of one goal -/

variable [DecidableEq ι] {v : ι → ℚ} {width : ℚ} {d : ι → Exact}

/-- What a member gains from the gaps between those before and behind it, as shares of a width. -/
def gained (v : ι → ℚ) (width : ℚ) (gaps : List (ι × ι × ι)) (i : ι) : ℚ :=
  (gaps.map fun (before, x, behind) => if x = i then (v behind - v before) / width else 0).sum

theorem gained_cons {before x behind : ι} {gaps : List (ι × ι × ι)} : gained v width ((before, x, behind) :: gaps) i =
    (if x = i then (v behind - v before) / width else 0) + gained v width gaps i := List.sum_cons

theorem gained_concat {before x behind : ι} {gaps : List (ι × ι × ι)} :
    gained v width (gaps ++ [(before, x, behind)]) i =
      gained v width gaps i + if x = i then (v behind - v before) / width else 0 := by
  simp [gained]

theorem gained_of_not_mem {gaps : List (ι × ι × ι)} (h : ∀ p ∈ gaps, p.2.1 ≠ i) : gained v width gaps i = 0 := by
  induction gaps with
  | nil => rfl
  | cons p gaps ih =>
    obtain ⟨hp, hgaps⟩ := List.forall_mem_cons.1 h
    rw [gained_cons, if_neg hp, ih hgaps, add_zero]

/-- A quotient by zero is zero here, so that gaps of no width count for nothing. -/
theorem gained_zero {gaps : List (ι × ι × ι)} : gained v 0 gaps i = 0 := by
  induction gaps with
  | nil => rfl
  | cons p gaps ih => rw [gained_cons, ih, div_zero, ite_self, add_zero]

/-- Where nobody stands twice, who stands between two neighbours gains the gap between them. -/
theorem gained_triples (hnodup : ordered.Nodup) {before behind : ι} (h : [before, i, behind] <:+: ordered) :
    gained v width (triples ordered) i = (v behind - v before) / width := by
  induction ordered with
  | nil => exact absurd h (not_infix_of_length_lt (by simp))
  | cons x l ih =>
    rcases l with _ | ⟨y, _ | ⟨z, l⟩⟩
    · exact absurd h (not_infix_of_length_lt (by simp))
    · exact absurd h (not_infix_of_length_lt (by simp))
    · have htail : (y :: z :: l).Nodup := hnodup.tail
      have hy : ∀ p ∈ triples (y :: z :: l), p.2.1 ≠ y := fun ⟨a, b, c⟩ hp hb =>
        (List.nodup_cons.1 htail).1 (hb ▸ mem_tail_of_infix (mem_triples_iff.1 hp))
      rw [triples, gained_cons]
      rcases List.infix_cons_iff.1 h with hhead | hnear
      · simp only [List.cons_prefix_cons, List.nil_prefix, and_true] at hhead
        obtain ⟨rfl, rfl, rfl⟩ := hhead
        rw [if_pos rfl, gained_of_not_mem hy, add_zero]
      · rw [if_neg fun hi => hy (before, i, behind) (mem_triples_iff.2 hnear) hi.symm, ih htail hnear, zero_add]

/-! ### Distances that are written -/

/-- Reads the distance of a member. -/
def readDistance (i : ι) : ExceptT Fault (StateM (ι → Exact)) Exact := fun d => (.ok (d i), d)

/-- Writes the distance of a member, and refuses one that has no value. -/
def writeDistance (i : ι) (x : Exact) : ExceptT Fault (StateM (ι → Exact)) Unit :=
  if x = .undefined then throw .notANumber else modify (Function.update · i x)

theorem wp_writeDistance {x : Exact} (hx : x ≠ .undefined) {Q : Unit → (ι → Exact) → Prop}
    {E : Fault → (ι → Exact) → Prop} : wp (writeDistance i x) Q E d ↔ Q () (Function.update d i x) := by
  rw [writeDistance, if_neg hx, wp_modify]

/-- The gaps are added to the distances that are there. -/
theorem wp_forM_addGap (hwidth : width ≠ 0) (hd : ∀ i ∈ ordered, d i ≠ .undefined) :
    wp ((triples (ordered.map fun i => (i, Exact.finite (v i)))).forM
        (addGap readDistance writeDistance (Exact.finite width)))
      (fun _ t => ∀ i, t i = d i + .finite (gained v width (triples ordered) i)) (fun _ _ => False) d := by
  rw [triples_map, List.forM_eq_forM, List.forM_map, ← List.forM_eq_forM]
  refine wp_forM (I := fun done (t : ι → Exact) => ∀ i, t i = d i + .finite (gained v width done i))
    (fun done p rest hl t ht => ?_) fun i => Exact.add_finite_zero.symm
  obtain ⟨before, x, behind⟩ := p
  have hx : d x ≠ .undefined := hd x ((mem_triples_iff.1 (show (before, x, behind) ∈ triples ordered by
    simp [hl])).subset (by simp))
  have hgap : t x + (Exact.finite (v behind) - Exact.finite (v before)) / Exact.finite width =
      d x + .finite (gained v width (done ++ [(before, x, behind)]) x) := by
    rw [Exact.finite_sub, Exact.finite_div hwidth, ht x, Exact.add_finite_add_finite, gained_concat, if_pos rfl]
  show wp (writeDistance x (t x + (Exact.finite (v behind) - Exact.finite (v before)) / Exact.finite width)) _ _ t
  rw [hgap, wp_writeDistance (Exact.add_finite_ne_undefined hx)]
  intro i
  by_cases hi : x = i
  · subst hi
    rw [Function.update_self]
  · rw [Function.update_of_ne (Ne.symm hi), ht i, gained_concat, if_neg hi, add_zero]

theorem update_ends {first last : ι} (hfirst : ordered.head? = some first) (hlast : ordered.getLast? = some last) :
    Function.update (Function.update d first .infinity) last .infinity i =
      if AtEnd ordered i then .infinity else d i := by
  by_cases hl : last = i
  · rw [← hl, Function.update_self, if_pos ((atEnd_iff hfirst hlast).2 (.inr rfl))]
  · rw [Function.update_of_ne (Ne.symm hl)]
    by_cases hf : first = i
    · rw [← hf, Function.update_self, if_pos ((atEnd_iff hfirst hlast).2 (.inl rfl))]
    · rw [Function.update_of_ne (Ne.symm hf), if_neg fun h => not_or.2 ⟨hf, hl⟩ ((atEnd_iff hfirst hlast).1 h)]

/-- Those at the ends become infinitely far, and the gaps are added for the others. -/
theorem wp_addGaps {first last : ι} (hfirst : ordered.head? = some first) (hlast : ordered.getLast? = some last)
    (hd : ∀ i ∈ ordered, d i ≠ .undefined) :
    wp (addGaps readDistance writeDistance (ordered.map fun i => (i, Exact.finite (v i))))
      (fun _ t => ∀ i, t i = (if AtEnd ordered i then .infinity else d i) +
        .finite (gained v (v last - v first) (triples ordered) i)) (fun _ _ => False) d := by
  unfold addGaps
  rw [List.head?_map, List.getLast?_map, hfirst, hlast]
  simp only [Option.map_some, wp_bind, Exact.infinity_eq, wp_writeDistance Exact.infinity_ne_undefined,
    Exact.finite_beq, decide_eq_true_eq]
  split
  · -- a width of zero, by which nothing is divided: what would be gained is zero as well
    rename_i heq
    intro i
    rw [heq, sub_self, gained_zero, Exact.add_finite_zero, update_ends hfirst hlast]
  · rename_i hne
    refine wp_imp (wp_forM_addGap (sub_ne_zero.2 hne) fun i hi => ?_) fun _ t ht i => ?_
    · rw [update_ends hfirst hlast]
      split
      · exact Exact.infinity_ne_undefined
      · exact hd i hi
    · rw [ht i, update_ends hfirst hlast]

/-! ### Goal after goal -/

/-- What a member has of its neighbours for a goal. -/
def share (value : Goal → ι → ℚ) (front : List ι) (i : ι) (g : Goal) : ℚ :=
  gained (value g) (span value front g) (triples (ascending value front g)) i

/-- The distance of a member over some goals. -/
def spacing (value : Goal → ι → ℚ) (front : List ι) (goals : List Goal) (i : ι) : Exact :=
  if ∃ g ∈ goals, AtEnd (ascending value front g) i then .infinity
  else .finite (goals.map (share value front i)).sum

theorem spacing_ne_undefined : spacing value front goals i ≠ .undefined := by
  unfold spacing
  split
  · exact Exact.infinity_ne_undefined
  · exact Exact.finite_ne_undefined

theorem spacing_eq_infinity_iff :
    spacing value front goals i = .infinity ↔ ∃ g ∈ goals, AtEnd (ascending value front g) i := by
  unfold spacing
  split
  · exact iff_of_true rfl ‹_›
  · exact iff_of_false nofun ‹_›

theorem spacing_nil : spacing value front [] i = .finite 0 := by
  rw [spacing, if_neg (by simp), List.map_nil, List.sum_nil]

theorem spacing_concat : spacing value front (goals ++ [g]) i =
    (if AtEnd (ascending value front g) i then .infinity else spacing value front goals i) +
      .finite (share value front i g) := by
  unfold spacing
  rw [List.map_append, List.sum_append, List.map_singleton, List.sum_singleton]
  by_cases hend : AtEnd (ascending value front g) i
  · rw [if_pos ⟨g, by simp, hend⟩, if_pos hend, Exact.infinity_add_finite]
  · rw [if_neg hend]
    by_cases hbefore : ∃ h ∈ goals, AtEnd (ascending value front h) i
    · obtain ⟨h, hh, hat⟩ := hbefore
      rw [if_pos ⟨h, List.mem_append_left [g] hh, hat⟩, if_pos ⟨h, hh, hat⟩, Exact.infinity_add_finite]
    · rw [if_neg hbefore, if_neg, Exact.finite_add]
      rintro ⟨h, hh, hat⟩
      rcases List.mem_append.1 hh with hh | hh
      · exact hbefore ⟨h, hh, hat⟩
      · exact hend (List.mem_singleton.1 hh ▸ hat)

/-- One more goal. -/
theorem wp_goal (hne : front ≠ []) (hd : ∀ i ∈ front, d i ≠ .undefined) :
    wp (do addGaps readDistance writeDistance (← sorted (readFitness value) g front))
      (fun _ t => ∀ i, t i = (if AtEnd (ascending value front g) i then .infinity else d i) +
        .finite (share value front i g)) (fun _ _ => False) d := by
  obtain ⟨first, last, hfirst, hlast⟩ := exists_ends value g hne
  refine wp_seq wp_sorted ?_
  rintro _ _ ⟨rfl, rfl⟩
  unfold share
  rw [span_eq hfirst hlast]
  exact wp_addGaps hfirst hlast fun i hi => hd i (mem_ascending.1 hi)

theorem share_of_not_mem (h : i ∉ front) : share value front i g = 0 := by
  refine gained_of_not_mem ?_
  rintro ⟨before, x, behind⟩ hp rfl
  exact h (mem_ascending.1 ((mem_triples_iff.1 hp).subset (by simp)))

/-- The crowding distances of a front whose fitness is known. -/
def assignExact (value : Goal → ι → ℚ) (front : List ι) (goals : List Goal) :
    ExceptT Fault (StateM (ι → Exact)) Unit :=
  assign (readFitness value) readDistance writeDistance front goals

/-- The distances start from zero. -/
theorem wp_forM_zero : wp (front.forM (writeDistance · Scalar.zero))
    (fun _ t => ∀ i, t i = if i ∈ front then .finite 0 else d i) (fun _ _ => False) d := by
  refine wp_forM (I := fun done (t : ι → Exact) => ∀ i, t i = if i ∈ done then .finite 0 else d i)
    (fun done x rest _ t ht => ?_) fun i => rfl
  rw [Exact.zero_eq, wp_writeDistance Exact.finite_ne_undefined]
  intro i
  by_cases hi : i = x
  · simp [hi]
  · rw [Function.update_of_ne hi, ht i]
    simp [hi]

/-- What was there before is forgotten, and the distances of a front are its spacing. -/
theorem wp_assignExact (value : Goal → ι → ℚ) (front : List ι) (goals : List Goal) (d : ι → Exact) :
    wp (assignExact value front goals)
      (fun _ t => ∀ i, t i = if i ∈ front then spacing value front goals i else d i) (fun _ _ => False) d := by
  refine wp_seq wp_forM_zero fun _ t hzero => ?_
  have ht : ∀ i, t i = if i ∈ front then spacing value front [] i else d i := fun i => by
    rw [hzero i, spacing_nil]
  split
  · rename_i hempty
    rw [List.isEmpty_iff.1 hempty] at ht ⊢
    exact ht
  · rename_i hne
    -- after some goals the members have their spacing over these
    refine wp_forM (I := fun done (t : ι → Exact) => ∀ i, t i = if i ∈ front then spacing value front done i else d i)
      (fun done g rest _ t ht => ?_) ht
    have hfinite : ∀ i ∈ front, t i ≠ .undefined := fun i hi => by
      rw [ht i, if_pos hi]
      exact spacing_ne_undefined
    refine wp_imp (wp_goal (fun h => hne (List.isEmpty_iff.2 h)) hfinite) fun _ t' ht' i => ?_
    rw [ht' i, ht i]
    by_cases hi : i ∈ front
    · rw [if_pos hi, if_pos hi, spacing_concat]
    · rw [if_neg hi, if_neg hi, if_neg (not_atEnd_of_not_mem fun h => hi (mem_ascending.1 h)), share_of_not_mem hi,
        Exact.add_finite_zero]

/-! ### What the distances say -/

/-- The gaps between the members before and behind, each as a share of the span, over the goals the front differs on. -/
def gaps (value : Goal → ι → ℚ) (front : List ι) (goals : List Goal) (before behind : Goal → ι) : ℚ :=
  ((goals.filter fun g => ¬ Constant value front g).map fun g =>
    (value g (behind g) - value g (before g)) / span value front g).sum

theorem share_of_constant (hi : i ∈ front) (h : Constant value front g) : share value front i g = 0 := by
  rw [share, (span_eq_zero_iff (List.ne_nil_of_mem hi)).2 h, gained_zero]

theorem share_of_neighbours {before behind : ι} (hnodup : front.Nodup)
    (h : [before, i, behind] <:+: ascending value front g) :
    share value front i g = (value g behind - value g before) / span value front g :=
  gained_triples (nodup_ascending hnodup) h

theorem share_bounds {before behind : ι} (hnodup : front.Nodup)
    (h : [before, i, behind] <:+: ascending value front g) :
    0 ≤ share value front i g ∧ share value front i g ≤ 1 := by
  obtain ⟨hnonneg, hle⟩ := gap_bounds h
  rw [share_of_neighbours hnodup h]
  exact ⟨div_nonneg hnonneg (hnonneg.trans hle), div_le_one_of_le₀ hle (hnonneg.trans hle)⟩

theorem sum_share_eq_gaps (hnodup : front.Nodup) (hi : i ∈ front) {before behind : Goal → ι}
    (h : ∀ g ∈ goals, [before g, i, behind g] <:+: ascending value front g) :
    (goals.map (share value front i)).sum = gaps value front goals before behind := by
  have hconst : ((goals.filter fun g => ¬¬ Constant value front g).map (share value front i)).sum = 0 := by
    refine List.sum_eq_zero fun x hx => ?_
    obtain ⟨g, hg, rfl⟩ := List.mem_map.1 hx
    exact share_of_constant hi (not_not.1 (of_decide_eq_true (List.mem_filter.1 hg).2))
  rw [← List.sum_map_filter_add_sum_map_filter_not (fun g => ¬ Constant value front g), hconst, add_zero, gaps]
  refine congrArg List.sum (List.map_congr_left fun g hg => ?_)
  exact share_of_neighbours hnodup (h g (List.mem_filter.1 hg).1)

theorem sum_share_bounds (hnodup : front.Nodup) {before behind : Goal → ι}
    (h : ∀ g ∈ goals, [before g, i, behind g] <:+: ascending value front g) :
    0 ≤ (goals.map (share value front i)).sum ∧ (goals.map (share value front i)).sum ≤ goals.length := by
  constructor
  · refine List.sum_nonneg fun x hx => ?_
    obtain ⟨g, hg, rfl⟩ := List.mem_map.1 hx
    exact (share_bounds hnodup (h g hg)).1
  · have hle : ∀ x ∈ goals.map (share value front i), x ≤ 1 := fun x hx => by
      obtain ⟨g, hg, rfl⟩ := List.mem_map.1 hx
      exact (share_bounds hnodup (h g hg)).2
    have hsum := List.sum_le_card_nsmul _ 1 hle
    rwa [List.length_map, nsmul_one] at hsum

theorem spacing_perm {goals' : List Goal} (h : goals'.Perm goals) :
    spacing value front goals' i = spacing value front goals i := by
  unfold spacing
  rw [(h.map _).sum_eq]
  simp only [h.mem_iff]

/-- The crowding distances of a front in exact arithmetic. Who is first or last for a goal is infinitely far, and nobody
else is. Anybody else has the sum of the gaps between its neighbours, each as a share of the span of the goal, over the
goals that the front differs on. Nothing is divided by zero, nobody outside of the front is touched, and neither the
order of the goals nor the distances from before matter. -/
theorem distances_of_assign (value : Goal → ι → ℚ) (goals : List Goal) (hnodup : front.Nodup) (old : ι → Exact) :
    ∃ new, (assignExact value front goals).run old = (.ok (), new) ∧
      (∀ i ∈ front, (new i = .infinity ↔ ∃ g ∈ goals, AtEnd (ascending value front g) i) ∧
        (new i ≠ .infinity → ∃ before behind : Goal → ι,
          (∀ g ∈ goals, [before g, i, behind g] <:+: ascending value front g) ∧
          new i = .finite (gaps value front goals before behind) ∧
          0 ≤ gaps value front goals before behind ∧ gaps value front goals before behind ≤ goals.length)) ∧
      (∀ i ∉ front, new i = old i) ∧
      (∀ g, ¬ Constant value front g → span value front g ≠ 0) ∧
      ∀ goals' old', goals'.Perm goals →
        ∃ new', (assignExact value front goals').run old' = (.ok (), new') ∧ ∀ i ∈ front, new' i = new i := by
  obtain ⟨⟨⟩, new, hrun, hnew⟩ := exists_of_wp (wp_assignExact value front goals old)
  refine ⟨new, hrun, fun i hi => ?_, fun i hi => (hnew i).trans (if_neg hi), fun g => span_ne_zero, ?_⟩
  · have hspacing : new i = spacing value front goals i := (hnew i).trans (if_pos hi)
    rw [hspacing]
    refine ⟨spacing_eq_infinity_iff, fun hfinite => ?_⟩
    have hend : ¬ ∃ g ∈ goals, AtEnd (ascending value front g) i := fun h => hfinite (spacing_eq_infinity_iff.2 h)
    obtain ⟨before, behind, hneighbours⟩ := exists_neighbours_of_mem hi fun g hg h => hend ⟨g, hg, h⟩
    have hsum := sum_share_eq_gaps hnodup hi hneighbours
    refine ⟨before, behind, hneighbours, ?_, hsum ▸ sum_share_bounds hnodup hneighbours⟩
    rw [spacing, if_neg hend, hsum]
  · intro goals' old' hperm
    obtain ⟨⟨⟩, new', hrun', hnew'⟩ := exists_of_wp (wp_assignExact value front goals' old')
    refine ⟨new', hrun', fun i hi => ?_⟩
    rw [hnew' i, hnew i, if_pos hi, if_pos hi, spacing_perm hperm]

/-- Squares for one goal, two equal values between the ends for another, and nothing but zero for any further goal. -/
def squares : Goal → Nat → ℚ
  | .atom 0, i => i * i
  | .atom 1, i => if i = 0 then 2 else if i = 3 then 0 else 1
  | _, _ => 0

theorem distances_of_assign_squares : ∃ new,
    (assignExact squares [0, 1, 2, 3] [.atom 0, .atom 1, .atom 2]).run (fun _ => .undefined) = (.ok (), new) ∧
    new 0 = .infinity ∧ new 1 = .finite (17 / 18) ∧ new 2 = .finite (25 / 18) ∧ new 3 = .infinity ∧
    ¬ AtEnd (ascending squares [0, 1, 2, 3] (.atom 1)) 2 := by
  obtain ⟨new, hrun, hnew, -⟩ := distances_of_assign squares [.atom 0, .atom 1, .atom 2]
    (show [0, 1, 2, 3].Nodup by decide) fun _ => .undefined
  obtain rfl : ((assignExact squares [0, 1, 2, 3] [.atom 0, .atom 1, .atom 2]).run fun _ => .undefined).2 = new := by
    rw [hrun]
  have htwo : ((assignExact squares [0, 1, 2, 3] [.atom 0, .atom 1, .atom 2]).run fun _ => .undefined).2 2 =
      .finite (25 / 18) := by decide +kernel
  refine ⟨_, hrun, by decide +kernel, by decide +kernel, htwo, by decide +kernel, fun hend => ?_⟩
  have hinfinite := (hnew 2 (by decide)).1.2 ⟨.atom 1, by decide, hend⟩
  exact Exact.noConfusion (htwo.symm.trans hinfinite)

end GoalSearch.Crowding
