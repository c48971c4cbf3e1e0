import GoalSearch.Crowding
import Mathlib.Algebra.Order.Ring.Rat
import Mathlib.Tactic.Choose

/-!
# Neighbours in the order of a goal

A front stably sorted by its fitness for a goal (`ascending`). Who is neither first nor last in it stands between two
neighbours, which lie no further apart than the front spans, and the front spans nothing exactly where it is constant.
-/

namespace GoalSearch.Crowding

variable {ι : Type} {value : Goal → ι → ℚ} {front ordered : List ι} {goals : List Goal} {g : Goal} {i : ι}

/-! ### Neighbours -/

theorem not_infix_of_length_lt {β : Type} {l : List β} {a b c : β} (h : l.length < 3) : ¬ [a, b, c] <:+: l :=
  fun hnear => absurd hnear.length_le (Nat.not_le_of_lt h)

theorem mem_tail_of_infix {β : Type} {l : List β} {a b c : β} (h : [a, b, c] <:+: l) : b ∈ l.tail := by
  obtain ⟨front, back, rfl⟩ := h
  cases front <;> simp

theorem mem_triples_iff {β : Type} {l : List β} {a b c : β} : (a, b, c) ∈ triples l ↔ [a, b, c] <:+: l := by
  induction l with
  | nil => exact iff_of_false List.not_mem_nil (not_infix_of_length_lt (by simp))
  | cons x l ih =>
    rcases l with _ | ⟨y, _ | ⟨z, l⟩⟩
    · exact iff_of_false List.not_mem_nil (not_infix_of_length_lt (by simp))
    · exact iff_of_false List.not_mem_nil (not_infix_of_length_lt (by simp))
    · have hhead : [a, b, c] <+: x :: y :: z :: l ↔ (a, b, c) = (x, y, z) := by
        simp only [List.cons_prefix_cons, List.nil_prefix, and_true, Prod.mk.injEq]
      rw [triples, List.mem_cons, ih, List.infix_cons_iff (a := x), hhead]

theorem triples_map {β γ : Type} {f : β → γ} {l : List β} :
    triples (l.map f) = (triples l).map fun (a, b, c) => (f a, f b, f c) := by
  induction l with
  | nil => rfl
  | cons x l ih =>
    rcases l with _ | ⟨y, _ | ⟨z, l⟩⟩
    · rfl
    · rfl
    · simp only [List.map_cons, triples] at ih ⊢
      rw [ih]

/-- First or last in a list. -/
def AtEnd (ordered : List ι) (i : ι) : Prop := ordered.head? = some i ∨ ordered.getLast? = some i

instance [DecidableEq ι] : Decidable (AtEnd ordered i) := inferInstanceAs (Decidable (_ ∨ _))

theorem atEnd_iff {first last : ι} (hfirst : ordered.head? = some first) (hlast : ordered.getLast? = some last) :
    AtEnd ordered i ↔ first = i ∨ last = i := by
  rw [AtEnd, hfirst, hlast, Option.some.injEq, Option.some.injEq]

theorem not_atEnd_of_not_mem (h : i ∉ ordered) : ¬ AtEnd ordered i :=
  not_or.2 ⟨fun hfirst => h (List.mem_of_head? hfirst), fun hlast => h (List.mem_of_getLast? hlast)⟩

/-- Who is neither first nor last has a neighbour on either side. -/
theorem exists_neighbours (h : i ∈ ordered) (hend : ¬ AtEnd ordered i) :
    ∃ before behind, [before, i, behind] <:+: ordered := by
  obtain ⟨hfirst, hlast⟩ := not_or.1 hend
  obtain ⟨front, back, rfl⟩ := List.append_of_mem h
  rcases List.eq_nil_or_concat front with rfl | ⟨front, before, rfl⟩
  · exact absurd rfl hfirst
  · rcases back with _ | ⟨behind, back⟩
    · exact absurd (by simp) hlast
    · exact ⟨before, behind, front, back, by simp⟩

/-! ### The order of a goal -/

/-- The front stably sorted by its fitness for a goal. -/
def ascending (value : Goal → ι → ℚ) (front : List ι) (g : Goal) : List ι :=
  front.mergeSort fun i j => decide (value g i ≤ value g j)

/-- The largest fitness of the front for a goal, less the smallest. -/
def span (value : Goal → ι → ℚ) (front : List ι) (g : Goal) : ℚ :=
  (front.map (value g)).max?.getD 0 - (front.map (value g)).min?.getD 0

theorem mem_ascending : i ∈ ascending value front g ↔ i ∈ front := List.mem_mergeSort

theorem nodup_ascending (h : front.Nodup) : (ascending value front g).Nodup := (List.mergeSort_perm _ _).nodup_iff.2 h

theorem pairwise_ascending : (ascending value front g).Pairwise fun i j => value g i ≤ value g j := by
  refine (List.pairwise_mergeSort (fun i j k hij hjk => ?_) (fun i j => ?_) front).imp of_decide_eq_true
  · exact decide_eq_true (le_trans (of_decide_eq_true hij) (of_decide_eq_true hjk))
  · rw [Bool.or_eq_true, decide_eq_true_eq, decide_eq_true_eq]
    exact le_total _ _

theorem exists_ends (value : Goal → ι → ℚ) (g : Goal) (hne : front ≠ []) : ∃ first last,
    (ascending value front g).head? = some first ∧ (ascending value front g).getLast? = some last := by
  obtain ⟨x, hx⟩ := List.exists_mem_of_ne_nil front hne
  have hordered : ascending value front g ≠ [] := List.ne_nil_of_mem (mem_ascending.2 hx)
  exact ⟨_, _, List.head?_eq_some_head hordered, List.getLast?_eq_some_getLast hordered⟩

theorem bounds_of_mem {first last : ι} (hfirst : (ascending value front g).head? = some first)
    (hlast : (ascending value front g).getLast? = some last) (hi : i ∈ ascending value front g) :
    value g first ≤ value g i ∧ value g i ≤ value g last := by
  have hsorted : (ascending value front g).Pairwise fun i j => value g i ≤ value g j := pairwise_ascending
  obtain ⟨back, hback⟩ := List.head?_eq_some_iff.1 hfirst
  obtain ⟨before, hbefore⟩ := List.getLast?_eq_some_iff.1 hlast
  constructor
  · rw [hback] at hsorted hi
    rcases List.mem_cons.1 hi with rfl | hi
    · exact le_rfl
    · exact (List.pairwise_cons.1 hsorted).1 i hi
  · rw [hbefore] at hsorted hi
    rcases List.mem_append.1 hi with hi | hi
    · exact (List.pairwise_append.1 hsorted).2.2 i hi last (List.mem_singleton_self last)
    · rw [List.mem_singleton.1 hi]

theorem span_eq {first last : ι} (hfirst : (ascending value front g).head? = some first)
    (hlast : (ascending value front g).getLast? = some last) : span value front g = value g last - value g first := by
  have hmax : (front.map (value g)).max? = some (value g last) := by
    refine List.max?_eq_some_iff.2 ⟨List.mem_map_of_mem (mem_ascending.1 (List.mem_of_getLast? hlast)), fun x hx => ?_⟩
    obtain ⟨i, hi, rfl⟩ := List.mem_map.1 hx
    exact (bounds_of_mem hfirst hlast (mem_ascending.2 hi)).2
  have hmin : (front.map (value g)).min? = some (value g first) := by
    refine List.min?_eq_some_iff.2 ⟨List.mem_map_of_mem (mem_ascending.1 (List.mem_of_head? hfirst)), fun x hx => ?_⟩
    obtain ⟨i, hi, rfl⟩ := List.mem_map.1 hx
    exact (bounds_of_mem hfirst hlast (mem_ascending.2 hi)).1
  rw [span, hmax, hmin]
  rfl

/-- The whole front has the same fitness for a goal. -/
def Constant (value : Goal → ι → ℚ) (front : List ι) (g : Goal) : Prop :=
  ∀ i ∈ front, ∀ j ∈ front, value g i = value g j

instance : Decidable (Constant value front g) :=
  inferInstanceAs (Decidable (∀ i ∈ front, ∀ j ∈ front, value g i = value g j))

theorem span_eq_zero_iff (hne : front ≠ []) : span value front g = 0 ↔ Constant value front g := by
  obtain ⟨first, last, hfirst, hlast⟩ := exists_ends value g hne
  rw [span_eq hfirst hlast, sub_eq_zero]
  constructor
  · intro heq i hi j hj
    have hi := bounds_of_mem hfirst hlast (mem_ascending.2 hi)
    have hj := bounds_of_mem hfirst hlast (mem_ascending.2 hj)
    exact le_antisymm (hi.2.trans (heq.trans_le hj.1)) (hj.2.trans (heq.trans_le hi.1))
  · intro hconst
    exact hconst last (mem_ascending.1 (List.mem_of_getLast? hlast)) first (mem_ascending.1 (List.mem_of_head? hfirst))

/-- Where the front differs there is something to divide by. -/
theorem span_ne_zero (h : ¬ Constant value front g) : span value front g ≠ 0 := by
  have hne : front ≠ [] := by
    rintro rfl
    exact h nofun
  exact fun hzero => h ((span_eq_zero_iff hne).1 hzero)

/-- The one before is not behind, and no gap is wider than the span. -/
theorem gap_bounds {before behind : ι} (h : [before, i, behind] <:+: ascending value front g) :
    0 ≤ value g behind - value g before ∧ value g behind - value g before ≤ span value front g := by
  have hbefore : before ∈ ascending value front g := h.subset (by simp)
  have hbehind : behind ∈ ascending value front g := h.subset (by simp)
  obtain ⟨first, last, hfirst, hlast⟩ :=
    exists_ends value g (List.ne_nil_of_mem (mem_ascending.1 hbefore))
  have hle : value g before ≤ value g behind := by
    have hpair := pairwise_ascending.sublist h.sublist
    simp only [List.pairwise_cons, List.mem_cons] at hpair
    exact hpair.1 behind (.inr (.inl rfl))
  rw [span_eq hfirst hlast]
  exact ⟨sub_nonneg.2 hle, sub_le_sub (bounds_of_mem hfirst hlast hbehind).2 (bounds_of_mem hfirst hlast hbefore).1⟩

/-- The neighbours of who is nowhere at an end, goal by goal. -/
theorem exists_neighbours_of_mem (hi : i ∈ front) (h : ∀ g ∈ goals, ¬ AtEnd (ascending value front g) i) :
    ∃ before behind : Goal → ι, ∀ g ∈ goals, [before g, i, behind g] <:+: ascending value front g := by
  have hone : ∀ g, ∃ before behind, g ∈ goals → [before, i, behind] <:+: ascending value front g := by
    intro g
    by_cases hg : g ∈ goals
    · obtain ⟨before, behind, hnear⟩ := exists_neighbours (mem_ascending.2 hi) (h g hg)
      exact ⟨before, behind, fun _ => hnear⟩
    · exact ⟨i, i, fun hg' => absurd hg' hg⟩
  choose before behind hnear using hone
  exact ⟨before, behind, hnear⟩

end GoalSearch.Crowding
