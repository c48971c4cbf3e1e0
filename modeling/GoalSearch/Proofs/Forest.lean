import GoalSearch.Nested
import GoalSearch.Proofs.Draws
import Mathlib.Algebra.BigOperators.Intervals
import Mathlib.Data.List.Basic

/-!
# The shape of a forest

The goals of a forest stand in level order. So the children of the goal at position `i` are the `width` goals from
position `(i + 1) * width` on, as far as there are goals at all: that is what drawing one level after the other comes to
(`NestedGoal.wp_levels`, `NestedGoal.wp_forest_tiers`). All else about the shape is arithmetic on positions: where levels
begin, who has children, and how goals are named (`NestedGoal.shape_of_forest`).
-/

namespace GoalSearch

namespace NestedGoal

variable {ω : Type} {source : RandomSource ω} {valueRange : Int} {width depth : Nat} {w : ω}

/-- The number of goals on the path from the root to the goal. -/
def level (g : NestedGoal) : Nat := g.path.length

/-- The parts of a name between its dots. -/
def components (g : NestedGoal) : List (List Char) := g.name.toList.splitOn '.'

/-- The goal that is drawn as number `k`, counted from zero, below a parent, which is given with its position. -/
def child (parent : Option (NestedGoal × Nat)) (k : Nat) (target : Int) : NestedGoal :=
  match parent with
  | none => ⟨toString (k + 1), target, none, []⟩
  | some (p, i) => ⟨p.name ++ "." ++ toString (k + 1), target, some i, p.path⟩

/-! ### Drawing -/

/-- From `w` to `v` just the targets of the goals are drawn, in their order. -/
def Drawn (source : RandomSource ω) (valueRange : Int) (w : ω) (goals : List NestedGoal) (v : ω) : Prop :=
  ∃ targets, Draws (source.nextBelow valueRange.toNat) w targets v ∧ goals.map (·.target) = targets.map Int.ofNat

theorem Drawn.append {u v : ω} {goals new : List NestedGoal} (h : Drawn source valueRange w goals v)
    (h' : Drawn source valueRange v new u) : Drawn source valueRange w (goals ++ new) u := by
  obtain ⟨targets, hdraws, htargets⟩ := h
  obtain ⟨targets', hdraws', htargets'⟩ := h'
  exact ⟨targets ++ targets', hdraws.append hdraws', by rw [List.map_append, List.map_append, htargets, htargets']⟩

theorem Drawn.bounds {v : ω} {goals : List NestedGoal} (h : Drawn source valueRange w goals v) (hrange : 0 < valueRange) :
    ∀ g ∈ goals, 0 ≤ g.target ∧ g.target < valueRange := by
  obtain ⟨targets, hdraws, htargets⟩ := h
  have hbelow := hdraws.forall_mem (p := (· < valueRange.toNat)) fun w => source.nextBelow_lt w (by omega)
  intro g hg
  have hmem : g.target ∈ targets.map Int.ofNat := htargets ▸ List.mem_map_of_mem hg
  obtain ⟨k, hk, hkg⟩ := List.mem_map.1 hmem
  have hlt := hbelow k hk
  rw [← hkg]
  exact ⟨Int.natCast_nonneg k, by simp only [Int.ofNat_eq_natCast]; omega⟩

theorem wp_drawn {parent : Option (NestedGoal × Nat)} {k : Nat} :
    wp (do return child parent k (← source.int 0 valueRange) : Draw ω NestedGoal)
      (fun g v => g = child parent k g.target ∧ Drawn source valueRange w [g] v) (fun _ _ => valueRange ≤ 0) w := by
  have htarget : ∀ t, (child parent k t).target = t := fun t => by cases parent <;> rfl
  rw [wp_bind]
  by_cases hrange : 0 < valueRange
  · rw [wp_of_run_eq (source.run_int hrange), wp_pure, htarget, Int.sub_zero, Int.zero_add]
    exact ⟨rfl, [_], .cons .nil, congrArg (· :: []) (htarget _)⟩
  · have hrun : (source.int 0 valueRange).run w = (.error .emptyRange, w) := by
      show source.int 0 valueRange w = _
      unfold RandomSource.int
      rw [if_pos (Int.not_lt.1 hrange)]
    unfold wp
    rw [hrun]
    exact Int.not_lt.1 hrange

/-- Every goal is a child of the parent that its position tells, if each parent has `width` children. -/
def Below (width : Nat) (parents : List (Option (NestedGoal × Nat))) (goals : List NestedGoal) : Prop :=
  ∀ j g, goals[j]? = some g → ∃ p, parents[j / width]? = some p ∧ g = child p (j % width) g.target

theorem Below.append {parents parents' : List (Option (NestedGoal × Nat))} {goals goals' : List NestedGoal}
    (hwidth : 0 < width) (hlength : goals.length = parents.length * width) (h : Below width parents goals)
    (h' : Below width parents' goals') : Below width (parents ++ parents') (goals ++ goals') := by
  intro j g hg
  rcases Nat.lt_or_ge j goals.length with hj | hj
  · rw [List.getElem?_append_left hj] at hg
    obtain ⟨p, hp, hg⟩ := h j g hg
    exact ⟨p, by rw [List.getElem?_append_left (List.getElem?_eq_some_iff.1 hp).1, hp], hg⟩
  · rw [List.getElem?_append_right hj, hlength] at hg
    obtain ⟨k, rfl⟩ := Nat.exists_eq_add_of_le (hlength ▸ hj)
    rw [Nat.add_sub_cancel_left] at hg
    obtain ⟨p, hp, hg⟩ := h' k g hg
    rw [Nat.mul_comm, Nat.mul_add_div hwidth, Nat.mul_add_mod]
    exact ⟨p, by rw [List.getElem?_append_right (Nat.le_add_right _ _), Nat.add_sub_cancel_left, hp], hg⟩

theorem wp_siblings {parent : Option (NestedGoal × Nat)} {k n : Nat} :
    wp ((List.range' k n).mapM fun k => (do return child parent k (← source.int 0 valueRange) : Draw ω NestedGoal))
      (fun goals v => (goals.length = n ∧ ∀ j g, goals[j]? = some g → g = child parent (k + j) g.target) ∧
        Drawn source valueRange w goals v) (fun _ _ => valueRange ≤ 0) w := by
  induction n generalizing k w with
  | zero => exact ⟨⟨rfl, by simp⟩, [], .nil, rfl⟩
  | succ n ih =>
    rw [List.range'_succ, List.mapM_cons]
    refine wp_seq wp_drawn fun g v hg => wp_seq ih fun goals u hgoals => ?_
    obtain ⟨⟨hlength, hchild⟩, hdrawn⟩ := hgoals
    refine ⟨⟨congrArg (· + 1) hlength, fun j g' hg' => ?_⟩, hg.2.append hdrawn⟩
    cases j with
    | zero => exact Option.some.inj hg' ▸ hg.1
    | succ j =>
      rw [← Nat.add_assoc, Nat.add_right_comm]
      exact hchild j g' hg'

theorem children_eq (parent : Option (NestedGoal × Nat)) : children source valueRange width parent =
    (List.range' 0 width).mapM fun k => (do return child parent k (← source.int 0 valueRange) : Draw ω NestedGoal) := by
  unfold children
  rw [List.range_eq_range']
  cases parent <;> rfl

theorem wp_family {parent : Option (NestedGoal × Nat)} :
    wp (children source valueRange width parent)
      (fun goals v => (goals.length = width ∧ Below width [parent] goals) ∧ Drawn source valueRange w goals v)
      (fun _ _ => valueRange ≤ 0) w := by
  rw [children_eq]
  refine wp_imp wp_siblings fun goals v ⟨⟨hlength, hchild⟩, hdrawn⟩ => ⟨⟨hlength, fun j g hg => ⟨parent, ?_⟩⟩, hdrawn⟩
  have hj : j < width := hlength ▸ (List.getElem?_eq_some_iff.1 hg).1
  rw [Nat.div_eq_of_lt hj, Nat.mod_eq_of_lt hj]
  exact ⟨rfl, Nat.zero_add j ▸ hchild j g hg⟩

theorem wp_families (hwidth : 0 < width) {parents : List (Option (NestedGoal × Nat))} :
    wp (parents.mapM (children source valueRange width))
      (fun families v => (families.flatten.length = parents.length * width ∧ Below width parents families.flatten) ∧
        Drawn source valueRange w families.flatten v) (fun _ _ => valueRange ≤ 0) w := by
  induction parents generalizing w with
  | nil => exact ⟨⟨(Nat.zero_mul width).symm, nofun⟩, [], .nil, rfl⟩
  | cons parent parents ih =>
    rw [List.mapM_cons]
    refine wp_seq wp_family fun family v ⟨⟨hcount, hfamily⟩, hdrawn⟩ =>
      wp_seq ih fun families u ⟨⟨hcounts, hfamilies⟩, hdrawns⟩ => ?_
    refine ⟨⟨?_, hfamily.append hwidth (by simpa using hcount) hfamilies⟩, hdrawn.append hdrawns⟩
    rw [List.flatten_cons, List.length_append, hcount, hcounts, List.length_cons, Nat.succ_mul, Nat.add_comm]

/-! ### Levels -/

/-- The number of goals in the first levels. -/
def total (width levels : Nat) : Nat := ∑ l ∈ Finset.Icc 1 levels, width ^ l

theorem total_zero : total width 0 = 0 := rfl

theorem total_add_pow (l : Nat) : total width (l + 1) = total width l + width ^ (l + 1) :=
  Finset.sum_Icc_succ_top (Nat.le_add_left 1 l) _

/-- There are `width` roots, and every goal has `width` children on the next level. -/
theorem total_succ (l : Nat) : total width (l + 1) = (total width l + 1) * width := by
  induction l with
  | zero => rw [total_add_pow, Nat.zero_add, Nat.pow_one, total_zero, Nat.zero_add, Nat.one_mul]
  | succ l ih =>
    calc total width (l + 1 + 1) = total width (l + 1) + width ^ (l + 1 + 1) := total_add_pow (l + 1)
      _ = (total width l + 1) * width + width ^ (l + 1) * width := by rw [ih, Nat.pow_succ]
      _ = (total width (l + 1) + 1) * width := by rw [← Nat.add_mul, Nat.add_right_comm, total_add_pow]

theorem total_mono : Monotone (total width) :=
  monotone_nat_of_le_succ fun l => (Nat.le_add_right _ _).trans (total_add_pow l).ge

/-- Below the parents, whose children get their positions from `count` on, the goals that are drawn are parents
themselves. -/
theorem wp_levels_below (hwidth : 0 < width) {count : Nat} {parents : List (Option (NestedGoal × Nat))} :
    wp (levels source valueRange width depth count parents)
      (fun goals v => (goals.length = parents.length * total width depth ∧
        Below width (parents ++ (goals.zipIdx count).map some) goals) ∧ Drawn source valueRange w goals v)
      (fun _ _ => valueRange ≤ 0) w := by
  induction depth generalizing count parents w with
  | zero => exact ⟨⟨rfl, nofun⟩, [], .nil, rfl⟩
  | succ depth ih =>
    unfold levels
    refine wp_seq (wp_families hwidth) fun families v ⟨⟨hcount, hbelow⟩, hdrawn⟩ =>
      wp_seq ih fun rest u ⟨⟨hrest, hbelow'⟩, hdrawn'⟩ => ⟨⟨?_, ?_⟩, hdrawn.append hdrawn'⟩
    · rw [List.length_append, hrest, List.length_map, List.length_zipIdx, hcount, total_succ, Nat.add_mul,
        Nat.mul_add, Nat.one_mul, Nat.add_comm, Nat.mul_comm (total width depth), Nat.mul_assoc]
    · rw [List.zipIdx_append, List.map_append]
      exact hbelow.append hwidth hcount hbelow'

/-- Goals are numbered as the positions of a forest demand: the goal at position `i` has its children from position
`(i + 1) * width` on, and all levels are there. -/
structure LevelOrder (depth width : Nat) (goals : List NestedGoal) : Prop where
  width_pos : 0 < width
  length_eq : goals.length = total width depth
  below : Below width (none :: goals.zipIdx.map some) goals

/-! ### Slices of a list -/

section Slice
variable {α : Type} {xs : List α} {start n : Nat}

theorem filter_eq_slice {p : α → Bool} (h : ∀ j x, xs[j]? = some x → (p x = true ↔ start ≤ j ∧ j < start + n)) :
    xs.filter p = (xs.drop start).take n := by
  have hbefore : (xs.take start).filter p = [] := by
    refine List.filter_eq_nil_iff.2 fun x hx => ?_
    obtain ⟨j, hj, hx⟩ := List.mem_take_iff_getElem.1 hx
    rw [h j x (List.getElem?_eq_some_iff.2 ⟨_, hx⟩)]
    omega
  have hslice : ((xs.drop start).take n).filter p = (xs.drop start).take n := by
    refine List.filter_eq_self.2 fun x hx => ?_
    obtain ⟨j, hj, hx⟩ := List.mem_take_iff_getElem.1 hx
    have hx := List.getElem?_eq_some_iff.2 ⟨_, hx⟩
    rw [List.getElem?_drop] at hx
    rw [h _ x hx]
    omega
  have hafter : ((xs.drop start).drop n).filter p = [] := by
    refine List.filter_eq_nil_iff.2 fun x hx => ?_
    obtain ⟨j, hx⟩ := List.mem_iff_getElem?.1 hx
    rw [List.drop_drop, List.getElem?_drop] at hx
    rw [h _ x hx]
    omega
  calc xs.filter p = (xs.take start ++ ((xs.drop start).take n ++ (xs.drop start).drop n)).filter p := by
        rw [List.take_append_drop, List.take_append_drop]
    _ = (xs.drop start).take n := by
        rw [List.filter_append, List.filter_append, hbefore, hslice, hafter, List.nil_append, List.append_nil]

/-- A slice that lies within the list, mapped to what its positions tell. -/
theorem map_slice {β : Type} {f : α → β} {b : Nat → β} (hend : start + n ≤ xs.length)
    (h : ∀ k x, k < n → xs[start + k]? = some x → f x = b (k + 1)) :
    ((xs.drop start).take n).map f = (List.range' 1 n).map b := by
  refine List.ext_getElem? fun k => ?_
  rw [List.getElem?_map, List.getElem?_map, List.getElem?_take]
  split
  · rename_i hk
    have hlt : start + k < xs.length := by omega
    rw [List.getElem?_drop, List.getElem?_range' hk, List.getElem?_eq_getElem hlt]
    refine congrArg some ((h k _ hk (List.getElem?_eq_getElem hlt)).trans ?_)
    rw [Nat.one_mul, Nat.add_comm]
  · rename_i hk
    rw [List.getElem?_eq_none (by rw [List.length_range']; omega)]
    rfl

end Slice

/-! ### Names -/

theorem splitOn_number (k : Nat) : (toString k).toList.splitOn '.' = [(toString k).toList] := by
  refine List.splitOnP_eq_singleton fun c hc => beq_eq_false_iff_ne.2 ?_
  rintro rfl
  have hdigit := Nat.isDigit_of_mem_toDigits (by decide) (by decide) (Nat.toList_repr ▸ hc)
  exact absurd hdigit (by decide)

theorem components_root (k : Nat) (target : Int) : (child none k target).components = [(toString (k + 1)).toList] :=
  splitOn_number (k + 1)

theorem components_child (p : NestedGoal) (i k : Nat) (target : Int) :
    (child (some (p, i)) k target).components = p.components ++ [(toString (k + 1)).toList] := by
  unfold components child
  rw [String.toList_append, String.toList_append, List.append_assoc,
    show ".".toList ++ (toString (k + 1)).toList = '.' :: (toString (k + 1)).toList from rfl]
  exact (List.splitOnP_append_cons (p := (· == '.')) _ _ (beq_self_eq_true '.')).trans
    (congrArg _ (splitOn_number (k + 1)))

theorem level_child (p : NestedGoal) (i k : Nat) (target : Int) :
    (child (some (p, i)) k target).level = p.level + 1 := List.length_append

theorem components_ne_nil (g : NestedGoal) : g.components ≠ [] := List.splitOnP_ne_nil _ _

theorem number_inj {k k' : Nat} (h : (toString (k + 1)).toList = (toString (k' + 1)).toList) : k = k' := by
  have hdigits : Nat.toDigits 10 (k + 1) = Nat.toDigits 10 (k' + 1) := by
    rw [← Nat.toList_repr, ← Nat.toList_repr]
    exact h
  have hvalue : k + 1 = k' + 1 := by
    rw [← Nat.ofDigitChars_ten_toDigits (n := k + 1), hdigits, Nat.ofDigitChars_ten_toDigits]
  exact Nat.succ.inj hvalue

/-! ### Parents and children -/

namespace LevelOrder
variable {goals : List NestedGoal} {j : Nat} {g : NestedGoal}

theorem root_at (h : LevelOrder depth width goals) (hj : j < width) (hg : goals[j]? = some g) :
    g = child none j g.target := by
  obtain ⟨parent, hparent, hg⟩ := h.below j g hg
  rw [Nat.div_eq_of_lt hj, List.getElem?_cons_zero] at hparent
  rwa [← Option.some.inj hparent, Nat.mod_eq_of_lt hj] at hg

theorem child_at (h : LevelOrder depth width goals) {i k : Nat} (hk : k < width)
    (hg : goals[(i + 1) * width + k]? = some g) :
    ∃ p, goals[i]? = some p ∧ g = child (some (p, i)) k g.target := by
  obtain ⟨parent, hparent, hg⟩ := h.below _ g hg
  rw [Nat.mul_comm, Nat.mul_add_div h.width_pos, Nat.div_eq_of_lt hk, List.getElem?_cons_succ, List.getElem?_map,
    List.getElem?_zipIdx, Nat.zero_add] at hparent
  obtain ⟨q, hq, rfl⟩ := Option.map_eq_some_iff.1 hparent
  obtain ⟨p, hp, rfl⟩ := Option.map_eq_some_iff.1 hq
  rw [Nat.mul_comm, Nat.mul_add_mod, Nat.mod_eq_of_lt hk] at hg
  exact ⟨p, hp, hg⟩

theorem cases (h : LevelOrder depth width goals) (hg : goals[j]? = some g) :
    (j < width ∧ g = child none j g.target) ∨
      ∃ i k p, j = (i + 1) * width + k ∧ k < width ∧ goals[i]? = some p ∧ g = child (some (p, i)) k g.target := by
  rcases Nat.lt_or_ge j width with hj | hj
  · exact .inl ⟨hj, h.root_at hj hg⟩
  · obtain ⟨i, hi⟩ := Nat.exists_eq_succ_of_ne_zero (Nat.div_pos hj h.width_pos).ne'
    have hsplit : j = (i + 1) * width + j % width := by
      rw [← Nat.succ_eq_add_one, ← hi, Nat.mul_comm, Nat.div_add_mod]
    have hk := Nat.mod_lt j h.width_pos
    obtain ⟨p, hp, hc⟩ := h.child_at hk (hsplit ▸ hg)
    exact .inr ⟨i, j % width, p, hsplit, hk, hp, hc⟩

/-- What holds of roots, and passes from parents to their children, holds of all goals of a forest. -/
theorem induction (h : LevelOrder depth width goals) {P : Nat → NestedGoal → Prop}
    (root : ∀ j target, j < width → child none j target ∈ goals → P j (child none j target))
    (below : ∀ i k p target, k < width → child (some (p, i)) k target ∈ goals → P i p →
      P ((i + 1) * width + k) (child (some (p, i)) k target)) : ∀ j g, goals[j]? = some g → P j g := by
  intro j
  induction j using Nat.strongRecOn with
  | ind j ih =>
    intro g hg
    have hmem := List.mem_of_getElem? hg
    obtain ⟨hj, hg⟩ | ⟨i, k, p, rfl, hk, hp, hg⟩ := h.cases hg
    · exact hg ▸ root j g.target hj (hg ▸ hmem)
    · have hlt : i < (i + 1) * width + k :=
        (Nat.lt_succ_self i).trans_le ((Nat.le_mul_of_pos_right _ h.width_pos).trans (Nat.le_add_right _ k))
      exact hg ▸ below i k p g.target hk (hg ▸ hmem) (ih i hlt p hp)

/-- Levels stand one after the other. -/
theorem level_bounds (h : LevelOrder depth width goals) (hg : goals[j]? = some g) :
    ∃ l, g.level = l + 1 ∧ total width l ≤ j ∧ j < total width (l + 1) := by
  refine h.induction (P := fun j g => ∃ l, g.level = l + 1 ∧ total width l ≤ j ∧ j < total width (l + 1))
    (fun j target hj _ => ⟨0, rfl, Nat.zero_le j, ?_⟩) (fun i k p target hk _ hlevel => ?_) j g hg
  · rwa [total_succ, total_zero, Nat.zero_add, Nat.one_mul]
  · obtain ⟨l, hl, hle, hlt⟩ := hlevel
    refine ⟨l + 1, ?_, ?_, ?_⟩
    · rw [level_child, hl]
    · rw [total_succ]
      exact (Nat.mul_le_mul_right width (Nat.succ_le_succ hle)).trans (Nat.le_add_right _ k)
    · calc (i + 1) * width + k < (i + 1) * width + width := Nat.add_lt_add_left hk _
        _ = (i + 1 + 1) * width := (Nat.succ_mul (i + 1) width).symm
        _ ≤ (total width (l + 1) + 1) * width := Nat.mul_le_mul_right width (Nat.succ_le_succ hlt)
        _ = total width (l + 1 + 1) := (total_succ (l + 1)).symm

theorem level_le (h : LevelOrder depth width goals) (hg : goals[j]? = some g) : 1 ≤ g.level ∧ g.level ≤ depth := by
  obtain ⟨l, hl, hle, -⟩ := h.level_bounds hg
  refine ⟨hl ▸ Nat.le_add_left 1 l, hl ▸ Nat.lt_of_not_le fun hdepth => ?_⟩
  have hj : j < total width depth := h.length_eq ▸ (List.getElem?_eq_some_iff.1 hg).1
  exact absurd (hj.trans_le (total_mono hdepth)) (Nat.not_lt.2 hle)

theorem pairwise_level (h : LevelOrder depth width goals) : goals.Pairwise fun g g' => g.level ≤ g'.level := by
  refine List.pairwise_iff_getElem.2 fun i j hi hj hij => ?_
  obtain ⟨l, hl, hle, -⟩ := h.level_bounds (List.getElem?_eq_getElem hi)
  obtain ⟨l', hl', -, hlt⟩ := h.level_bounds (List.getElem?_eq_getElem hj)
  rw [hl, hl']
  by_contra hless
  exact absurd (hlt.trans_le (total_mono (show l' + 1 ≤ l by omega))) (Nat.not_lt.2 (hle.trans hij.le))

/-- Parents stand before their children, which ask for what their parents ask for. -/
theorem parent (h : LevelOrder depth width goals) {i : Nat} (hg : goals[j]? = some g) (hi : g.parent = some i) :
    i < j ∧ ∃ p : NestedGoal, goals[i]? = some p ∧ g.above = p.path := by
  obtain ⟨-, hg⟩ | ⟨i', k, p, rfl, -, hp, hg⟩ := h.cases hg
  · rw [hg] at hi
    cases hi
  · rw [hg] at hi ⊢
    obtain rfl : i' = i := Option.some.inj hi
    exact ⟨Nat.lt_of_lt_of_le (Nat.lt_succ_self _)
      ((Nat.le_mul_of_pos_right _ h.width_pos).trans (Nat.le_add_right _ k)), p, hp, rfl⟩

/-- With the targets of all goals, all that a goal asks for is in the range of values. -/
theorem path_bounds (h : LevelOrder depth width goals) (hbounds : ∀ g ∈ goals, 0 ≤ g.target ∧ g.target < valueRange)
    (hg : goals[j]? = some g) : ∀ target ∈ g.path, 0 ≤ target ∧ target < valueRange := by
  refine h.induction (P := fun _ g => ∀ target ∈ g.path, 0 ≤ target ∧ target < valueRange)
    (fun j target _ hmem => ?_) (fun i k p target _ hmem ih => ?_) j g hg
  · exact List.forall_mem_singleton.2 (hbounds _ hmem)
  · exact List.forall_mem_append.2 ⟨ih, List.forall_mem_singleton.2 (hbounds _ hmem)⟩

theorem length_components (h : LevelOrder depth width goals) (hg : goals[j]? = some g) :
    g.components.length = g.level := by
  refine h.induction (P := fun _ g => g.components.length = g.level) (fun j target _ _ => ?_)
    (fun i k p target _ _ ih => ?_) j g hg
  · rw [components_root]
    rfl
  · rw [components_child, List.length_append, ih, level_child]
    rfl

/-- Equal names have the same parts, from the root's number on. -/
theorem components_inj (h : LevelOrder depth width goals) (hg : goals[j]? = some g) :
    ∀ j' g', goals[j']? = some g' → g.components = g'.components → j = j' := by
  refine h.induction (P := fun j g => ∀ j' g', goals[j']? = some g' → g.components = g'.components → j = j')
    (fun j target _ _ j' g' hg' heq => ?_) (fun i k p target _ _ ih j' g' hg' heq => ?_) j g hg
  · obtain ⟨-, hg'⟩ | ⟨i, k, p, -, -, -, hg'⟩ := h.cases hg'
    · rw [hg', components_root, components_root] at heq
      exact number_inj (List.head_eq_of_cons_eq heq)
    · rw [hg', components_root, components_child] at heq
      exact absurd (List.append_eq_singleton_iff.1 heq.symm) (by simp [components_ne_nil])
  · obtain ⟨-, hg'⟩ | ⟨i', k', p', rfl, -, hp', hg'⟩ := h.cases hg'
    · rw [hg', components_root, components_child] at heq
      exact absurd (List.append_eq_singleton_iff.1 heq) (by simp [components_ne_nil])
    · rw [hg', components_child, components_child] at heq
      obtain ⟨hparts, hnumber⟩ := List.append_inj' heq rfl
      rw [ih i' p' hp' hparts, number_inj (List.head_eq_of_cons_eq hnumber)]

theorem nodup_names (h : LevelOrder depth width goals) : (goals.map (·.name)).Nodup := by
  refine List.nodup_iff_getElem?_ne_getElem?.2 fun i j hij hj heq => ?_
  rw [List.length_map] at hj
  rw [List.getElem?_map, List.getElem?_map, List.getElem?_eq_getElem hj,
    List.getElem?_eq_getElem (hij.trans hj)] at heq
  have hname : goals[i].name = goals[j].name := Option.some.inj heq
  refine hij.ne (h.components_inj (List.getElem?_eq_getElem (hij.trans hj)) j _ (List.getElem?_eq_getElem hj) ?_)
  unfold components
  rw [hname]

/-! ### Families -/

theorem parent_eq_none_iff (h : LevelOrder depth width goals) (hg : goals[j]? = some g) :
    g.parent = none ↔ 0 ≤ j ∧ j < 0 + width := by
  rw [Nat.zero_add]
  refine ⟨fun hparent => ⟨Nat.zero_le j, ?_⟩, fun hj => h.root_at hj.2 hg ▸ rfl⟩
  obtain ⟨hj, -⟩ | ⟨i, k, p, -, -, -, hg⟩ := h.cases hg
  · exact hj
  · rw [hg] at hparent
    cases hparent

theorem parent_eq_some_iff (h : LevelOrder depth width goals) {i : Nat} (hg : goals[j]? = some g) :
    g.parent = some i ↔ (i + 1) * width ≤ j ∧ j < (i + 1) * width + width := by
  refine ⟨fun hparent => ?_, fun ⟨hle, hlt⟩ => ?_⟩
  · obtain ⟨-, hg⟩ | ⟨i', k, p, rfl, hk, -, hg⟩ := h.cases hg
    · rw [hg] at hparent
      cases hparent
    · rw [hg] at hparent
      obtain rfl : i' = i := Option.some.inj hparent
      exact ⟨Nat.le_add_right _ k, Nat.add_lt_add_left hk _⟩
  · obtain ⟨k, rfl⟩ := Nat.exists_eq_add_of_le hle
    obtain ⟨p, -, hg⟩ := h.child_at (Nat.lt_of_add_lt_add_left hlt) hg
    rw [hg]
    rfl

/-- One family after the other, as their parents stand. -/
theorem pairwise_parent (h : LevelOrder depth width goals) :
    goals.Pairwise fun g g' => ∀ i ∈ g.parent, ∀ i' ∈ g'.parent, i ≤ i' := by
  refine List.pairwise_iff_getElem.2 fun j j' hj hj' hlt i hi i' hi' => ?_
  have hle := ((h.parent_eq_some_iff (List.getElem?_eq_getElem hj)).1 hi).1
  have hend := ((h.parent_eq_some_iff (List.getElem?_eq_getElem hj')).1 hi').2
  rw [← Nat.succ_mul] at hend
  have hpositions : (i + 1) * width < (i' + 1 + 1) * width := (hle.trans_lt hlt).trans hend
  exact Nat.le_of_lt_succ (Nat.lt_of_succ_lt_succ (Nat.lt_of_mul_lt_mul_right hpositions))

theorem names_roots (h : LevelOrder depth width goals) (hdepth : 0 < depth) :
    (goals.filter fun g => g.parent.isNone).map (·.name) = (List.range' 1 width).map toString := by
  have hlevel : 0 + width ≤ goals.length := by
    have hle : total width 1 ≤ total width depth := total_mono hdepth
    rw [h.length_eq, Nat.zero_add]
    rwa [total_succ, total_zero, Nat.zero_add, Nat.one_mul] at hle
  rw [filter_eq_slice fun j g hg => Option.isNone_iff_eq_none.trans (h.parent_eq_none_iff hg)]
  refine map_slice hlevel fun k g hk hg => ?_
  rw [Nat.zero_add] at hg
  rw [h.root_at hk hg]
  rfl

/-- Above the last level a goal has `width` children, which are numbered from one on. -/
theorem names_children (h : LevelOrder depth width goals) {i : Nat} (hg : goals[i]? = some g) (hlevel : g.level < depth) :
    (goals.filter fun c => c.parent = some i).map (·.name) =
      (List.range' 1 width).map fun k => g.name ++ "." ++ toString k := by
  obtain ⟨l, hl, -, hlt⟩ := h.level_bounds hg
  have hend : (i + 1) * width + width ≤ goals.length :=
    calc (i + 1) * width + width = (i + 1 + 1) * width := (Nat.succ_mul (i + 1) width).symm
      _ ≤ (total width (l + 1) + 1) * width := Nat.mul_le_mul_right width (Nat.succ_le_succ hlt)
      _ = total width (g.level + 1) := by rw [hl, total_succ (l + 1)]
      _ ≤ goals.length := h.length_eq ▸ total_mono hlevel
  rw [filter_eq_slice fun j c hc => decide_eq_true_iff.trans (h.parent_eq_some_iff hc)]
  refine map_slice hend fun k c hk hc => ?_
  obtain ⟨p, hp, hc⟩ := h.child_at hk hc
  rw [hc, Option.some.inj (hg.symm.trans hp)]
  rfl

theorem children_eq_nil (h : LevelOrder depth width goals) {i : Nat} (hg : goals[i]? = some g)
    (hlevel : g.level = depth) : (goals.filter fun c => c.parent = some i) = [] := by
  obtain ⟨l, hl, hle, -⟩ := h.level_bounds hg
  rw [filter_eq_slice fun j c hc => decide_eq_true_iff.trans (h.parent_eq_some_iff hc)]
  refine (congrArg (List.take width) (List.drop_eq_nil_of_le ?_)).trans List.take_nil
  rw [h.length_eq, ← hlevel, hl, total_succ]
  exact Nat.mul_le_mul_right width (Nat.succ_le_succ hle)

end LevelOrder

/-! ### The shape of a forest -/

/-- A forest with a number of levels below each other, where all but the goals of the last level have `width` children.
One level stands behind the other, and on each of them one family behind the other, in the order of their parents. Goals
are named by their numbers on the path from the root. -/
structure Shape (depth width : Nat) (valueRange : Int) (goals : List NestedGoal) : Prop where
  length_eq : goals.length = ∑ l ∈ Finset.Icc 1 depth, width ^ l
  ordered : goals.Pairwise fun g g' => g.level ≤ g'.level
  families : goals.Pairwise fun g g' => ∀ i ∈ g.parent, ∀ i' ∈ g'.parent, i ≤ i'
  level_le : ∀ g ∈ goals, 1 ≤ g.level ∧ g.level ≤ depth
  parent : ∀ (j : Nat) (g : NestedGoal) (i : Nat), goals[j]? = some g → g.parent = some i →
    i < j ∧ ∃ p : NestedGoal, goals[i]? = some p ∧ g.above = p.path
  roots : (goals.filter fun g => g.parent.isNone).map (·.name) = (List.range' 1 width).map toString
  children : ∀ i g, goals[i]? = some g → g.level < depth → (goals.filter fun c => c.parent = some i).map (·.name) =
    (List.range' 1 width).map fun k => g.name ++ "." ++ toString k
  last : ∀ i g, goals[i]? = some g → g.level = depth → (goals.filter fun c => c.parent = some i) = []
  components : ∀ g ∈ goals, g.components.length = g.level
  nodup : (goals.map (·.name)).Nodup
  bounds : ∀ g ∈ goals, 0 ≤ g.target ∧ g.target < valueRange

theorem LevelOrder.shape {goals : List NestedGoal} (h : LevelOrder depth width goals) (hdepth : 0 < depth)
    (hbounds : ∀ g ∈ goals, 0 ≤ g.target ∧ g.target < valueRange) : Shape depth width valueRange goals where
  length_eq := h.length_eq
  ordered := h.pairwise_level
  families := h.pairwise_parent
  level_le g hg := by
    obtain ⟨j, hj⟩ := List.mem_iff_getElem?.1 hg
    exact h.level_le hj
  parent j g i hg hi := h.parent hg hi
  roots := h.names_roots hdepth
  children i g hg hlevel := h.names_children hg hlevel
  last i g hg hlevel := h.children_eq_nil hg hlevel
  components g hg := by
    obtain ⟨j, hj⟩ := List.mem_iff_getElem?.1 hg
    exact h.length_components hj
  nodup := h.nodup_names
  bounds := hbounds

/-- Only without levels, children or values there is no forest. -/
theorem wp_forest_levelOrder {depth width : Int} :
    wp (forest source depth width valueRange)
      (fun goals v => LevelOrder depth.toNat width.toNat goals ∧ Drawn source valueRange w goals v)
      (fun _ _ => ¬ (1 ≤ depth ∧ 1 ≤ width ∧ 1 ≤ valueRange)) w := by
  unfold forest
  by_cases hnesting : 1 ≤ depth ∧ 1 ≤ width
  · rw [if_neg (by simp; omega)]
    have hwidth : 0 < width.toNat := by omega
    refine wp_mono (wp_levels_below hwidth) (fun goals v ⟨⟨hlength, hbelow⟩, hdrawn⟩ => ?_) fun e v hrange h => ?_
    · exact ⟨⟨hwidth, hlength.trans (Nat.one_mul _), hbelow⟩, hdrawn⟩
    · omega
  · rw [if_pos (by simp; omega)]
    exact fun h => hnesting ⟨h.1, h.2.1⟩

/-- With levels, children and values a forest is drawn, goal after goal, by one integer for each. -/
theorem shape_of_forest {depth width : Int} (hdepth : 1 ≤ depth) (hwidth : 1 ≤ width) (hrange : 1 ≤ valueRange) :
    wp (forest source depth width valueRange)
      (fun goals v => Shape depth.toNat width.toNat valueRange goals ∧ Drawn source valueRange w goals v)
      (fun _ _ => False) w := by
  refine wp_mono wp_forest_levelOrder (fun goals v ⟨horder, hdrawn⟩ => ?_) fun e v h => h ⟨hdepth, hwidth, hrange⟩
  exact ⟨horder.shape (by omega) (hdrawn.bounds hrange), hdrawn⟩

/-- Two trees of two levels are drawn by six integers. -/
theorem shape_of_two_trees :
    ((forest Sample.counting 2 2 10).run 0).1.toOption.map (List.map fun g => (g.name, g.target, g.parent)) =
        some [("1", 0, none), ("2", 1, none), ("1.1", 2, some 0), ("1.2", 3, some 0), ("2.1", 4, some 1),
          ("2.2", 5, some 1)] ∧
      ((forest Sample.counting 2 2 10).run 0).2 = 6 ∧
      wp (forest Sample.counting 2 2 10)
        (fun goals v => Shape 2 2 10 goals ∧ Drawn Sample.counting 10 0 goals v) (fun _ _ => False) 0 :=
  ⟨by decide +kernel, by decide +kernel, shape_of_forest (by decide) (by decide) (by decide)⟩

end NestedGoal

end GoalSearch
