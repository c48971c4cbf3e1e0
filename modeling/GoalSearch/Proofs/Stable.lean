import GoalSearch.Proofs.Sorting
import Mathlib.Data.Prod.Lex

/-!
# Stability

To sort a list asks only whether an element is less than one that stands before it in the list (`sort_map`). So to
compare places where keys are equal changes nothing, and the result is the one of every stable sort: the library's
`mergeSort` by the same keys (`sort_eq_mergeSort`).
-/

namespace GoalSearch.Sorting

variable {α β : Type} {less : α → α → Bool} {less' : β → β → Bool} {f : α → β} {x : α} {run xs : List α}

/-! ### What is asked -/

theorem descending_map (run : List α) (h : (x :: xs).Pairwise fun a b => less' (f b) (f a) = less b a) :
    descending less' (run.map f) (f x) (xs.map f) =
      ((descending less run x xs).1.map f, (descending less run x xs).2.map f) := by
  induction xs generalizing run x with
  | nil => rfl
  | cons y rest ih =>
    obtain ⟨hx, hrest⟩ := List.pairwise_cons.1 h
    rw [List.map_cons, descending, descending, hx y List.mem_cons_self]
    split
    · exact ih (x :: run) hrest
    · rfl

theorem ascending_map (run : List α) (h : (x :: xs).Pairwise fun a b => less' (f b) (f a) = less b a) :
    ascending less' (run.map f) (f x) (xs.map f) =
      ((ascending less run x xs).1.map f, (ascending less run x xs).2.map f) := by
  induction xs generalizing run x with
  | nil => rfl
  | cons y rest ih =>
    obtain ⟨hx, hrest⟩ := List.pairwise_cons.1 h
    rw [List.map_cons, ascending, ascending, hx y List.mem_cons_self]
    split
    · rfl
    · exact ih (x :: run) hrest

theorem leadingRun_map (h : xs.Pairwise fun a b => less' (f b) (f a) = less b a) :
    leadingRun less' (xs.map f) = ((leadingRun less xs).1.map f, (leadingRun less xs).2.map f) := by
  rcases xs with _ | ⟨x, _ | ⟨y, rest⟩⟩
  · rfl
  · rfl
  · obtain ⟨hx, hrest⟩ := List.pairwise_cons.1 h
    rw [List.map_cons, List.map_cons, leadingRun, leadingRun, hx y List.mem_cons_self]
    split
    · exact descending_map [x] hrest
    · have hrun := ascending_map [x] hrest
      rw [List.map_singleton] at hrun
      rw [hrun, List.map_reverse]

theorem place_map (h : ∀ y ∈ xs, less' (f x) (f y) = less x y) {steps low high : Nat} :
    place less' (f x) (xs.map f) steps low high = place less x xs steps low high := by
  induction steps generalizing low high with
  | zero => rfl
  | succ steps ih =>
    unfold place
    split
    · dsimp only
      rw [List.getElem?_map]
      cases hy : xs[(low + high) / 2]? with
      | none => rfl
      | some y =>
        dsimp only [Option.map_some]
        rw [h y (List.mem_of_getElem? hy), ih, ih]
    · rfl

theorem insert_map (h : ∀ y ∈ xs, less' (f x) (f y) = less x y) :
    insert less' (xs.map f) (f x) = (insert less xs x).map f := by
  rw [insert, insert, List.length_map, place_map h, List.map_insertIdx]

theorem foldl_insert_map (hrun : ∀ a ∈ run, ∀ b ∈ xs, less' (f b) (f a) = less b a)
    (h : xs.Pairwise fun a b => less' (f b) (f a) = less b a) :
    (xs.map f).foldl (insert less') (run.map f) = (xs.foldl (insert less) run).map f := by
  induction xs generalizing run with
  | nil => rfl
  | cons x xs ih =>
    obtain ⟨hx, hxs⟩ := List.pairwise_cons.1 h
    rw [List.map_cons, List.foldl_cons, List.foldl_cons, insert_map fun y hy => hrun y hy x List.mem_cons_self]
    refine ih (fun a ha b hb => ?_) hxs
    rcases List.mem_cons.1 (insert_perm.mem_iff.1 ha) with rfl | ha
    · exact hx b hb
    · exact hrun a ha b (List.mem_cons_of_mem _ hb)

theorem descending_suffix : (descending less run x xs).2 <:+ xs := by
  induction xs generalizing run x with
  | nil => exact List.suffix_rfl
  | cons y rest ih =>
    unfold descending
    split
    · exact ih.trans (List.suffix_cons y rest)
    · exact List.suffix_rfl

theorem ascending_suffix : (ascending less run x xs).2 <:+ xs := by
  induction xs generalizing run x with
  | nil => exact List.suffix_rfl
  | cons y rest ih =>
    unfold ascending
    split
    · exact List.suffix_rfl
    · exact ih.trans (List.suffix_cons y rest)

/-- The leading run holds what stands in front of the rest. -/
theorem exists_leadingRun (less : α → α → Bool) (xs : List α) :
    ∃ front, xs = front ++ (leadingRun less xs).2 ∧ (leadingRun less xs).1.Perm front := by
  have hsuffix : (leadingRun less xs).2 <:+ xs := by
    rcases xs with _ | ⟨x, _ | ⟨y, rest⟩⟩
    · exact List.suffix_rfl
    · exact List.nil_suffix
    · rw [leadingRun]
      split
      · exact descending_suffix.trans ((List.suffix_cons y rest).trans (List.suffix_cons x _))
      · exact ascending_suffix.trans ((List.suffix_cons y rest).trans (List.suffix_cons x _))
  obtain ⟨front, hfront⟩ := hsuffix
  have hperm : ((leadingRun less xs).1 ++ (leadingRun less xs).2).Perm xs := leadingRun_perm
  nth_rewrite 3 [← hfront] at hperm
  exact ⟨front, hfront.symm, (List.perm_append_right_iff _).1 hperm⟩

/-- Sorting compares no other elements than one with another before it in the list. -/
theorem sort_map (h : xs.Pairwise fun a b => less' (f b) (f a) = less b a) :
    sort less' (xs.map f) = (sort less xs).map f := by
  obtain ⟨front, hsplit, hperm⟩ := exists_leadingRun less xs
  rw [sort, sort, leadingRun_map h]
  rw [hsplit] at h
  obtain ⟨-, hrest, hacross⟩ := List.pairwise_append.1 h
  exact foldl_insert_map (fun a ha => hacross a (hperm.subset ha)) hrest

/-! ### The stable order -/

variable {κ : Type} [LinearOrder κ] {key : α → κ}

theorem orders_key : Orders (fun a b => decide (key a < key b)) xs where
  asymm _ _ _ _ h := decide_eq_false (lt_asymm (of_decide_eq_true h))
  trans _ _ _ _ _ _ hab hbc :=
    decide_eq_false (not_lt.2 (le_trans (not_lt.1 (of_decide_eq_false hab)) (not_lt.1 (of_decide_eq_false hbc))))

/-- Earlier places are smaller. -/
theorem pairwise_zipIdx : xs.zipIdx.Pairwise fun p q => p.2 < q.2 := by
  rw [← List.pairwise_map (f := Prod.snd) (R := (· < ·)), List.zipIdx_map_snd]
  exact List.pairwise_lt_range'

theorem zipIdxLE_iff {p q : α × Nat} : List.zipIdxLE (fun a b => decide (key a ≤ key b)) p q = true ↔
    toLex (key p.1, p.2) ≤ toLex (key q.1, q.2) := by
  rw [Prod.Lex.toLex_le_toLex]
  unfold List.zipIdxLE
  rcases lt_trichotomy (key p.1) (key q.1) with h | h | h
  · simp [h, h.le, h.not_ge]
  · simp [h]
  · simp [h.not_ge, h.not_gt, h.ne']

/-- Sorting by keys is stable sorting by keys. -/
theorem sort_eq_mergeSort :
    sort (fun a b => decide (key a < key b)) xs = xs.mergeSort fun a b => decide (key a ≤ key b) := by
  have hplaces : xs.zipIdx.Pairwise fun p q => decide (key q.1 < key p.1) =
      decide (toLex (key q.1, q.2) < toLex (key p.1, p.2)) := by
    refine pairwise_zipIdx.imp fun {p q} hpq => decide_eq_decide.2 ?_
    rw [Prod.Lex.toLex_lt_toLex]
    exact ⟨.inl, fun h => h.resolve_right fun h => absurd h.2 (Nat.lt_asymm hpq)⟩
  have hsame : sort (fun p q => decide (toLex (key p.1, p.2) < toLex (key q.1, q.2))) xs.zipIdx =
      xs.zipIdx.mergeSort (List.zipIdxLE fun a b => decide (key a ≤ key b)) := by
    refine List.Perm.eq_of_pairwise (fun p q hp hq (hpq : toLex (key p.1, p.2) ≤ toLex (key q.1, q.2)) hqp => ?_) ?_ ?_
      ((sort_perm _ _).trans (List.mergeSort_perm _ _).symm)
    · have hplace : p.2 = q.2 := congrArg (fun k => (ofLex k).2) (le_antisymm hpq hqp)
      rw [(sort_perm _ _).mem_iff, List.mem_zipIdx_iff_getElem?, hplace] at hp
      rw [List.mem_mergeSort, List.mem_zipIdx_iff_getElem?, hp] at hq
      exact Prod.ext (Option.some.inj hq) hplace
    · exact (sorted_sort orders_key).imp fun h => not_lt.1 (of_decide_eq_false h)
    · refine (List.pairwise_mergeSort (List.zipIdxLE_trans fun a b c hab hbc => ?_)
        (List.zipIdxLE_total fun a b => ?_) _).imp zipIdxLE_iff.1
      · exact decide_eq_true (le_trans (of_decide_eq_true hab) (of_decide_eq_true hbc))
      · rw [Bool.or_eq_true, decide_eq_true_eq, decide_eq_true_eq]
        exact le_total _ _
  calc sort (fun a b => decide (key a < key b)) xs
    _ = sort (fun a b => decide (key a < key b)) (xs.zipIdx.map Prod.fst) := by rw [List.zipIdx_map_fst]
    _ = (sort (fun p q => decide (toLex (key p.1, p.2) < toLex (key q.1, q.2))) xs.zipIdx).map Prod.fst :=
      sort_map hplaces
    _ = _ := by rw [hsame, List.mergeSort_zipIdx]

end GoalSearch.Sorting
