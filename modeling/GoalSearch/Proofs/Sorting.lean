import GoalSearch.Sorting
import Mathlib.Data.List.Perm.Basic

/-!
# Sorting

Whatever the comparison says, `sort` and `sortDescending` give the elements of the list, each as often as
before (`sort_perm`, `sortDescending_perm`). If the comparison orders the elements, the result is in order
(`sorted_sort`, `sorted_sortDescending`).
-/

namespace GoalSearch.Sorting

variable {α : Type} {less : α → α → Bool} {x : α} {run xs ys : List α}

theorem descending_perm :
    ((descending less run x xs).1 ++ (descending less run x xs).2).Perm (run ++ x :: xs) := by
  induction xs generalizing run x with
  | nil => simpa [descending] using (List.perm_append_singleton x run).symm
  | cons y rest ih =>
    unfold descending
    split
    · exact ih.trans (List.perm_middle.symm.trans (by simp))
    · exact List.perm_middle.symm

theorem ascending_perm :
    ((ascending less run x xs).1 ++ (ascending less run x xs).2).Perm (run ++ x :: xs) := by
  induction xs generalizing run x with
  | nil => simpa [ascending] using (List.perm_append_singleton x run).symm
  | cons y rest ih =>
    unfold ascending
    split
    · exact List.perm_middle.symm
    · exact ih.trans (List.perm_middle.symm.trans (by simp))

theorem leadingRun_perm : ((leadingRun less xs).1 ++ (leadingRun less xs).2).Perm xs := by
  rcases xs with _ | ⟨x, _ | ⟨y, rest⟩⟩
  · rfl
  · rfl
  · rw [leadingRun]
    split
    · exact descending_perm
    · exact ((ascending less [x] y rest).1.reverse_perm.append_right _).trans ascending_perm

theorem place_le {steps low high : Nat} (h : low ≤ high) : place less x xs steps low high ≤ high := by
  induction steps generalizing low high with
  | zero => exact h
  | succ steps ih =>
    unfold place
    split
    · dsimp only
      split
      · split
        · exact Nat.le_trans (ih (by omega)) (by omega)
        · exact ih (by omega)
      · exact h
    · exact h

theorem insert_perm : (insert less xs x).Perm (x :: xs) := List.perm_insertIdx _ _ (place_le (Nat.zero_le _))

theorem foldl_insert_perm : (xs.foldl (insert less) run).Perm (run ++ xs) := by
  induction xs generalizing run with
  | nil => simp
  | cons x xs ih => exact ih.trans ((insert_perm.append_right xs).trans List.perm_middle.symm)

theorem sort_perm (less : α → α → Bool) (xs : List α) : (sort less xs).Perm xs :=
  foldl_insert_perm.trans leadingRun_perm

theorem sortDescending_perm (less : α → α → Bool) (xs : List α) : (sortDescending less xs).Perm xs :=
  (List.reverse_perm _).trans ((sort_perm less xs.reverse).trans (List.reverse_perm xs))

/-! ### The result is sorted -/

/-- The comparison orders the elements of a list; neither of two may be less. -/
structure Orders (less : α → α → Bool) (xs : List α) : Prop where
  asymm : ∀ a ∈ xs, ∀ b ∈ xs, less a b = true → less b a = false
  trans : ∀ a ∈ xs, ∀ b ∈ xs, ∀ c ∈ xs, less b a = false → less c b = false → less c a = false

theorem Orders.mono (h : Orders less xs) (hsub : ys ⊆ xs) : Orders less ys where
  asymm a ha b hb := h.asymm a (hsub ha) b (hsub hb)
  trans a ha b hb c hc := h.trans a (hsub ha) b (hsub hb) c (hsub hc)

/-- No element is less than one before it. -/
def Sorted (less : α → α → Bool) (xs : List α) : Prop := xs.Pairwise fun a b => less b a = false

theorem sorted_descending (h : Orders less (x :: run ++ xs)) (hrun : Sorted less (x :: run)) :
    Sorted less (descending less run x xs).1 := by
  induction xs generalizing run x with
  | nil => exact hrun
  | cons y rest ih =>
    unfold descending
    split
    · rename_i hless
      refine ih (h.mono fun z hz => ?_) (List.pairwise_cons.2 ⟨fun z hz => ?_, hrun⟩)
      · simp only [List.mem_append, List.mem_cons] at hz ⊢
        tauto
      · have hyx : less x y = false := h.asymm y (by simp) x (by simp) hless
        rcases List.mem_cons.1 hz with rfl | hz'
        · exact hyx
        · exact h.trans y (by simp) x (by simp) z (by simp [hz']) hyx ((List.pairwise_cons.1 hrun).1 z hz')
    · exact hrun

theorem sorted_ascending (h : Orders less (x :: run ++ xs)) (hrun : Sorted less (x :: run).reverse) :
    Sorted less (ascending less run x xs).1.reverse := by
  induction xs generalizing run x with
  | nil => exact hrun
  | cons y rest ih =>
    unfold ascending
    split
    · exact hrun
    · rename_i hless
      rw [Bool.not_eq_true] at hless
      refine ih (h.mono fun z hz => ?_) ?_
      · simp only [List.mem_append, List.mem_cons] at hz ⊢
        tauto
      · rw [Sorted, List.pairwise_reverse] at hrun ⊢
        refine List.pairwise_cons.2 ⟨fun z hz => ?_, hrun⟩
        rcases List.mem_cons.1 hz with rfl | hz'
        · exact hless
        · exact h.trans z (by simp [hz']) x (by simp) y (by simp) ((List.pairwise_cons.1 hrun).1 z hz') hless

theorem sorted_leadingRun (h : Orders less xs) : Sorted less (leadingRun less xs).1 := by
  rcases xs with _ | ⟨x, _ | ⟨y, rest⟩⟩
  · exact .nil
  · exact List.pairwise_singleton _ _
  · rw [leadingRun]
    split
    · rename_i hless
      refine sorted_descending (h.mono fun z hz => ?_) (List.pairwise_pair.2 ?_)
      · simp only [List.mem_append, List.mem_cons] at hz ⊢
        tauto
      · exact h.asymm y (by simp) x (by simp) hless
    · rename_i hless
      refine sorted_ascending (h.mono fun z hz => ?_) (List.pairwise_pair.2 ?_)
      · simp only [List.mem_append, List.mem_cons] at hz ⊢
        tauto
      · exact Bool.not_eq_true _ ▸ hless

/-- The place is behind all that `x` is not less than, and in front of all that it is less than. -/
theorem place_spec (h : Orders less (x :: xs)) (hxs : Sorted less xs) {steps low high : Nat}
    (hsteps : high - low ≤ steps) (hlow : low ≤ high) (hhigh : high ≤ xs.length)
    (hbefore : ∀ y ∈ xs.take low, less x y = false) (hbehind : ∀ y ∈ xs.drop high, less x y = true) :
    (∀ y ∈ xs.take (place less x xs steps low high), less x y = false) ∧
      ∀ y ∈ xs.drop (place less x xs steps low high), less x y = true := by
  induction steps generalizing low high with
  | zero =>
    obtain rfl : low = high := by omega
    exact ⟨hbefore, hbehind⟩
  | succ steps ih =>
    unfold place
    split
    · have hmid : (low + high) / 2 < xs.length := by omega
      dsimp only
      rw [List.getElem?_eq_getElem hmid]
      dsimp only
      have hy : xs[(low + high) / 2] ∈ xs := List.getElem_mem hmid
      split
      · rename_i hless
        refine ih (by omega) (by omega) (Nat.le_of_lt hmid) hbefore fun z hz => ?_
        have hsorted : Sorted less (xs.drop ((low + high) / 2)) := hxs.sublist (List.drop_sublist _ _)
        rw [List.drop_eq_getElem_cons hmid] at hsorted hz
        rcases List.mem_cons.1 hz with rfl | hz
        · exact hless
        · -- what is behind the middle is not less than it
          by_contra hnot
          have hafter := (List.pairwise_cons.1 hsorted).1 z hz
          have hxy := h.trans _ (.tail _ hy) z (.tail _ (List.mem_of_mem_drop hz)) x List.mem_cons_self hafter
            (Bool.not_eq_true _ ▸ hnot)
          exact absurd (hless.symm.trans hxy) (by decide)
      · rename_i hless
        rw [Bool.not_eq_true] at hless
        refine ih (by omega) (by omega) hhigh (fun z hz => ?_) hbehind
        have hsorted : Sorted less (xs.take ((low + high) / 2 + 1)) := hxs.sublist (List.take_sublist _ _)
        rw [List.take_succ_eq_append_getElem hmid] at hsorted hz
        rcases List.mem_append.1 hz with hz | hz
        · have hbefore := (List.pairwise_append.1 hsorted).2.2 z hz _ (List.mem_singleton_self _)
          exact h.trans z (.tail _ (List.mem_of_mem_take hz)) _ (.tail _ hy) x List.mem_cons_self hbefore hless
        · rw [List.mem_singleton.1 hz]
          exact hless
    · obtain rfl : low = high := by omega
      exact ⟨hbefore, hbehind⟩

theorem sorted_insert (h : Orders less (x :: xs)) (hxs : Sorted less xs) : Sorted less (insert less xs x) := by
  have hplace : place less x xs (xs.length + 1) 0 xs.length ≤ xs.length := place_le (Nat.zero_le xs.length)
  obtain ⟨hbefore, hbehind⟩ : (∀ y ∈ xs.take (place less x xs (xs.length + 1) 0 xs.length), less x y = false) ∧
      ∀ y ∈ xs.drop (place less x xs (xs.length + 1) 0 xs.length), less x y = true :=
    place_spec h hxs (by omega) (Nat.zero_le _) (Nat.le_refl _) (by simp) (by simp)
  obtain ⟨front, back, rfl, hlength, hinsert⟩ := List.exists_of_modifyTailIdx (List.cons x) hplace
  rw [← hlength, List.take_left] at hbefore
  rw [← hlength, List.drop_left] at hbehind
  have hsplit := List.pairwise_append.1 hxs
  show Sorted less (List.modifyTailIdx _ _ _)
  rw [hinsert]
  refine List.pairwise_append.2 ⟨hsplit.1, List.pairwise_cons.2 ⟨fun b hb => ?_, hsplit.2.1⟩, fun a ha b hb => ?_⟩
  · exact h.asymm x (by simp) b (by simp [hb]) (hbehind b hb)
  · rcases List.mem_cons.1 hb with rfl | hb
    · exact hbefore a ha
    · exact hsplit.2.2 a ha b hb

theorem sorted_foldl_insert (h : Orders less (run ++ xs)) (hrun : Sorted less run) :
    Sorted less (xs.foldl (insert less) run) := by
  induction xs generalizing run with
  | nil => exact hrun
  | cons x xs ih =>
    have hx : Sorted less (insert less run x) := sorted_insert (h.mono fun z hz => by simp at hz ⊢; tauto) hrun
    refine ih (h.mono fun z hz => ?_) hx
    rw [List.mem_append, insert_perm.mem_iff] at hz
    simp at hz ⊢
    tauto

/-- Sorting by a comparison that orders the elements. -/
theorem sorted_sort (h : Orders less xs) : Sorted less (sort less xs) :=
  sorted_foldl_insert (h.mono leadingRun_perm.subset) (sorted_leadingRun h)

theorem sorted_sortDescending (h : Orders less xs) :
    (sortDescending less xs).Pairwise fun a b => less a b = false :=
  List.pairwise_reverse.2 (sorted_sort (h.mono (List.reverse_perm xs).subset))

end GoalSearch.Sorting
