import GoalSearch.Distinct
import Mathlib.Data.List.Basic
import Mathlib.Data.List.Nodup

/-!
# Members of lists without repeats

`adjoin` and `ofList` keep what was there, add what is named, and never repeat an element.
-/

namespace GoalSearch.Distinct

variable {β : Type} [DecidableEq β] {xs ys : List β} {x y : β}

@[simp] theorem mem_adjoin : y ∈ adjoin xs x ↔ y ∈ xs ∨ y = x := by
  unfold adjoin; split
  · exact ⟨.inl, fun h => h.elim id fun h => h ▸ ‹x ∈ xs›⟩
  · simp

theorem nodup_adjoin (h : xs.Nodup) : (adjoin xs x).Nodup := by
  unfold adjoin; split
  · exact h
  · exact List.nodup_append'.2 ⟨h, List.nodup_singleton x, by simpa using ‹x ∉ xs›⟩

theorem mem_foldl_adjoin : y ∈ ys.foldl adjoin xs ↔ y ∈ xs ∨ y ∈ ys := by
  induction ys generalizing xs with
  | nil => simp
  | cons z ys ih => rw [List.foldl_cons, ih, mem_adjoin, List.mem_cons, or_assoc]

theorem nodup_foldl_adjoin (h : xs.Nodup) : (ys.foldl adjoin xs).Nodup := by
  induction ys generalizing xs with
  | nil => exact h
  | cons z ys ih => exact ih (nodup_adjoin h)

@[simp] theorem mem_ofList : y ∈ ofList ys ↔ y ∈ ys := by simp [ofList, mem_foldl_adjoin]

theorem foldl_adjoin_eq (h : ys.Nodup) : ys.foldl adjoin xs = xs ++ ys.filter (· ∉ xs) := by
  induction ys generalizing xs with
  | nil => simp
  | cons y ys ih =>
    obtain ⟨hy, h⟩ := List.nodup_cons.1 h
    rw [List.foldl_cons, ih h]
    unfold adjoin
    by_cases hyx : y ∈ xs
    · rw [if_pos hyx, List.filter_cons_of_neg (by simpa using hyx)]
    · have hlater : ys.filter (· ∉ xs ++ [y]) = ys.filter (· ∉ xs) := by
        refine List.filter_congr fun z hz => ?_
        have hne : z ≠ y := fun e => hy (e ▸ hz)
        simp [hne]
      rw [if_neg hyx, hlater, List.filter_cons_of_pos (by simpa using hyx), List.append_assoc, List.singleton_append]

theorem ofList_of_nodup (h : ys.Nodup) : ofList ys = ys := by
  have hall : ys.filter (· ∉ ([] : List β)) = ys := List.filter_eq_self.2 fun y _ => by simp
  rw [ofList, foldl_adjoin_eq h, hall, List.nil_append]

theorem foldl_adjoin_sublist : (ys.foldl adjoin xs).Sublist (xs ++ ys) := by
  induction ys generalizing xs with
  | nil => simp
  | cons y ys ih =>
    have hadjoin : (adjoin xs y).Sublist (xs ++ [y]) := by
      unfold adjoin; split
      · exact List.sublist_append_left xs [y]
      · exact List.Sublist.refl _
    simpa using ih.trans (hadjoin.append_right ys)

theorem ofList_sublist : (ofList ys).Sublist ys := foldl_adjoin_sublist

theorem nodup_ofList : (ofList ys).Nodup := nodup_foldl_adjoin List.nodup_nil

end GoalSearch.Distinct
