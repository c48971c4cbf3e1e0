import GoalSearch.Mutation
import GoalSearch.Proofs.Draws
import GoalSearch.Proofs.Number.Arithmetic
import Mathlib.Data.List.Induction
import Mathlib.Data.List.Perm.Basic

/-!
# The phases of a mutation, position by position

A sequence mutation removes, reads, replaces and inserts statements by positions in a list that changes under way. What
becomes of a statement is still told by its position in the list that the phase starts with. Deletion goes from the last
position to the first, so a removal does not move what is still to come, and a statement stays if its own draw is beyond
the share of one that it has in the test case (`chosen`). A change moves nothing (`Considers`). An insertion moves
statements and leaves them in their order (`Inserts`). All these relations tell what a phase draws and calls, and so are
exact (`wp_delete`, `wp_changePhase`, `wp_insert`).
-/

namespace GoalSearch

variable {σ ω α : Type} {xs ys : List σ} {w : ω}

/-! ### Positions -/

namespace TestCase
variable {new : σ} {i : Nat}

theorem remove_natCast (h : i < xs.length) : remove i xs = .ok (xs.eraseIdx i) := by
  have hinside : Position.inside? xs.length i = some i := by
    have hfront : Position.fromFront xs.length i = i := if_neg (by omega)
    unfold Position.inside?
    dsimp only
    rw [hfront, if_pos (by omega), Int.toNat_natCast]
  unfold remove
  rw [hinside]

theorem get_natCast (h : i < xs.length) : get i xs = .ok xs[i] := by
  unfold get
  rw [if_pos (Int.natCast_nonneg i), Int.toNat_natCast, List.getElem?_eq_getElem h]

theorem set_natCast (h : i < xs.length) : set new i xs = .ok (xs.set i new) := by
  unfold set
  rw [if_pos (by omega), Int.toNat_natCast]

theorem sublist_add {position : Int} : xs.Sublist (add new position xs) := by
  unfold add
  split
  · exact List.sublist_append_left xs [new]
  · exact List.sublist_insertIdx _ _ _

theorem perm_add {position : Int} : (add new position xs).Perm (new :: xs) := by
  unfold add
  split
  · exact List.perm_append_singleton new xs
  · exact List.perm_insertIdx new xs (Nat.min_le_right _ _)

theorem length_add {position : Int} : (add new position xs).length = xs.length + 1 := perm_add.length_eq

end TestCase

/-! ### Edits -/

namespace Edit
variable {E : Fault → List σ × ω → Prop} {a : α}

theorem wp_draw {x : Draw ω α} {Q : α → List σ × ω → Prop} :
    wp (draw x) Q E (xs, w) ↔
      wp (x : ExceptT Fault (StateM ω) α) (fun a v => Q a (xs, v)) (fun e v => E e (xs, v)) w := by
  let y : ExceptT Fault (StateM ω) α := x
  have hrun : (draw x : Edit σ ω α).run (xs, w) = ((y.run w).1, xs, (y.run w).2) := rfl
  show wp (draw x) Q E (xs, w) ↔ wp y _ _ _
  unfold wp
  rw [hrun]
  rcases y.run w with ⟨e | a, v⟩ <;> rfl

theorem wp_statements {Q : List σ → List σ × ω → Prop} : wp statements Q E (xs, w) ↔ Q xs (xs, w) := Iff.rfl

theorem wp_read_of_eq {f : List σ → Except Fault α} {Q : α → List σ × ω → Prop} (h : f xs = .ok a) :
    wp (read f) Q E (xs, w) ↔ Q a (xs, w) :=
  wp_of_run_eq (show (f xs, xs, w) = _ by rw [h])

theorem wp_change_of_eq {f : List σ → Except Fault (List σ)} {ys : List σ} {Q : Unit → List σ × ω → Prop}
    (h : f xs = .ok ys) : wp (change f) Q E (xs, w) ↔ Q () (ys, w) := by
  have hrun : (change f : Edit σ ω Unit).run (xs, w) = (.ok (), ys, w) := by
    show (change f : Edit σ ω Unit) (xs, w) = _
    unfold change
    dsimp only
    rw [h]
  exact wp_of_run_eq hrun

end Edit

namespace SequenceMutation

variable {source : RandomSource ω} {op : SequenceMutation σ ω} {p : Float} {E : Fault → List σ × ω → Prop} {u v : ω}

/-! ### Deletion -/

/-- The statements whose own draws are as told. The first draw is that of the last statement. -/
def chosen (keep : Float → Bool) (xs : List σ) (draws : List Float) : List σ :=
  ((xs.zip draws.reverse).filter fun sx => keep sx.2).map Prod.fst

section Chosen
variable {keep : Float → Bool} {draws : List Float}

theorem chosen_concat {s : σ} {x : Float} (h : draws.length = xs.length) : chosen keep (xs ++ [s]) (x :: draws) =
    chosen keep xs draws ++ if keep x then [s] else [] := by
  unfold chosen
  rw [List.reverse_cons, List.zip_append (by rw [List.length_reverse, h]), List.filter_append, List.map_append]
  cases hkeep : keep x <;> simp [hkeep]

theorem map_fst_zip_reverse (h : draws.length = xs.length) : (xs.zip draws.reverse).map Prod.fst = xs :=
  List.map_fst_zip (by rw [List.length_reverse, h])

theorem chosen_sublist (h : draws.length = xs.length) : (chosen keep xs draws).Sublist xs := by
  have hsublist : (chosen keep xs draws).Sublist ((xs.zip draws.reverse).map Prod.fst) := List.filter_sublist.map Prod.fst
  rwa [map_fst_zip_reverse h] at hsublist

theorem chosen_congr {keep' : Float → Bool} (h : ∀ x ∈ draws, keep x = keep' x) :
    chosen keep xs draws = chosen keep' xs draws :=
  congrArg (List.map Prod.fst) (List.filter_congr fun _ hsx => h _ (List.mem_reverse.1 (List.of_mem_zip hsx).2))

theorem chosen_eq_nil_iff (h : draws.length = xs.length) : chosen keep xs draws = [] ↔ ∀ x ∈ draws, keep x = false := by
  unfold chosen
  rw [List.map_eq_nil_iff, List.filter_eq_nil_iff]
  refine ⟨fun hnone x hx => ?_, fun hnone sx hsx => ?_⟩
  · have hzip : x ∈ (xs.zip draws.reverse).map Prod.snd := by
      rwa [List.map_snd_zip (by rw [List.length_reverse, h]), List.mem_reverse]
    obtain ⟨sx, hsx, rfl⟩ := List.mem_map.1 hzip
    exact Bool.eq_false_iff.2 (hnone sx hsx)
  · exact Bool.eq_false_iff.1 (hnone _ (List.mem_reverse.1 (List.of_mem_zip hsx).2))

/-- Together with the others, the chosen statements are all. -/
theorem chosen_perm (h : draws.length = xs.length) : (chosen keep xs draws ++ chosen (! keep ·) xs draws).Perm xs := by
  have hperm := (List.filter_append_perm (fun sx => keep sx.2) (xs.zip draws.reverse)).map Prod.fst
  rwa [List.map_append, map_fst_zip_reverse h] at hperm

end Chosen

/-- Statements are considered from the last one on, so those still to come are where they were. -/
theorem wp_deleteBefore (front back : List σ) :
    wp (deleteBefore source p front.length)
      (fun altered t => ∃ draws, Draws source.nextUnit w draws t.2 ∧ draws.length = front.length ∧
        t.1 = chosen (fun x => !(x ≤ p)) front draws ++ back ∧ altered = draws.any (· ≤ p)) E (front ++ back, w) := by
  induction front using List.reverseRecOn generalizing back w with
  | nil => exact ⟨[], .nil, rfl, rfl, rfl⟩
  | append_singleton front s ih =>
    rw [List.length_append, List.length_singleton, List.append_assoc]
    unfold deleteBefore
    rw [wp_bind, Edit.wp_draw, RandomSource.wp_unit, wp_ite]
    split
    · rename_i hle
      have herase : (front ++ ([s] ++ back)).eraseIdx front.length = front ++ back := by
        rw [List.eraseIdx_append_of_length_le le_rfl, Nat.sub_self]
        rfl
      rw [wp_bind, Edit.wp_change_of_eq (TestCase.remove_natCast (by simp)), herase]
      refine wp_seq (ih back) fun _ t ⟨draws, hdraws, hlength, ht, _⟩ => ⟨_, .cons hdraws, congrArg (· + 1) hlength, ?_, ?_⟩
      · rw [chosen_concat hlength, ht]
        simp [hle]
      · simp [hle]
    · rename_i hle
      refine wp_imp (ih (s :: back)) fun altered t ⟨draws, hdraws, hlength, ht, haltered⟩ =>
        ⟨_, .cons hdraws, congrArg (· + 1) hlength, ?_, ?_⟩
      · rw [chosen_concat hlength, ht]
        simp [hle]
      · simp [hle, haltered]

theorem wp_delete : wp (delete source)
    (fun altered t => ∃ draws, Draws source.nextUnit w draws t.2 ∧ draws.length = xs.length ∧
      t.1 = chosen (fun x => !(x ≤ share xs.length)) xs draws ∧ altered = draws.any (· ≤ share xs.length)) E (xs, w) := by
  unfold delete
  rw [wp_bind, Edit.wp_statements]
  dsimp only
  rw [wp_ite]
  split
  · rename_i hempty
    obtain rfl := List.length_eq_zero_iff.1 hempty
    exact ⟨[], .nil, rfl, rfl, rfl⟩
  · simpa only [List.append_nil] using wp_deleteBefore xs []

/-! ### Change -/

/-- What is made of the statements in their order, if anything: the draw for a statement decides whether a change of it
is tried. -/
inductive Considers (source : RandomSource ω) (op : SequenceMutation σ ω) (p : Float) :
    ω → List σ → List (Option σ) → ω → Prop
  | nil {w : ω} : Considers source op p w [] [] w
  | spared {w v : ω} {s : σ} {xs : List σ} {news : List (Option σ)} (hdraw : ¬ (source.nextUnit w).1 < p)
      (h : Considers source op p (source.nextUnit w).2 xs news v) : Considers source op p w (s :: xs) (none :: news) v
  | tried {w u v : ω} {s : σ} {new : Option σ} {xs : List σ} {news : List (Option σ)}
      (hdraw : (source.nextUnit w).1 < p) (hchange : (op.change s).run (source.nextUnit w).2 = (.ok new, u))
      (h : Considers source op p u xs news v) : Considers source op p w (s :: xs) (new :: news) v

/-- The statements, some of which are replaced. -/
def revised (xs : List σ) (news : List (Option σ)) : List σ := List.zipWith (fun s new => new.getD s) xs news

namespace Considers
variable {news : List (Option σ)}

theorem length_eq (h : Considers source op p w xs news v) : news.length = xs.length := by
  induction h with
  | nil => rfl
  | spared _ _ ih => exact congrArg (· + 1) ih
  | tried _ _ _ ih => exact congrArg (· + 1) ih

theorem length_revised (h : Considers source op p w xs news v) : (revised xs news).length = xs.length :=
  List.length_zipWith.trans (h.length_eq ▸ Nat.min_self _)

/-- A statement is as it was, unless its draw is small and there is a change of it. -/
theorem at_position (h : Considers source op p w xs news v) : ∀ (i : Nat) (s : σ), xs[i]? = some s →
    (revised xs news)[i]? = some s ∨ ∃ u new, (source.nextUnit u).1 < p ∧
      ((op.change s).run (source.nextUnit u).2).1 = .ok (some new) ∧ (revised xs news)[i]? = some new := by
  induction h with
  | nil => exact fun i s hs => by cases hs
  | spared _ _ ih =>
    intro i s hs
    cases i with
    | zero => exact .inl hs
    | succ i => exact ih i s hs
  | @tried w u v s' new xs news hdraw hchange _ ih =>
    intro i s hs
    cases i with
    | succ i => exact ih i s hs
    | zero =>
      obtain rfl : s' = s := Option.some.inj hs
      cases new with
      | none => exact .inl rfl
      | some new => exact .inr ⟨w, new, hdraw, by rw [hchange], rfl⟩

end Considers

/-- In some state the draw fails with the fault. -/
def Raises (x : Draw ω α) (e : Fault) : Prop := ∃ w, (x.run w).1 = .error e

/-- Replacing a statement moves no other. -/
theorem wp_changeFrom (front rest : List σ) :
    wp (changeFrom source op p front.length rest.length)
      (fun altered t => ∃ news, Considers source op p w rest news t.2 ∧ t.1 = front ++ revised rest news ∧
        altered = news.any (·.isSome))
      (fun e _ => ∃ s ∈ rest, Raises (op.change s) e) (front ++ rest, w) := by
  induction rest generalizing front w with
  | nil => exact ⟨[], .nil, rfl, rfl⟩
  | cons s rest ih =>
    have hnext : ∀ {s' : σ} {w : ω}, wp (changeFrom source op p (front.length + 1) rest.length)
        (fun altered t => ∃ news, Considers source op p w rest news t.2 ∧ t.1 = front ++ s' :: revised rest news ∧
          altered = news.any (·.isSome))
        (fun e _ => ∃ old ∈ s :: rest, Raises (op.change old) e) (front ++ s' :: rest, w) := by
      intro s' w
      have hrest := @ih w (front ++ [s'])
      rw [List.append_assoc, List.length_append, List.length_singleton] at hrest
      refine wp_mono hrest (fun altered t ⟨news, hnews, ht, haltered⟩ => ⟨news, hnews, ?_, haltered⟩)
        fun e t ⟨old, hold, he⟩ => ⟨old, List.mem_cons_of_mem _ hold, he⟩
      rw [ht, List.append_assoc]
      rfl
    rw [List.length_cons]
    unfold changeFrom
    rw [wp_bind, Edit.wp_draw, RandomSource.wp_unit, wp_ite]
    split
    · rename_i hdraw
      have hs : (front ++ s :: rest)[front.length]? = some s := by simp
      obtain ⟨hlength, hs⟩ := List.getElem?_eq_some_iff.1 hs
      rw [wp_bind, Edit.wp_read_of_eq (TestCase.get_natCast hlength), hs, wp_bind, Edit.wp_draw]
      refine wp_mono wp_runs (fun new u hchange => ?_) fun e u he => ⟨s, List.mem_cons_self, _, congrArg Prod.fst he⟩
      cases new with
      | none =>
        exact wp_imp hnext fun altered t ⟨news, hnews, ht, haltered⟩ =>
          ⟨none :: news, .tried hdraw hchange hnews, ht, haltered⟩
      | some new =>
        have hset : (front ++ s :: rest).set front.length new = front ++ new :: rest := by simp
        dsimp only
        rw [wp_bind, Edit.wp_change_of_eq (TestCase.set_natCast hlength), hset]
        exact wp_seq hnext fun _ t ⟨news, hnews, ht, _⟩ => ⟨some new :: news, .tried hdraw hchange hnews, ht, rfl⟩
    · rename_i hdraw
      exact wp_imp hnext fun altered t ⟨news, hnews, ht, haltered⟩ => ⟨none :: news, .spared hdraw hnews, ht, haltered⟩

theorem wp_changePhase : wp (changePhase source op)
    (fun altered t => ∃ news, Considers source op (share xs.length) w xs news t.2 ∧ t.1 = revised xs news ∧
      altered = news.any (·.isSome))
    (fun e _ => ∃ s ∈ xs, Raises (op.change s) e) (xs, w) := by
  unfold changePhase
  rw [wp_bind, Edit.wp_statements]
  dsimp only
  rw [wp_ite]
  split
  · rename_i hempty
    obtain rfl := List.length_eq_zero_iff.1 hempty
    exact ⟨[], .nil, rfl, rfl⟩
  · exact wp_changeFrom [] xs

/-! ### Insertion -/

/-- The statements that are made and inserted one after the other, the first one with the power `k` of the probability.
It ends when the draw is beyond the power, or when there is no room. -/
inductive Inserts (source : RandomSource ω) (op : SequenceMutation σ ω) :
    Nat → ω → List σ → List σ → List σ → ω → Prop
  | stop {k : Nat} {w : ω} {xs : List σ} {b : Float} (hbound : op.bound k = .ok b)
      (hstop : op.maxLength ≤ xs.length ∨ ¬ (source.nextUnit w).1 ≤ b) :
      Inserts source op k w xs [] xs (source.nextUnit w).2
  | next {k : Nat} {w u u' v : ω} {xs created ys : List σ} {b : Float} {position : Int} {new : σ}
      (hroom : xs.length < op.maxLength) (hbound : op.bound k = .ok b) (hdraw : (source.nextUnit w).1 ≤ b)
      (hposition : (source.int 0 (xs.length + 1)).run (source.nextUnit w).2 = (.ok position, u))
      (hnew : op.create.run u = (.ok new, u'))
      (h : Inserts source op (k + 1) u' (TestCase.add new position xs) created ys v) :
      Inserts source op k w xs (new :: created) ys v

namespace Inserts
variable {k : Nat} {created : List σ}

theorem sublist (h : Inserts source op k w xs created ys v) : xs.Sublist ys := by
  induction h with
  | stop => exact List.Sublist.refl _
  | next _ _ _ _ _ _ ih => exact TestCase.sublist_add.trans ih

theorem perm (h : Inserts source op k w xs created ys v) : ys.Perm (created ++ xs) := by
  induction h with
  | stop => exact .refl _
  | next _ _ _ _ _ _ ih => exact ih.trans ((TestCase.perm_add.append_left _).trans List.perm_middle)

theorem length_le (h : Inserts source op k w xs created ys v) : ys.length ≤ max xs.length op.maxLength := by
  induction h with
  | stop => exact Nat.le_max_left _ _
  | next hroom _ _ _ _ _ ih =>
    rw [TestCase.length_add] at ih
    omega

theorem made (h : Inserts source op k w xs created ys v) : ∀ s ∈ created, ∃ u u', op.create.run u = (.ok s, u') := by
  induction h with
  | stop => simp
  | next _ _ _ _ hnew _ ih => exact List.forall_mem_cons.2 ⟨⟨_, _, hnew⟩, ih⟩

end Inserts

theorem wp_insertFrom {room k : Nat} (hroom : room = op.maxLength - xs.length) :
    wp (insertFrom source op room k)
      (fun altered t => ∃ created, Inserts source op k w xs created t.1 t.2 ∧ altered = !created.isEmpty)
      (fun e _ => Raises op.create e ∨ ∃ k, op.bound k = .error e) (xs, w) := by
  induction room generalizing k xs w with
  | zero =>
    unfold insertFrom
    rw [wp_bind, Edit.wp_draw, RandomSource.wp_unit, wp_bind, Edit.wp_draw]
    exact wp_except.2 ⟨fun b hb => ⟨[], .stop hb (.inl (by omega)), rfl⟩, fun e he => .inr ⟨k, he⟩⟩
  | succ room ih =>
    unfold insertFrom
    rw [wp_bind, Edit.wp_draw, RandomSource.wp_unit, wp_bind, Edit.wp_draw]
    refine wp_except.2 ⟨fun b hbound => ?_, fun e he => .inr ⟨k, he⟩⟩
    dsimp only
    rw [wp_ite]
    split
    · rename_i hdraw
      rw [wp_bind, Edit.wp_statements, wp_bind, Edit.wp_draw]
      refine wp_imp (wp_run (source.wp_int (by omega))) fun position u ⟨hposition, _⟩ => ?_
      rw [wp_bind, Edit.wp_draw]
      refine wp_mono wp_runs (fun new u' hnew => ?_) fun e u' he => .inl ⟨u, congrArg Prod.fst he⟩
      rw [wp_bind, Edit.wp_change_of_eq (f := fun xs => .ok (TestCase.add new position xs)) rfl]
      refine wp_seq (ih (by rw [TestCase.length_add]; omega)) fun _ t ⟨created, hcreated, _⟩ => ?_
      exact ⟨new :: created, .next (by omega) hbound hdraw hposition hnew hcreated, rfl⟩
    · rename_i hdraw
      exact ⟨[], .stop hbound (.inr hdraw), rfl⟩

theorem wp_insert : wp (insert source op)
    (fun altered t => ∃ created, Inserts source op 1 w xs created t.1 t.2 ∧ altered = !created.isEmpty)
    (fun e _ => Raises op.create e ∨ ∃ k, op.bound k = .error e) (xs, w) := by
  unfold insert
  rw [wp_bind, Edit.wp_statements]
  exact wp_insertFrom rfl

/-! ### All phases -/

/-- Draws that are numbers are beyond the share of a statement, if they are not at most that share. -/
theorem chosen_of_numbers {draws : List Float} (h : ∀ x ∈ draws, ¬ Binary64.isNaN x = true) (n : Nat) :
    chosen (fun x => !(x ≤ share n)) xs draws = chosen (share n < ·) xs draws := by
  refine chosen_congr fun x hx => ?_
  rw [← decide_not]
  exact decide_eq_decide.2 (Binary64.not_le_iff (h x hx) (Binary64.not_nan_one_div (Binary64.not_nan_ofNat n)))

/-- Deletion keeps the statements whose own draws are beyond the share of a statement, where the draw for position `i` of
`n` is the one that `i` others follow. Changes keep the length, and replace a statement by a change of it and only if its
draw is small. Insertions keep the statements in their order, and all others are made. Of all that nothing fails but the
calls of the operator. -/
theorem phases_by_position (source : RandomSource ω) (op : SequenceMutation σ ω) (xs : List σ) (w : ω) :
    wp (delete source)
      (fun altered t => ∃ draws, Draws source.nextUnit w draws t.2 ∧ draws.length = xs.length ∧
        t.1 = chosen (fun x => !(x ≤ share xs.length)) xs draws ∧
        ((∀ x ∈ draws, ¬ Binary64.isNaN x = true) → t.1 = chosen (share xs.length < ·) xs draws) ∧
        (altered = true ↔ ∃ x ∈ draws, x ≤ share xs.length))
      (fun _ _ => False) (xs, w) ∧
    wp (changePhase source op)
      (fun altered t => ∃ news, Considers source op (share xs.length) w xs news t.2 ∧ t.1 = revised xs news ∧
        t.1.length = xs.length ∧
        (∀ (i : Nat) (s : σ), xs[i]? = some s → t.1[i]? = some s ∨ ∃ u new, (source.nextUnit u).1 < share xs.length ∧
          ((op.change s).run (source.nextUnit u).2).1 = .ok (some new) ∧ t.1[i]? = some new) ∧
        (altered = true ↔ ∃ new, some new ∈ news))
      (fun e _ => ∃ s ∈ xs, Raises (op.change s) e) (xs, w) ∧
    wp (insert source op)
      (fun altered t => ∃ created, Inserts source op 1 w xs created t.1 t.2 ∧ xs.Sublist t.1 ∧
        t.1.Perm (created ++ xs) ∧ (∀ s ∈ created, ∃ u u', op.create.run u = (.ok s, u')) ∧
        (altered = true ↔ created ≠ []))
      (fun e _ => Raises op.create e ∨ ∃ k, op.bound k = .error e) (xs, w) := by
  refine ⟨wp_imp wp_delete ?_, wp_imp wp_changePhase ?_, wp_imp wp_insert ?_⟩
  · rintro altered t ⟨draws, hdraws, hlength, ht, rfl⟩
    exact ⟨draws, hdraws, hlength, ht, fun hnumbers => ht.trans (chosen_of_numbers hnumbers _), by simp⟩
  · rintro altered t ⟨news, hnews, ht, rfl⟩
    rw [ht]
    exact ⟨news, hnews, rfl, hnews.length_revised, hnews.at_position, by simp [Option.isSome_iff_exists]⟩
  · rintro altered t ⟨created, hcreated, rfl⟩
    exact ⟨created, hcreated, hcreated.sublist, hcreated.perm, hcreated.made, by simp⟩

/-- With a third for each, the first and the third draw remove the last and the first statement. -/
example : ((delete Sample.counting).run (["a", "b", "c"], 0)).2 = (["b"], 3) := by decide +kernel

end SequenceMutation

end GoalSearch
