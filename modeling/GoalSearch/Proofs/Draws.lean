import GoalSearch.Proofs.Postcondition
import GoalSearch.Tournament

/-!
# Draws that cannot fail

A draw fails only where it is asked for what there is not: an integer from an interval without integers, or a member of
an empty list. Otherwise it comes back with what was asked for. A shift is rounded, so it takes normally distributed
numbers that are finite. What one draw after the other gives, and nothing but these draws, is told by `Draws`.
-/

namespace GoalSearch

variable {ω α : Type} {E : Fault → ω → Prop} {w : ω}

/-- From `w` to `v` nothing happens but one draw after the other, which give the list. -/
inductive Draws (next : ω → α × ω) : ω → List α → ω → Prop
  | nil {w : ω} : Draws next w [] w
  | cons {w v : ω} {xs : List α} (h : Draws next (next w).2 xs v) : Draws next w ((next w).1 :: xs) v

namespace Draws
variable {next : ω → α × ω} {u v : ω} {xs ys : List α}

theorem append (h : Draws next w xs v) (h' : Draws next v ys u) : Draws next w (xs ++ ys) u := by
  induction h with
  | nil => exact h'
  | cons _ ih => exact .cons (ih h')

theorem forall_mem {p : α → Prop} (h : Draws next w xs v) (hnext : ∀ w, p (next w).1) : ∀ x ∈ xs, p x := by
  induction h with
  | nil => simp
  | cons _ ih => exact List.forall_mem_cons.2 ⟨hnext _, ih⟩

end Draws

namespace RandomSource

/-- The normally distributed numbers of the source are finite. -/
def HasFiniteNormals (source : RandomSource ω) : Prop :=
  ∀ mean deviation w, Binary64.isFinite (source.nextNormal mean deviation w).1 = true

variable (source : RandomSource ω)

theorem wp_unit {Q : Float → ω → Prop} : wp source.unit Q E w ↔ Q (source.nextUnit w).1 (source.nextUnit w).2 := Iff.rfl

theorem wp_bool {Q : Bool → ω → Prop} :
    wp source.bool Q E w ↔ Q ((source.nextUnit w).1 < 0.5) (source.nextUnit w).2 := Iff.rfl

theorem run_int {low high : Int} (h : low < high) : (source.int low high).run w =
    (.ok (low + ((source.nextBelow (high - low).toNat w).1 : Int)), (source.nextBelow (high - low).toNat w).2) := by
  show source.int low high w = _
  unfold int
  rw [if_neg (Int.not_le.2 h)]

theorem wp_int {low high : Int} (h : low < high) :
    wp (source.int low high) (fun n _ => low ≤ n ∧ n < high) E w := by
  have hlt := source.nextBelow_lt w (show 0 < (high - low).toNat by omega)
  rw [wp_of_run_eq (source.run_int h)]
  omega

/-- From a list that is not empty a member is chosen. -/
theorem wp_choice {xs : List α} (hxs : xs ≠ []) : wp (source.choice xs) (fun x _ => x ∈ xs) E w := by
  have hlength := List.length_pos_iff.2 hxs
  have hrun : (source.choice xs).run w =
      (.ok (xs.get ⟨(source.nextBelow xs.length w).1, source.nextBelow_lt w hlength⟩),
        (source.nextBelow xs.length w).2) := by
    show source.choice xs w = _
    unfold choice
    rw [dif_pos hlength]
  rw [wp_of_run_eq hrun]
  exact List.get_mem _ _

theorem wp_shift {source : RandomSource ω} (h : source.HasFiniteNormals) (deviation : Float) :
    wp (source.shift deviation) (fun _ _ => True) E w := by
  have hround : ∃ n, Binary64.round? (source.nextNormal 0.0 deviation w).1 = some n := by
    unfold Binary64.round?
    rw [if_pos (h 0.0 deviation w)]
    exact ⟨_, rfl⟩
  obtain ⟨n, hn⟩ := hround
  unfold shift
  refine wp_seq (Q := fun z _ => z = (source.nextNormal 0.0 deviation w).1) rfl fun z _ hz => ?_
  rw [hz, hn]
  trivial

end RandomSource

/-- Among some candidates a tournament has a winner. -/
theorem Tournament.wp_index [LT α] [DecidableLT α] {source : RandomSource ω} {rank : Nat → Int} {distance : Nat → α}
    {count size : Nat} (hcount : 0 < count) :
    wp (index source rank distance count size) (fun k _ => k < count) E w := by
  have hint : ∀ w, wp (source.int 0 count) (fun k _ => k.toNat < count) E w := fun w =>
    wp_imp (source.wp_int (Int.natCast_pos.2 hcount)) fun k _ hk => by omega
  have hrounds : ∀ n winner w, winner < count →
      wp (rounds source (beats rank distance) count n winner) (fun k _ => k < count) E w := by
    intro n
    induction n with
    | zero => exact fun _ _ h => h
    | succ n ih =>
      intro winner w hw
      unfold rounds
      refine wp_seq (hint w) fun k w' hk => ih _ _ ?_
      split
      · exact hk
      · exact hw
  unfold index
  exact wp_seq (hint w) fun k w' hk => hrounds _ _ _ hk

namespace Sample

/-- Draws that count how many there were. The unit draws are small and large in turn. -/
def counting : RandomSource Nat where
  nextUnit w := (if w % 2 = 0 then 0.25 else 0.75, w + 1)
  nextBelow n w := (w % n, w + 1)
  nextNormal _ _ w := (0.0, w + 1)
  nextBelow_lt w h := Nat.mod_lt w h

end Sample

end GoalSearch
