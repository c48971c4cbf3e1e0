import GoalSearch.Proofs.Archive.Callbacks
import GoalSearch.Proofs.Archive.Minimum
import Mathlib.Order.WithBot

/-!
# A batch settles

Each goal of an archive has a level: the size of the individual that is stored for it, if there is one. A submission
that changes the archive lowers the level of its goal, and any other leaves the archive as it is (`submit_level`);
thereafter the level is not above the size that was submitted. So a batch tells that it changed the archive if and only
if some goal has another individual thereafter, and to hand in the batch again, or a part of it, changes nothing
(`settled_of_update`).
-/

namespace GoalSearch.Archive

variable {σ ω : Type} {subject : Subject σ ω} {a : Archive Nat} {size size' : Nat → Nat} {x y : Nat} {g h : Goal}

/-! ### Levels -/

/-- The size of what is stored for a goal. -/
def level (size : Nat → Nat) (a : Archive Nat) (g : Goal) : WithTop Nat :=
  match a.get? g with
  | some y => WithTop.some (size y)
  | none => ⊤

theorem level_of_get? (hy : a.get? g = some y) : a.level size g = WithTop.some (size y) := by
  unfold level
  rw [hy]

theorem level_congr {b : Archive Nat} (h : b.get? g = a.get? g) : b.level size g = a.level size g := by
  unfold level
  rw [h]

/-- Only the sizes of the new individual and of the one that is stored matter. -/
theorem submit_congr (hx : size' x = size x) (hy : ∀ y, a.get? g = some y → size' y = size y) :
    a.submit size' x g = a.submit size x g := by
  have hsame : ((a.get? g).any fun y => decide (size' y ≤ size' x)) =
      (a.get? g).any fun y => decide (size y ≤ size x) := by
    cases e : a.get? g with
    | none => rfl
    | some y => simp [hx, hy y e]
  unfold submit
  rw [hsame]

/-- A submission either leaves an archive whose level is low enough, or lowers the level. -/
theorem submit_level (hg : g ∈ a.objectives) (size : Nat → Nat) (x : Nat) :
    (SearchM.changes (a.submit size x g).2 = false ∧ (a.submit size x g).1 = a ∧ a.level size g ≤ .some (size x)) ∨
    (SearchM.changes (a.submit size x g).2 = true ∧ (a.submit size x g).1.get? g = some x ∧
      WithTop.some (size x) < a.level size g) := by
  have hstored (hless : ∀ y, a.get? g = some y → size x < size y) :
      (a.submit size x g).1.get? g = some x ∧ WithTop.some (size x) < a.level size g := by
    rw [get?_submit, if_pos ⟨rfl, hg⟩]
    unfold level
    cases e : a.get? g with
    | none => exact ⟨rfl, WithTop.coe_lt_top _⟩
    | some y => exact ⟨if_pos (hless y e), WithTop.coe_lt_coe.2 (hless y e)⟩
  rcases a.submit_cases size x g with ⟨hn, -⟩ | ⟨-, ⟨y, hy, hle⟩, e⟩ | ⟨-, hless, ⟨-, e⟩ | ⟨-, e⟩⟩
  · exact absurd hg hn
  · left
    rw [e, level_of_get? hy]
    exact ⟨rfl, rfl, WithTop.coe_le_coe.2 hle⟩
  · exact .inr ⟨by rw [e]; rfl, hstored hless⟩
  · exact .inr ⟨by rw [e]; rfl, hstored hless⟩

theorem level_submit_le (hg : g ∈ a.objectives) : (a.submit size x g).1.level size h ≤ a.level size h := by
  by_cases hh : h = g
  · subst hh
    rcases submit_level hg size x with ⟨-, e, -⟩ | ⟨-, hx, hlt⟩
    · rw [e]
    · rw [level_of_get? hx]
      exact hlt.le
  · refine (level_congr ?_).le
    rw [get?_submit, if_neg fun hn => hh hn.1]

theorem level_submit_self_le (hg : g ∈ a.objectives) : (a.submit size x g).1.level size g ≤ .some (size x) := by
  rcases submit_level hg size x with ⟨-, e, hle⟩ | ⟨-, hx, -⟩
  · rwa [e]
  · rw [level_of_get? hx]

/-- Who is stored was stored before, or handed in. -/
theorem of_get?_submit (hy : (a.submit size x g).1.get? h = some y) : y = x ∨ a.get? h = some y := by
  rw [get?_submit] at hy
  split at hy
  · rename_i hh
    rw [hh.1]
    cases e : a.get? g with
    | none =>
      rw [e] at hy
      exact .inl (Option.some.inj hy).symm
    | some z =>
      rw [e] at hy
      dsimp only at hy
      split at hy
      · exact .inl (Option.some.inj hy).symm
      · exact .inr hy
  · exact .inr hy

/-! ### The course of a batch -/

/-- Submissions were made to the archive `a`, for objectives. Every level is at most what it was, and at most the size
of each submission for the goal; some level is below what it was if the archive changed, and else the archive is still
`a`. Whoever is stored keeps its size. -/
structure Settling (P : Scene σ ω → Prop) (size : Nat → Nat) (a : Archive Nat) (l : List (Nat × Goal)) (changed : Bool)
    (s : Search σ ω) : Prop where
  scene : P s.scene
  objectives : s.archive.objectives = a.objectives
  size_eq : ∀ t, P t → ∀ g y, s.archive.get? g = some y → (t.individual y).size = size y
  level_le : ∀ g, s.archive.level size g ≤ a.level size g
  submitted : ∀ p ∈ l, s.archive.level size p.2 ≤ .some (size p.1)
  lowered : changed = true → ∃ g, s.archive.level size g < a.level size g
  same : changed = false → s.archive = a

namespace Settling
variable {P : Scene σ ω → Prop} {l : List (Nat × Goal)} {changed : Bool} {s : Search σ ω} {i : Nat}

theorem refl (hs : P s.scene) (hsize : ∀ t, P t → ∀ g y, s.archive.get? g = some y → (t.individual y).size = size y) :
    Settling P size s.archive [] false s :=
  ⟨hs, rfl, hsize, fun _ => le_rfl, by simp, nofun, fun _ => rfl⟩

theorem wp_submit (h : Settling P size a l changed s) (hi : ∀ t, P t → (t.individual i).size = size i)
    (hlog : ∀ t log, P t → P { t with log := log }) (hg : g ∈ a.objectives) :
    wp (SearchM.submit i g) (fun changed' => Settling P size a (l ++ [(i, g)]) (changed || changed'))
      (fun _ _ => False) s := by
  refine SearchM.wp_submit fun log => ?_
  have hg' : g ∈ s.archive.objectives := h.objectives ▸ hg
  rw [submit_congr (hi _ h.scene) fun y hy => h.size_eq _ h.scene g y hy]
  have hle : ∀ k, (s.archive.submit size i g).1.level size k ≤ s.archive.level size k := fun k => level_submit_le hg'
  refine ⟨hlog _ _ h.scene, objectives_submit.trans h.objectives, fun t ht k y hy => ?_,
    fun k => (hle k).trans (h.level_le k), fun p hp => ?_, fun hchanged => ?_, fun hunchanged => ?_⟩
  · rcases of_get?_submit hy with rfl | hy
    · exact hi t ht
    · exact h.size_eq t ht k y hy
  · rcases List.mem_append.1 hp with hp | hp
    · exact (hle _).trans (h.submitted p hp)
    · obtain rfl := List.mem_singleton.1 hp
      exact level_submit_self_le hg'
  · rcases Bool.or_eq_true_iff.1 hchanged with hbefore | hnow
    · obtain ⟨k, hk⟩ := h.lowered hbefore
      exact ⟨k, (hle k).trans_lt hk⟩
    · rcases submit_level hg' size i with ⟨e, -⟩ | ⟨-, hx, hlt⟩
      · rw [e] at hnow
        cases hnow
      · refine ⟨g, ?_⟩
        show (s.archive.submit size i g).1.level size g < _
        rw [level_of_get? hx]
        exact hlt.trans_le (h.level_le g)
  · obtain ⟨hbefore, hnow⟩ := Bool.or_eq_false_iff.1 hunchanged
    rcases submit_level hg' size i with ⟨-, e, -⟩ | ⟨e, -⟩
    · exact e.trans (h.same hbefore)
    · rw [e] at hnow
      cases hnow

end Settling

section Batches
variable {P : Scene σ ω → Prop} {goals : List Goal} {members batch : List Nat} {verdict : Goal → Nat → Bool}
  {s : Search σ ω}

/-- Where no level is above the size of what is submitted, a batch changes nothing. -/
theorem Steady.wp_updateArchive_settled (hst : Steady subject P goals members size verdict) (hbatch : batch ⊆ members)
    (ho : s.archive.objectives = goals)
    (hstored : ∀ t, P t → ∀ g y, s.archive.get? g = some y → (t.individual y).size = size y) (hs : P s.scene)
    (hle : ∀ p ∈ (Call.update batch).submissions goals size verdict, s.archive.level size p.2 ≤ .some (size p.1)) :
    wp (SearchM.updateArchive subject batch) (fun changed t => changed = false ∧ t.archive = s.archive ∧ P t.scene)
      (fun _ _ => False) s := by
  refine hst.wp_updateArchive_of_submit (l := [])
    (J := fun _ changed t => changed = false ∧ t.archive = s.archive ∧ P t.scene)
    (fun _ _ _ h => h.2.2) (fun _ _ _ _ hscene h => ⟨h.1, h.2.1, hscene⟩) ?_ hbatch ho ⟨rfl, rfl, hs⟩
  rintro l _ t ⟨rfl, harchive, ht⟩ p hp
  obtain ⟨hg, hi, -⟩ := Call.mem_submissions_update.1 hp
  refine SearchM.wp_submit fun log => ?_
  rw [harchive, submit_congr (hst.size_eq _ ht p.1 (hbatch hi)) fun y hy => hstored _ ht p.2 y hy]
  rcases submit_level (ho ▸ hg) size p.1 with ⟨hchanges, e, -⟩ | ⟨-, -, hlt⟩
  · exact ⟨hchanges, e, hst.logged _ _ ht⟩
  · exact absurd hlt (hle p hp).not_gt

/-- What a batch comes to, from the first submission to the last. -/
theorem Steady.exists_settling (hst : Steady subject P s.archive.objectives batch size verdict)
    (hstored : ∀ t, P t → ∀ g y, s.archive.get? g = some y → (t.individual y).size = size y) (hs : P s.scene) :
    ∃ changed t, (SearchM.updateArchive subject batch).run s = (.ok changed, t) ∧
      Settling P size s.archive ((Call.update batch).submissions s.archive.objectives size verdict) changed t := by
  refine exists_of_wp (hst.wp_updateArchive_of_submit (J := Settling P size s.archive) (fun _ _ _ h => h.scene)
    (fun _ _ _ _ hscene h => ⟨hscene, h.objectives, h.size_eq, h.level_le, h.submitted, h.lowered, h.same⟩)
    (fun _ _ _ h p hp => ?_) (List.Subset.refl batch) rfl (.refl hs hstored))
  obtain ⟨hg, hi, -⟩ := Call.mem_submissions_update.1 hp
  exact h.wp_submit (fun t ht => hst.size_eq t ht p.1 hi) hst.logged hg

/-- A batch of individuals that keep their sizes and verdicts tells whether it changed the archive, where those that are
stored keep their sizes too: if so some goal has another individual thereafter, and if not the archive is as before,
with its objectives, its covered and its uncovered goals, and no callback was called. To hand in the same individuals,
or some of them, once more changes nothing and calls nobody. -/
theorem settled_of_update {w : Watched σ ω}
    (hst : Steady subject P w.search.archive.objectives batch size verdict)
    (hstored : ∀ t, P t → ∀ g y, w.search.archive.get? g = some y → (t.individual y).size = size y)
    (hs : P w.search.scene) :
    ∃ changed v, (WatchedM.updateArchive subject batch).run w = (.ok changed, v) ∧ P v.search.scene ∧
      (changed = true ↔ ∃ g, v.search.archive.get? g ≠ w.search.archive.get? g) ∧
      (changed = false → v.search.archive = w.search.archive ∧ v.calls = w.calls) ∧
      ∀ (u : Watched σ ω) (again : List Nat), u.search.archive = v.search.archive → P u.search.scene →
        again ⊆ batch → ∃ u', (WatchedM.updateArchive subject again).run u = (.ok false, u') ∧
          u'.search.archive = u.search.archive ∧ u'.calls = u.calls := by
  obtain ⟨changed, t, hrun, ht⟩ := hst.exists_settling hstored hs
  obtain ⟨v, hrun_watched, rfl, hcalls⟩ := WatchedM.exists_updateArchive hrun
  refine ⟨changed, v, hrun_watched, ht.scene, ⟨fun hchanged => ?_, fun ⟨g, hg⟩ => ?_⟩,
    fun hunchanged => ⟨ht.same hunchanged, hcalls (ht.same hunchanged)⟩, fun u again hu hscene hagain => ?_⟩
  · obtain ⟨g, hg⟩ := ht.lowered hchanged
    exact ⟨g, fun heq => hg.ne (level_congr heq)⟩
  · by_contra hunchanged
    exact hg (by rw [ht.same (Bool.eq_false_iff.2 hunchanged)])
  · have hle : ∀ p ∈ (Call.update again).submissions w.search.archive.objectives size verdict,
        u.search.archive.level size p.2 ≤ .some (size p.1) := by
      intro p hp
      obtain ⟨hg, hi, hsize, hverdict⟩ := Call.mem_submissions_update.1 hp
      rw [hu]
      exact ht.submitted p (Call.mem_submissions_update.2 ⟨hg, hagain hi, hsize, hverdict⟩)
    obtain ⟨_, t', hrepeat, rfl, harchive, -⟩ := exists_of_wp (hst.wp_updateArchive_settled hagain
      (by rw [hu, ht.objectives]) (by rw [hu]; exact ht.size_eq) hscene hle)
    obtain ⟨u', hrepeat_watched, rfl, hcalls'⟩ := WatchedM.exists_updateArchive hrepeat
    exact ⟨u', hrepeat_watched, harchive, hcalls' harchive⟩

end Batches

/-- The larger one of a pair is stored. A batch of both changes the archive, but only once. -/
theorem settled_of_update_pair : ∃ w v u : Watched Statement Sample.World,
    w.search.scene = coveringPair ∧ w.search.archive.covered = [(.atom 0, 0)] ∧ w.callbacks = 1 ∧
    v.search.archive.covered = [(.atom 0, 1)] ∧
    (WatchedM.updateArchive nobody [0, 1]).run w = (.ok true, v) ∧
    (WatchedM.updateArchive nobody [1, 0, 1]).run v = (.ok false, u) ∧ u.search.archive = v.search.archive ∧
    u.calls = v.calls := by
  let w : Watched Statement Sample.World :=
    { search :=
        { scene := coveringPair
          archive := { objectives := [.atom 0], uncovered := [], covered := [(.atom 0, 0)], announced := [] } }
      callbacks := 1 }
  have hst : Steady nobody (fun t => t.pool = coveringPair.pool) w.search.archive.objectives [0, 1] _ _ :=
    .of_evaluated evaluated_coveringPair
  have hstored : ∀ t : Scene Statement Sample.World, t.pool = coveringPair.pool → ∀ g y,
      w.search.archive.get? g = some y → (t.individual y).size = (coveringPair.individual y).size := by
    intro t ht g y _
    unfold Scene.individual
    rw [ht]
  obtain ⟨changed, v, hrun, hv, -, -, hagain⟩ := settled_of_update hst hstored rfl
  have hchanged : (WatchedM.updateArchive nobody [0, 1]).run w = (.ok true, _) :=
    run_eq_of_toOption (by decide +kernel)
  obtain ⟨h, rfl⟩ := Prod.mk.inj (hrun.symm.trans hchanged)
  obtain rfl := Except.ok.inj h
  obtain ⟨u, hu, hsame, hcalls⟩ := hagain _ [1, 0, 1] rfl hv (by decide)
  exact ⟨w, _, u, rfl, rfl, rfl, by decide +kernel, hrun, hu, hsame, hcalls⟩

end GoalSearch.Archive
