import GoalSearch.Proofs.Archive.Partition
import GoalSearch.Proofs.Mirror
import GoalSearch.Proofs.Scene
import GoalSearch.Search.Watching

/-!
# Callbacks beside a search

A watched search is the search itself, with the calls noted beside it: whatever is done to the archive, the answers are
the same and so is the search that is left (`WatchedM.mirrors_updateArchive`). What a change of the scene and a single
submission keep is kept by all of it (`Watched.Attentive`). So nobody is called as long as the archive announces nothing
(`WatchedM.exists_updateArchive`).
-/

namespace GoalSearch

variable {σ ω α : Type} {subject : Subject σ ω}

/-! ### Calls -/

namespace Watched
variable {w : Watched σ ω} {g : Goal}

/-- All callbacks are called. -/
def announce (w : Watched σ ω) (g : Goal) : Watched σ ω :=
  { w with calls := w.calls ++ (List.range w.callbacks).map fun k => (k, ⟨g, w.search.archive⟩) }

/-- An individual is submitted, and if the goal becomes covered all callbacks are called. -/
def submitted (w : Watched σ ω) (size : Nat → Nat) (i : Nat) (g : Goal) : Watched σ ω :=
  let r := w.search.archive.submit size i g
  let w := { w with search := { w.search with archive := r.1 } }
  if r.2 = .newlyCovered then w.announce g else w

theorem received_announce (k : Nat) : (w.announce g).received k =
    w.received k ++ if k < w.callbacks then [⟨g, w.search.archive⟩] else [] := by
  have hrange : (List.range w.callbacks).filter (· = k) = if k < w.callbacks then [k] else [] := by
    rw [List.filter_eq, List.nodup_range.count]
    simp only [List.mem_range]
    split <;> rfl
  unfold received announce
  rw [List.filter_append, List.map_append, List.filter_map, List.map_map]
  refine congrArg _ ((congrArg (List.map _) hrange).trans ?_)
  split <;> rfl

theorem received_eq_nil (hw : ∀ p ∈ w.calls, p.1 < w.callbacks) : w.received w.callbacks = [] := by
  have hnone : w.calls.filter (·.1 = w.callbacks) = [] :=
    List.filter_eq_nil_iff.2 fun p hp => by simpa using Nat.ne_of_lt (hw p hp)
  rw [received, hnone, List.map_nil]

end Watched

namespace WatchedM
variable {w : Watched σ ω} {E : Fault → Watched σ ω → Prop}

theorem wp_onSearch {x : SearchM σ ω α} {Q : α → Watched σ ω → Prop} : wp (onSearch x) Q E w ↔
    wp x (fun a s => Q a { w with search := s }) (fun e s => E e { w with search := s }) w.search := by
  have hrun : (onSearch x).run w = ((x.run w.search).1, { w with search := (x.run w.search).2 }) := rfl
  unfold wp
  rw [hrun]
  rcases x.run w.search with ⟨e | a, s⟩ <;> rfl

theorem run_forM_call (g : Goal) (l : List Nat) (w : Watched σ ω) : (l.forM (call g)).run w =
    (.ok ⟨⟩, { w with calls := w.calls ++ l.map fun k => (k, ⟨g, w.search.archive⟩) }) := by
  induction l generalizing w with
  | nil => exact congrArg (fun calls => (Except.ok PUnit.unit, { w with calls := calls })) (List.append_nil _).symm
  | cons k l ih =>
    show (l.forM (call g)).run { w with calls := w.calls ++ [(k, ⟨g, w.search.archive⟩)] } = _
    rw [ih, List.append_assoc]
    rfl

theorem run_callAll (g : Goal) (w : Watched σ ω) : (callAll g).run w = (.ok ⟨⟩, w.announce g) :=
  run_forM_call g (List.range w.callbacks) w

theorem wp_submit {i : Nat} {g : Goal} {Q : Bool → Watched σ ω → Prop}
    (h : ∀ log, let size := fun j => (w.search.scene.individual j).size
      let w' := { w with search := { w.search with scene := { w.search.scene with log := log } } }
      Q (SearchM.changes (w.search.archive.submit size i g).2) (w'.submitted size i g)) :
    wp (submit i g) Q E w := by
  unfold submit
  simp only [wp_bind, wp_get, wp_onSearch]
  refine SearchM.wp_submit fun log => ?_
  have hlog := h log
  revert hlog
  unfold Watched.submitted
  dsimp only
  split
  · exact fun hlog => wp_bind.2 ((wp_of_run_eq (run_callAll g _)).2 hlog)
  · exact id

/-! ### The search alone -/

/-- Callbacks left out. -/
def Alone (w : Watched σ ω) (s : Search σ ω) : Prop := w.search = s

theorem mirrors_onSearch (x : SearchM σ ω α) : Mirrors Alone Eq (onSearch x) x := by
  rintro w _ rfl
  exact ⟨.refl _, rfl⟩

theorem mirrors_submit (i : Nat) (g : Goal) :
    Mirrors (Alone (σ := σ) (ω := ω)) Eq (submit i g) (SearchM.submit i g) := by
  intro w s hws
  rw [← bind_pure (SearchM.submit i g)]
  refine (mirrors_onSearch (SearchM.submit i g)).seq (fun changed => ?_) w s hws
  generalize (w.search.archive.submit _ i g).2 = outcome
  dsimp only
  split
  · rintro w _ rfl
    rw [run_bind, run_callAll]
    exact ⟨.refl _, rfl⟩
  · exact .pure rfl

variable (subject)

theorem mirrors_offer (g : Goal) (i : Nat) : Mirrors Alone Eq (offer subject g i) (SearchM.offer subject g i) := by
  refine (mirrors_onSearch _).seq fun x => .ite Iff.rfl (.pure rfl) ?_
  exact (mirrors_onSearch _).seq fun covered => .ite Iff.rfl (mirrors_submit i g) (.pure rfl)

theorem mirrors_updateArchive (members : List Nat) :
    Mirrors Alone Eq (updateArchive subject members) (SearchM.updateArchive subject members) := by
  refine Mirrors.get.bind fun w s hws => ?_
  obtain rfl : w.search = s := hws
  refine (Mirrors.mapM_eq fun g _ => Mirrors.mapM_eq fun i _ => mirrors_offer subject g i).seq fun changes => ?_
  refine Mirrors.get.bind fun w s hws => ?_
  obtain rfl : w.search = s := hws
  exact (mirrors_onSearch _).seq fun _ => .pure rfl

variable {subject}

end WatchedM

/-! ### What calls on the archive cannot break -/

namespace Watched

/-- Kept when the scene changes, and when an individual is submitted. -/
structure Attentive (P : Watched σ ω → Prop) : Prop where
  scene : ∀ w scene, P w → P { w with search := { w.search with scene := scene } }
  submitted : ∀ w size i g, P w → P (w.submitted size i g)

/-- As long as nothing is announced nobody is called. -/
def Silent (v w : Watched σ ω) : Prop :=
  v.search.archive.announced <+: w.search.archive.announced ∧
    (w.search.archive.announced = v.search.archive.announced → w.calls = v.calls)

theorem attentive_silent (v : Watched σ ω) : Attentive (Silent v) where
  scene _ _ h := h
  submitted w size i g h := by
    unfold Watched.submitted
    rcases w.search.archive.submit_cases size i g with ⟨-, e⟩ | ⟨-, -, e⟩ | ⟨-, -, ⟨-, e⟩ | ⟨-, e⟩⟩
    all_goals rw [e]
    · exact h
    · exact h
    · refine ⟨h.1.trans (List.prefix_append _ _), fun hsame => ?_⟩
      have hlength : (w.search.archive.announced ++ [_]).length = _ := congrArg List.length hsame
      rw [List.length_append, List.length_singleton] at hlength
      have := h.1.length_le
      omega
    · exact h

end Watched

namespace WatchedM

section Attentive
variable {P : Watched σ ω → Prop} (hP : Watched.Attentive P)
include hP

theorem keeps_onScene (x : SceneM σ ω α) : Keeps P (onSearch (SearchM.onScene x)) := fun w hw => hP.scene w _ hw

theorem keeps_submit (i : Nat) (g : Goal) : Keeps P (submit i g) := by
  refine Keeps.iff_wp.2 fun w hw => wp_submit fun log => ?_
  exact hP.submitted _ _ i g (hP.scene w { w.search.scene with log := log } hw)

variable (subject)

theorem keeps_offer (g : Goal) (i : Nat) : Keeps P (offer subject g i) := by
  refine (keeps_onScene hP _).bind fun x => .ite (.pure _) ?_
  exact (keeps_onScene hP _).bind fun covered => .ite (keeps_submit hP i g) (.pure _)

theorem keeps_updateArchive (members : List Nat) : Keeps P (updateArchive subject members) := by
  refine .bind .get fun w => .bind (.mapM fun g => .mapM fun i => keeps_offer subject hP g i) fun changes => ?_
  exact .bind .get fun w => .bind (keeps_onScene hP _) fun _ => .pure _

end Attentive

/-- A batch has the same results whether or not there are callbacks, and if it leaves the archive as it is none of them
is called. -/
theorem exists_updateArchive {members : List Nat} {w : Watched σ ω} {t : Search σ ω} {changed : Bool}
    (h : (SearchM.updateArchive subject members).run w.search = (.ok changed, t)) :
    ∃ v, (updateArchive subject members).run w = (.ok changed, v) ∧ v.search = t ∧
      (t.archive = w.search.archive → v.calls = w.calls) := by
  obtain ⟨houtcome, hstate⟩ := mirrors_updateArchive subject members w w.search rfl
  rw [h] at houtcome hstate
  have hsilent := keeps_updateArchive subject (Watched.attentive_silent w) members w ⟨List.prefix_rfl, fun _ => rfl⟩
  have hsearch : ((updateArchive subject members).run w).2.search = t := hstate
  refine ⟨_, Prod.ext houtcome.eq rfl, hsearch, fun hsame => hsilent.2 ?_⟩
  rw [hsearch, hsame]

end WatchedM

end GoalSearch
