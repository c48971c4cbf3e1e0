import GoalSearch.Proofs.Postcondition
import GoalSearch.Search.Population

/-!
# Postconditions of the basic steps

Each basic step on a scene, and each step of a search that does no more than keep its records, has one rule:
its postcondition is asked of the state it ends in. Scenes are seen through `Scene.individual` and the size of
the pool.
-/

namespace GoalSearch

variable {σ ω α : Type}

namespace Scene
variable (s : Scene σ ω)

/-- The scene with one individual changed. -/
def modify (i : Nat) (f : Individual σ → Individual σ) : Scene σ ω := { s with pool := s.pool.modify i f }

/-- The scene with one more individual. -/
def push (x : Individual σ) : Scene σ ω := { s with pool := s.pool.push x }

def logged (notice : Notice) : Scene σ ω := { s with log := s.log.push notice }

variable {s} {i j : Nat} {f : Individual σ → Individual σ} {x : Individual σ}

@[simp] theorem size_modify : (s.modify i f).pool.size = s.pool.size := by simp [modify]

@[simp] theorem size_push : (s.push x).pool.size = s.pool.size + 1 := by simp [push]

theorem individual_modify_self (hi : i < s.pool.size) : (s.modify i f).individual i = f (s.individual i) := by
  simp [modify, individual, hi, Array.getElem_modify]

theorem individual_modify_ne (h : i ≠ j) : (s.modify i f).individual j = s.individual j := by
  simp [modify, individual, Array.getElem?_modify, h]

theorem individual_push_size : (s.push x).individual s.pool.size = x := by simp [push, individual]

theorem individual_push_ne (h : j ≠ s.pool.size) : (s.push x).individual j = s.individual j := by
  simp [push, individual, Array.getElem?_push, h]

theorem individual_push_lt (h : j < s.pool.size) : (s.push x).individual j = s.individual j :=
  individual_push_ne (Nat.ne_of_lt h)

theorem individual_of_le (h : s.pool.size ≤ i) : s.individual i = default := by
  simp [individual, Array.getElem?_eq_none h]

/-- In `t` the individual `i` is `x`; all others are as in `s`. -/
structure Sets (s : Scene σ ω) (i : Nat) (x : Individual σ) (t : Scene σ ω) : Prop where
  size : t.pool.size = s.pool.size
  self : t.individual i = x
  others : ∀ j, j ≠ i → t.individual j = s.individual j

theorem sets_modify (hi : i < s.pool.size) : s.Sets i (f (s.individual i)) (s.modify i f) :=
  ⟨size_modify, individual_modify_self hi, fun _ h => individual_modify_ne h.symm⟩

theorem Sets.trans {t u : Scene σ ω} {y : Individual σ} (ht : s.Sets i x t) (hu : t.Sets i y u) :
    s.Sets i y u :=
  ⟨hu.size.trans ht.size, hu.self, fun j h => (hu.others j h).trans (ht.others j h)⟩

end Scene

/-! ### Steps on a scene -/

namespace SceneM
variable {s : Scene σ ω} {E : Fault → Scene σ ω → Prop}

@[simp] theorem wp_individual {i : Nat} {Q : Individual σ → Scene σ ω → Prop} :
    wp (individual i) Q E s ↔ Q (s.individual i) s := Iff.rfl

@[simp] theorem wp_update {i : Nat} {f : Individual σ → Individual σ} {Q : Unit → Scene σ ω → Prop} :
    wp (update i f) Q E s ↔ Q () (s.modify i f) := Iff.rfl

@[simp] theorem wp_add {x : Individual σ} {Q : Nat → Scene σ ω → Prop} :
    wp (add x) Q E s ↔ Q s.pool.size (s.push x) := Iff.rfl

@[simp] theorem wp_log {notice : Notice} {Q : Unit → Scene σ ω → Prop} :
    wp (log notice) Q E s ↔ Q () (s.logged notice) := Iff.rfl

theorem wp_act {f : ω → Except Fault α × ω} {Q : α → Scene σ ω → Prop} :
    wp (act f) Q E s ↔ wp (f : ExceptT Fault (StateM ω) α) (fun a w => Q a { s with outside := w })
      (fun e w => E e { s with outside := w }) s.outside := by
  let y : ExceptT Fault (StateM ω) α := f
  have hrun : (act f).run s = ((y.run s.outside).1, { s with outside := (y.run s.outside).2 }) := rfl
  show wp (act f) Q E s ↔ wp y _ _ _
  unfold wp
  rw [hrun]
  rcases y.run s.outside with ⟨e | a, w⟩ <;> rfl

theorem wp_act_of_eq {f : ω → Except Fault α × ω} {a : α} {w : ω} {Q : α → Scene σ ω → Prop}
    (h : f s.outside = (.ok a, w)) : wp (act f) Q E s ↔ Q a { s with outside := w } := by
  rw [wp_act, wp_of_run_eq h]

theorem wp_act_of_forall {f : ω → Except Fault α × ω} {Q : α → Scene σ ω → Prop}
    (hQ : ∀ a w, Q a { s with outside := w }) (hE : ∀ e w, E e { s with outside := w }) : wp (act f) Q E s := by
  rw [wp_act]
  unfold wp
  split
  · exact hQ _ _
  · exact hE _ _

theorem wp_draw {x : Draw ω α} {Q : α → Scene σ ω → Prop} :
    wp (draw x) Q E s ↔ wp (x : ExceptT Fault (StateM ω) α) (fun a w => Q a { s with outside := w })
      (fun e w => E e { s with outside := w }) s.outside := wp_act

end SceneM

/-! ### Steps of a search -/

/-- The report of a snapshot, as the search stands. -/
def Search.reportOf (s : Search σ ω) (taken : Snapshot) : Report σ :=
  ⟨taken, s.phase, s.population.map fun i => (i, s.scene.individual i)⟩

namespace SearchM
variable {s : Search σ ω} {E : Fault → Search σ ω → Prop} {Q : Unit → Search σ ω → Prop}

theorem wp_onScene {x : SceneM σ ω α} {Q : α → Search σ ω → Prop} :
    wp (onScene x) Q E s ↔
      wp x (fun a t => Q a { s with scene := t }) (fun e t => E e { s with scene := t }) s.scene := by
  have hrun : (onScene x).run s = ((x.run s.scene).1, { s with scene := (x.run s.scene).2 }) := rfl
  unfold wp
  rw [hrun]
  rcases x.run s.scene with ⟨e | a, t⟩ <;> rfl

@[simp] theorem wp_log {notice : Notice} :
    wp (log notice) Q E s ↔ Q () { s with scene := s.scene.logged notice } := Iff.rfl

@[simp] theorem wp_enter {phase : Phase} : wp (enter phase) Q E s ↔ Q () { s with phase := phase } := Iff.rfl

@[simp] theorem wp_record {event : Event σ} :
    wp (record event) Q E s ↔ Q () { s with events := s.events.push event } := Iff.rfl

@[simp] theorem wp_signal {x : Signal} :
    wp (signal x) Q E s ↔ Q () { s with conditions := s.conditions.map (Condition.step x) } := Iff.rfl

@[simp] theorem wp_notice {subject : Subject σ ω} {x : Occasion} :
    wp (notice subject x) Q E s ↔
      Q () { s with scene := { s.scene with outside := subject.notice x s.scene.outside } } := Iff.rfl

theorem wp_logs {β : Type} {l : List β} {notice : β → Notice} :
    wp (l.forM fun b => log (notice b)) (fun _ t => ∃ log, t = { s with scene := { s.scene with log := log } })
      E s := by
  refine wp_forM (I := fun _ t => ∃ log, t = { s with scene := { s.scene with log := log } }) ?_ ⟨s.scene.log, rfl⟩
  rintro done b rest - _ ⟨log, rfl⟩
  exact ⟨_, rfl⟩

@[simp] theorem wp_resourcesLeft {subject : Subject σ ω} {Q : Bool → Search σ ω → Prop} :
    wp (resourcesLeft subject) Q E s ↔
      Q (GoalSearch.resourcesLeft (subject.now s.scene.outside) s.conditions) s := Iff.rfl

/-- The outcome of a submission changes the archive. -/
def changes (outcome : Archived) : Bool := outcome == .replaced || outcome == .newlyCovered

/-- A submission acts on the archive and the log alone. -/
theorem wp_submit {i : Nat} {g : Goal} {Q : Bool → Search σ ω → Prop}
    (h : ∀ log, Q (changes (s.archive.submit (fun j => (s.scene.individual j).size) i g).2)
      { s with
        scene := { s.scene with log := log }
        archive := (s.archive.submit (fun j => (s.scene.individual j).size) i g).1 }) :
    wp (submit i g) Q E s := by
  unfold submit
  simp only [wp_bind, wp_get, wp_set]
  split
  · exact h _
  · exact h _
  · exact h _

/-! Occasions are signalled and recorded; apart from that only the surroundings and the log change. -/

theorem wp_sampleMemory {subject : Subject σ ω} : wp (sampleMemory subject)
    (fun _ t => ∃ log, t = { s with scene := { s.scene with log := log } }) E s := by
  unfold sampleMemory
  rw [wp_bind, wp_get]
  dsimp only
  split
  · exact wp_seq wp_logs fun _ _ ht => ht
  · exact ⟨s.scene.log, rfl⟩

theorem wp_onFirst_eq {taken : Snapshot} : wp (onFirst taken) (fun _ t => ∃ log, t =
    { s with
      scene := { s.scene with log := log }
      conditions := s.conditions.map (Condition.step (.first taken.coverage))
      events := s.events.push (.first (s.reportOf taken)) }) E s := by
  unfold onFirst report
  simp only [wp_bind, wp_signal, wp_log, wp_get, wp_pure, wp_record]
  exact ⟨_, rfl⟩

theorem wp_onIteration_eq {subject : Subject σ ω} {generation : Int} {taken : Snapshot} :
    wp (onIteration subject generation taken) (fun _ t => ∃ log memory, t =
      { s with
        scene := { s.scene with outside := subject.notice .generationFinished s.scene.outside, log := log }
        conditions := s.conditions.map (Condition.step (.iteration taken.coverage memory))
        events := s.events.push (.iteration generation (s.reportOf taken)) }) E s := by
  unfold onIteration report
  refine wp_seq wp_sampleMemory ?_
  rintro memory _ ⟨log, rfl⟩
  rw [wp_bind, wp_signal, wp_bind, wp_log]
  refine wp_seq wp_logs ?_
  rintro - _ ⟨log, rfl⟩
  simp only [wp_bind, wp_get, wp_pure, wp_record, wp_notice]
  exact ⟨_, _, rfl⟩

theorem wp_onFirst {taken : Snapshot} : wp (onFirst taken) (fun _ t => ∃ log report, report.snapshot = taken ∧ t =
    { s with
      scene := { s.scene with log := log }
      conditions := s.conditions.map (Condition.step (.first taken.coverage))
      events := s.events.push (.first report) }) E s :=
  wp_imp wp_onFirst_eq fun _ _ ⟨log, h⟩ => ⟨log, _, rfl, h⟩

theorem wp_onIteration {subject : Subject σ ω} {generation : Int} {taken : Snapshot} :
    wp (onIteration subject generation taken) (fun _ t => ∃ log memory report, report.snapshot = taken ∧ t =
      { s with
        scene := { s.scene with outside := subject.notice .generationFinished s.scene.outside, log := log }
        conditions := s.conditions.map (Condition.step (.iteration taken.coverage memory))
        events := s.events.push (.iteration generation report) }) E s :=
  wp_imp wp_onIteration_eq fun _ _ ⟨log, memory, h⟩ => ⟨log, memory, _, rfl, h⟩

end SearchM

end GoalSearch
