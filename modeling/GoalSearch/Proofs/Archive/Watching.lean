import GoalSearch.Proofs.Archive.Callbacks
import GoalSearch.Proofs.Archive.Minimum
import GoalSearch.Proofs.Archive.Reset

/-!
# What callbacks are told

`v.Tells news w` says what the callbacks are told on the way from `v` to `w`, the same to each of them. A submission
adds to the news what it adds to the covered goals (`Tells.submitted`), and as long as nothing is reset all uses of an
archive do so (`Use.informs_runAll`). So a callback is told of the coverings after its registration
(`Use.tells_of_register`), and without the callbacks the same search would go on (`Use.search_runAll`).
-/

namespace GoalSearch

variable {σ ω α : Type} {subject : Subject σ ω}

/-- What the archive announces when a callback is told. -/
def Covering.announcement (n : Covering) : Announcement := ⟨n.goal, n.archive.uncovered⟩

/-! ### News -/

namespace Archive
variable {ι : Type} {a b : Archive ι}

/-- No goal became covered on the way from `a` to `b`. -/
structure Uneventful (a b : Archive ι) : Prop where
  partitioned : b.Partitioned
  coveredGoals : b.coveredGoals = a.coveredGoals
  announced : b.announced = a.announced

theorem Uneventful.addGoal (h : a.Uneventful b) (g : Goal) : a.Uneventful (b.addGoal g) := by
  refine ⟨h.partitioned.addGoal g, Eq.trans ?_ h.coveredGoals, Eq.trans ?_ h.announced⟩
  all_goals
    unfold Archive.addGoal
    split <;> rfl

end Archive

namespace SearchM
variable {a : Archive Nat}

theorem keeps_uneventful_onScene (x : SceneM σ ω α) : Keeps (fun s => a.Uneventful s.archive) (onScene x) :=
  fun _ h => h

theorem keeps_uneventful_addGoals (added : List Goal) :
    Keeps (fun s : Search σ ω => a.Uneventful s.archive) (addGoals added) := by
  refine Keeps.iff_wp.2 fun s hs => wp_addGoals fun log => ?_
  exact List.foldlRecOn added _ (motive := a.Uneventful) hs fun _ h g _ => h.addGoal g

theorem keeps_uneventful_solutions (subject : Subject σ ω) :
    Keeps (fun s => a.Uneventful s.archive) (solutions subject) := by
  refine .bind .get fun s => .bind (keeps_uneventful_onScene _) fun all => .ite ?_ (.throw _)
  exact .bind .get fun s => .pure _

end SearchM

namespace Watched
variable {v w : Watched σ ω} {s : Search σ ω} {g : Goal} {news : List Covering}

/-- What is told on the way from `v` to `w` to each callback that there is in `v`: the goals that become covered, one
after the other, each as soon as it is covered and no longer uncovered. The archive announces them likewise. -/
structure Tells (v : Watched σ ω) (news : List Covering) (w : Watched σ ω) : Prop where
  partitioned : w.search.archive.Partitioned
  numbered : ∀ p ∈ w.calls, p.1 < w.callbacks
  callbacks_le : v.callbacks ≤ w.callbacks
  coveredGoals : w.search.archive.coveredGoals = v.search.archive.coveredGoals ++ news.map (·.goal)
  announced : w.search.archive.announced = v.search.archive.announced ++ news.map (·.announcement)
  received : ∀ k < v.callbacks, w.received k = v.received k ++ news
  found : ∀ past n, past ++ [n] <+: news →
    n.archive.coveredGoals = v.search.archive.coveredGoals ++ (past ++ [n]).map (·.goal) ∧
    n.goal ∉ n.archive.uncovered

/-- Whatever happened on the way from `v` to `w`, the callbacks were told. -/
def Informs (v w : Watched σ ω) : Prop := ∃ news, v.Tells news w

namespace Tells

theorem refl (hpart : v.search.archive.Partitioned) (hv : ∀ p ∈ v.calls, p.1 < v.callbacks) : v.Tells [] v where
  partitioned := hpart
  numbered := hv
  callbacks_le := le_rfl
  coveredGoals := (List.append_nil _).symm
  announced := (List.append_nil _).symm
  received _ _ := (List.append_nil _).symm
  found past n h := by simp at h

/-- Nothing is told twice. -/
theorem not_mem_past (h : v.Tells news w) {past : List Covering} {n : Covering} (hn : past ++ [n] <+: news) :
    n.goal ∉ past.map (·.goal) := by
  have hnodup : (news.map (·.goal)).Nodup :=
    (List.nodup_append.1 (h.coveredGoals ▸ h.partitioned.covered_nodup)).2.1
  have hpast : ((past ++ [n]).map (·.goal)).Nodup := hnodup.sublist (hn.map _).sublist
  rw [List.map_append, List.nodup_append] at hpast
  exact fun hold => hpast.2.2 _ hold _ (List.mem_singleton_self _) rfl

/-- No goal becomes covered. -/
theorem search (h : v.Tells news w) (hs : w.search.archive.Uneventful s.archive) :
    v.Tells news { w with search := s } :=
  ⟨hs.partitioned, h.numbered, h.callbacks_le, hs.coveredGoals.trans h.coveredGoals, hs.announced.trans h.announced,
    h.received, h.found⟩

theorem register (h : v.Tells news w) : v.Tells news { w with callbacks := w.callbacks + 1 } :=
  ⟨h.partitioned, fun p hp => (h.numbered p hp).trans w.callbacks.lt_succ_self,
    h.callbacks_le.trans w.callbacks.le_succ, h.coveredGoals, h.announced, h.received, h.found⟩

/-- One more goal is covered, and all callbacks are told. -/
theorem announce (h : v.Tells news w) (hpart : s.archive.Partitioned)
    (hcovered : s.archive.coveredGoals = w.search.archive.coveredGoals ++ [g])
    (hannounced : s.archive.announced = w.search.archive.announced ++ [⟨g, s.archive.uncovered⟩]) :
    v.Tells (news ++ [⟨g, s.archive⟩]) (({ w with search := s } : Watched σ ω).announce g) where
  partitioned := hpart
  numbered p hp := by
    rcases List.mem_append.1 hp with hp | hp
    · exact h.numbered p hp
    · obtain ⟨k, hk, rfl⟩ := List.mem_map.1 hp
      exact List.mem_range.1 hk
  callbacks_le := h.callbacks_le
  coveredGoals := by
    rw [List.map_append, ← List.append_assoc, ← h.coveredGoals]
    exact hcovered
  announced := by
    rw [List.map_append, ← List.append_assoc, ← h.announced]
    exact hannounced
  received k hk := by
    rw [received_announce, if_pos (hk.trans_le h.callbacks_le), ← List.append_assoc]
    exact congrArg (· ++ _) (h.received k hk)
  found past n hn := by
    rcases List.prefix_concat_iff.1 hn with hn | hn
    · obtain ⟨rfl, hlast⟩ := List.append_inj' hn rfl
      obtain rfl := List.singleton_inj.1 hlast
      refine ⟨?_, hpart.disjoint g (hcovered ▸ List.mem_append_right _ (List.mem_singleton_self g))⟩
      rw [List.map_append, ← List.append_assoc, ← h.coveredGoals]
      exact hcovered
    · exact h.found past n hn

/-- A goal that is covered already keeps its place, so that there is nothing to tell. -/
theorem submitted (h : v.Tells news w) (size : Nat → Nat) (i : Nat) (g : Goal) : v.Informs (w.submitted size i g) := by
  have hpart : (w.search.archive.submit size i g).1.Partitioned := h.partitioned.submit
  revert hpart
  unfold Watched.submitted
  rcases w.search.archive.submit_cases size i g with ⟨-, e⟩ | ⟨-, -, e⟩ | ⟨hg, -, ⟨hu, e⟩ | ⟨hu, e⟩⟩
  all_goals
    rw [e]
    intro hpart
  · exact ⟨news, h.search ⟨hpart, rfl, rfl⟩⟩
  · exact ⟨news, h.search ⟨hpart, rfl, rfl⟩⟩
  · have hnew : g ∉ w.search.archive.coveredGoals := fun hc => h.partitioned.disjoint g hc hu
    exact ⟨_, h.announce hpart (Archive.keys_put.trans (if_neg hnew)) rfl⟩
  · have hold : g ∈ w.search.archive.coveredGoals := ((h.partitioned.mem_objectives g).1 hg).resolve_right hu
    exact ⟨news, h.search ⟨hpart, Archive.keys_put.trans (if_pos hold), rfl⟩⟩

end Tells

theorem attentive_informs : Attentive v.Informs where
  scene _ _ := fun ⟨news, h⟩ => ⟨news, h.search ⟨h.partitioned, rfl, rfl⟩⟩
  submitted _ size i g := fun ⟨_, h⟩ => h.submitted size i g

end Watched

namespace WatchedM
variable {v : Watched σ ω}

/-- Nothing is to be told where nothing becomes covered. -/
theorem keeps_onSearch {x : SearchM σ ω α} (hx : ∀ a : Archive Nat, Keeps (fun s => a.Uneventful s.archive) x) :
    Keeps v.Informs (onSearch x) := fun w ⟨news, h⟩ =>
  ⟨news, h.search (hx w.search.archive w.search ⟨h.partitioned, rfl, rfl⟩)⟩

end WatchedM

/-! ### Uses of an archive -/

namespace Archive

variable (subject)

/-- Performs an operation, with the callbacks called. -/
def Operation.watch : Operation σ ω → WatchedM σ ω Answer
  | call (.submit i g) => return .changed (← WatchedM.submit i g)
  | call (.update members) => return .changed (← WatchedM.updateArchive subject members)
  | o => WatchedM.onSearch (o.perform subject)

/-- Callbacks do not change what an operation answers and does. -/
theorem Operation.mirrors_watch (o : Operation σ ω) :
    Mirrors WatchedM.Alone Eq (o.watch subject) (o.perform subject) := by
  rcases o with (⟨i, g⟩ | members | goals | -) | - | change
  · exact (WatchedM.mirrors_submit i g).seq fun _ => .pure rfl
  · exact (WatchedM.mirrors_updateArchive subject members).seq fun _ => .pure rfl
  · exact WatchedM.mirrors_onSearch ((call (.addGoals goals)).perform subject)
  · exact WatchedM.mirrors_onSearch ((call .reset).perform subject)
  · exact WatchedM.mirrors_onSearch (solutions.perform subject)
  · exact WatchedM.mirrors_onSearch ((meanwhile change).perform subject)

/-- The use of an archive: it is operated on, and callbacks are registered. -/
inductive Use (σ ω : Type) where
  | register
  | perform (o : Operation σ ω)

namespace Use

def step (w : Watched σ ω) : Use σ ω → Watched σ ω
  | register => (WatchedM.register.run w).2
  | perform o => ((o.watch subject).run w).2

/-- One use after the other, also where one ends with a fault. -/
def runAll (uses : List (Use σ ω)) (w : Watched σ ω) : Watched σ ω := uses.foldl (step subject) w

def operation? : Use σ ω → Option (Operation σ ω)
  | register => none
  | perform o => some o

/-- Without the callbacks the same search goes on. -/
theorem search_runAll (uses : List (Use σ ω)) (w : Watched σ ω) : (runAll subject uses w).search =
    (uses.filterMap operation?).foldl (fun s o => ((o.perform subject).run s).2) w.search := by
  induction uses generalizing w with
  | nil => rfl
  | cons u uses ih =>
    refine (ih _).trans ?_
    cases u with
    | register => rfl
    | perform o =>
      have ho : ((o.watch subject).run w).2.search = ((o.perform subject).run w.search).2 :=
        (o.mirrors_watch subject w w.search rfl).state
      show (uses.filterMap operation?).foldl _ ((o.watch subject).run w).2.search = _
      rw [ho]
      rfl

variable {subject} {v w : Watched σ ω}

/-- All uses but resets keep the callbacks informed. -/
theorem informs_step (h : v.Informs w) {u : Use σ ω} (hreset : u ≠ perform (.call .reset)) :
    v.Informs (u.step subject w) := by
  rcases u with - | ⟨⟨i, g⟩ | members | goals | -⟩ | - | change
  · obtain ⟨news, h⟩ := h
    exact ⟨news, h.register⟩
  · exact (WatchedM.keeps_submit Watched.attentive_informs i g).bind (fun _ => .pure _) w h
  · exact (WatchedM.keeps_updateArchive subject Watched.attentive_informs members).bind (fun _ => .pure _) w h
  · exact WatchedM.keeps_onSearch (x := (Operation.call (.addGoals goals)).perform subject)
      (fun _ => (SearchM.keeps_uneventful_addGoals goals).bind fun _ => .pure _) w h
  · exact absurd rfl hreset
  · exact WatchedM.keeps_onSearch (x := Operation.solutions.perform subject)
      (fun _ => (SearchM.keeps_uneventful_solutions subject).bind fun _ => .pure _) w h
  · exact WatchedM.keeps_onSearch (x := (Operation.meanwhile change).perform subject) (fun _ _ hs => hs) w h

theorem informs_runAll (h : v.Informs w) {uses : List (Use σ ω)} (hreset : perform (.call .reset) ∉ uses) :
    v.Informs (runAll subject uses w) :=
  List.foldlRecOn uses _ (motive := v.Informs) h fun _ h _ hu => informs_step h fun e => hreset (e ▸ hu)

/-- A new callback is told what all of them are told from then on. -/
theorem tells_of_register (v : Watched σ ω) (hpart : v.search.archive.Partitioned)
    (hv : ∀ p ∈ v.calls, p.1 < v.callbacks) {uses : List (Use σ ω)} (hreset : perform (.call .reset) ∉ uses) :
    (step subject v register).Tells ((runAll subject (register :: uses) v).received v.callbacks)
      (runAll subject (register :: uses) v) := by
  have hstart : (step subject v register).Tells [] (step subject v register) :=
    .refl hpart fun p hp => (hv p hp).trans v.callbacks.lt_succ_self
  obtain ⟨news, h⟩ := informs_runAll ⟨[], hstart⟩ hreset
  have hnone : (step subject v register).received v.callbacks = [] := Watched.received_eq_nil hv
  have hnews : (runAll subject (register :: uses) v).received v.callbacks = news := by
    refine (h.received v.callbacks v.callbacks.lt_succ_self).trans ?_
    rw [hnone, List.nil_append]
  rwa [hnews]

end Use

/-- A callback that is registered at the start is told of every goal that becomes covered, once and in order, as soon as
the goal is covered and no longer uncovered, and not again when the individual of the goal is replaced. A callback that
is registered later is told of what becomes covered from then on, as all the others are. What the archive announces are
these coverings. -/
theorem received_of_uses (goals : List Goal) (s : Search σ ω) {uses : List (Use σ ω)}
    (hreset : .perform (.call .reset) ∉ uses) :
    let start : Watched σ ω := { search := { s with archive := .ofGoals goals }, callbacks := 1 }
    let w := Use.runAll subject uses start
    (w.received 0).map (·.goal) = w.search.archive.coveredGoals ∧ w.search.archive.coveredGoals.Nodup ∧
    w.search.archive.announced = (w.received 0).map (·.announcement) ∧
    (∀ past n, past ++ [n] <+: w.received 0 → n.archive.coveredGoals = (past ++ [n]).map (·.goal) ∧
      n.goal ∉ past.map (·.goal) ∧ n.goal ∈ n.archive.coveredGoals ∧ n.goal ∉ n.archive.uncovered) ∧
    ∀ before after, uses = before ++ .register :: after →
      let v := Use.runAll subject before start
      w.search.archive.coveredGoals = v.search.archive.coveredGoals ++ (w.received v.callbacks).map (·.goal) ∧
      ∀ k < v.callbacks, w.received k = v.received k ++ w.received v.callbacks := by
  intro start w
  have hfirst {uses : List (Use σ ω)} (hreset : .perform (.call .reset) ∉ uses) :
      start.Tells ((Use.runAll subject uses start).received 0) (Use.runAll subject uses start) :=
    Use.tells_of_register { search := { s with archive := ofGoals goals } } (partitioned_ofGoals goals) (by simp) hreset
  have h : start.Tells (w.received 0) w := hfirst hreset
  have hcovered : w.search.archive.coveredGoals = (w.received 0).map (·.goal) := h.coveredGoals
  refine ⟨hcovered.symm, h.partitioned.covered_nodup, h.announced, fun past n hn => ?_, ?_⟩
  · have hmoment : n.archive.coveredGoals = (past ++ [n]).map (·.goal) := (h.found past n hn).1
    have hmem : n.goal ∈ (past ++ [n]).map (·.goal) := by simp
    exact ⟨hmoment, h.not_mem_past hn, hmoment ▸ hmem, (h.found past n hn).2⟩
  · rintro before after rfl v
    rw [List.mem_append, List.mem_cons, not_or, not_or] at hreset
    have hv : start.Tells (v.received 0) v := hfirst hreset.1
    have hlater : w = Use.runAll subject (.register :: after) v := List.foldl_append
    have h : (Use.step subject v .register).Tells (w.received v.callbacks) w :=
      hlater ▸ Use.tells_of_register v hv.partitioned hv.numbered hreset.2.2
    exact ⟨h.coveredGoals, fun k hk => h.received k (hk.trans v.callbacks.lt_succ_self)⟩

/-- The individual of a covered goal is replaced, before another callback is registered and another goal added. -/
def replacing : List (Use Statement Sample.World) :=
  [.perform (.call (.submit 0 (.atom 0))), .perform (.call (.update [0, 1])), .register,
    .perform (.call (.addGoals [.atom 1])), .perform (.call (.submit 1 (.atom 1)))]

/-- The first callback is told of both goals, the other one of the second goal alone. -/
theorem received_of_uses_replacing : ∃ w, w = Use.runAll nobody replacing
      { search := { scene := coveringPair, archive := .ofGoals [.atom 0] }, callbacks := 1 } ∧
    w.search.archive.covered = [(.atom 0, 1), (.atom 1, 1)] ∧
    (w.received 0).map (·.goal) = [.atom 0, .atom 1] ∧ (w.received 1).map (·.goal) = [.atom 1] := by
  have hreset : .perform (.call .reset) ∉ replacing := by simp [replacing]
  obtain ⟨hall, -, -, -, hlater⟩ := @received_of_uses _ _ nobody [.atom 0] { scene := coveringPair } _ hreset
  have hown := (hlater (replacing.take 2) (replacing.drop 3) rfl).1
  generalize hw : Use.runAll nobody replacing _ = w at hall hown
  generalize hv : Use.runAll nobody (replacing.take 2) _ = v at hown
  have hcovered : w.search.archive.covered = [(.atom 0, 1), (.atom 1, 1)] := by
    rw [← hw]
    decide +kernel
  have hgoals : w.search.archive.coveredGoals = [.atom 0, .atom 1] := congrArg (List.map Prod.fst) hcovered
  obtain ⟨hfirst, hcallbacks⟩ : v.search.archive.coveredGoals = [.atom 0] ∧ v.callbacks = 1 := by
    rw [← hv]
    decide +kernel
  rw [hgoals, hfirst, hcallbacks] at hown
  exact ⟨w, rfl, hcovered, hall.trans hgoals, (List.cons.inj hown).2.symm⟩

end Archive

end GoalSearch
