import GoalSearch.Proofs.Archive.Partition
import GoalSearch.Proofs.Search.Active
import GoalSearch.Proofs.Session
import GoalSearch.Proofs.Twins.Evolution

/-!
# Goals without parents are pursued alike

Where no goal has its parent among the goals, every uncovered goal is free, so the dynamic strategy pursues what the
static one does: all uncovered goals, in their order. Two sessions that differ in nothing but the strategy then run in
lock-step (`session_of_flat`).
-/

namespace GoalSearch

variable {σ ω : Type}

/-- No goal of the list names a parent in the list. -/
def Flat (parent : Goal → Option Goal) (goals : List Goal) : Prop := ∀ g ∈ goals, Dependencies.IsFree parent goals g

instance (parent : Goal → Option Goal) (goals : List Goal) : Decidable (Flat parent goals) :=
  inferInstanceAs (Decidable (∀ g ∈ goals, Dependencies.IsFree parent goals g))

/-- The uncovered goals of the archive are objectives without repeats, and the objectives have no parents among
themselves. -/
structure Archive.Flat {ι : Type} (parent : Goal → Option Goal) (a : Archive ι) : Prop where
  nodup : a.uncovered.Nodup
  subset : a.uncovered ⊆ a.objectives
  flat : GoalSearch.Flat parent a.objectives

namespace Archive.Flat
variable {ι : Type} {parent : Goal → Option Goal} {a : Archive ι}

theorem ofGoals {goals : List Goal} (h : GoalSearch.Flat parent goals) :
    (Archive.ofGoals goals : Archive ι).Flat parent where
  nodup := Distinct.nodup_ofList
  subset := List.Subset.refl _
  flat g hg p hp hmem := h g (Distinct.mem_ofList.1 hg) p hp (Distinct.mem_ofList.1 hmem)

theorem submit (h : a.Flat parent) (size : ι → Nat) (x : ι) (g : Goal) : (a.submit size x g).1.Flat parent := by
  have hobjectives : (a.submit size x g).1.objectives = a.objectives := objectives_submit
  have hsublist : (a.submit size x g).1.uncovered.Sublist a.uncovered := by
    rcases a.submit_cases size x g with ⟨-, e⟩ | ⟨-, -, e⟩ | ⟨-, -, ⟨-, e⟩ | ⟨-, e⟩⟩ <;> rw [e]
    exact List.erase_sublist
  refine ⟨h.nodup.sublist hsublist, ?_, ?_⟩
  · rw [hobjectives]
    exact List.Subset.trans hsublist.subset h.subset
  · rw [hobjectives]
    exact h.flat

/-- All uncovered goals are to be pursued. -/
theorem independent (h : a.Flat parent) :
    (Dependencies.ofGoals parent a.objectives).1.independent parent a.uncovered = (a.uncovered, false) := by
  have hfree : ∀ g ∈ a.uncovered, Dependencies.IsFree parent a.uncovered g :=
    fun g hg p hp hmem => h.flat g (h.subset hg) p hp (h.subset hmem)
  rw [Dependencies.independent_ofGoals h.subset h.nodup fun hne =>
    (List.exists_mem_of_ne_nil _ hne).imp fun g hg => ⟨hg, hfree g hg⟩]
  exact congrArg (·, false) (List.filter_eq_self.2 fun g hg => decide_eq_true (hfree g hg))

end Archive.Flat

namespace Link

/-- The archive is flat, whatever the dependencies. -/
def flat (parent : Goal → Option Goal) : Link := ⟨fun a _ _ => a.Flat parent, fun size i g h => h.submit size i g⟩

/-- The archive is flat, and the first search has gathered its dependencies. -/
def gathered (parent : Goal → Option Goal) : Link where
  holds a d _ := a.Flat parent ∧ d = some (Dependencies.ofGoals parent a.objectives).1
  submit size i g h := ⟨h.1.submit size i g, by rw [h.2, Archive.objectives_submit]⟩

end Link

/-- All values are the same. -/
abbrev everyGoal (_ : Goal) : Prop := True

/-- The setup with another strategy. -/
def Setup.pursuing (setup : Setup σ ω) (strategy : Strategy) : Setup σ ω := { setup with strategy := strategy }

namespace SearchM
variable (setup : Setup σ ω)

/-- The dynamic strategy pursues what the static one does. -/
theorem mirrors_pursuing_activeGoals : Mirrors (Search.Twin everyGoal (.gathered setup.subject.parentOf))
    (SharpGoals everyGoal) (activeGoals (setup.pursuing .dynamic)) (activeGoals (setup.pursuing .static)) := by
  intro s t hst
  obtain ⟨hflat, hgathered⟩ := hst.dependencies
  have hdynamic : (setup.pursuing .dynamic).strategy = .dynamic := rfl
  rw [run_activeGoals_dynamic hdynamic hgathered hflat.independent]
  show Ends _ _ _ (.ok t.archive.uncovered, t)
  exact ⟨.ok ⟨congrArg _ hst.archive, fun _ _ => trivial⟩, { hst with scene := hst.scene.logs _ _ }⟩

theorem mirrors_pursuing_advance : Mirrors (Search.Twin everyGoal (.gathered setup.subject.parentOf)) Eq
    (advance (setup.pursuing .dynamic)) (advance (setup.pursuing .static)) := by
  have h := setup.subject.resembles_self everyGoal
  have hevolve : Mirrors (Search.Twin everyGoal (.gathered setup.subject.parentOf)) Eq
      (evolve (setup.pursuing .dynamic)) (evolve (setup.pursuing .static)) := fun s t hst =>
    ends_evolve h (mirrors_pursuing_activeGoals setup s t hst)
  refine (mirrors_enter _).seq fun _ => hevolve.seq fun _ => Mirrors.get.bind fun s t hst => ?_
  rw [hst.generation]
  exact (mirrors_snapshot h).bind fun _ _ htaken => mirrors_onIteration htaken _

variable {link : Link}

theorem mirrors_goesOn : Mirrors (Search.Twin (σ := σ) (ω := ω) everyGoal link) Eq
    (goesOn (setup.pursuing .dynamic)) (goesOn (setup.pursuing .static)) := by
  refine mirrors_resourcesLeft.seq fun left => Mirrors.get.bind fun s t hst => ?_
  rw [hst.archive]
  exact .pure rfl

theorem mirrors_pursuing_advanceAll (fuel : Nat) :
    Mirrors (Search.Twin everyGoal (.gathered setup.subject.parentOf)) Eq
      (advanceAll (setup.pursuing .dynamic) fuel) (advanceAll (setup.pursuing .static) fuel) := by
  induction fuel with
  | zero => exact (mirrors_goesOn setup).seq fun _ => .ite Iff.rfl (.throw _) (.pure rfl)
  | succ fuel ih =>
    refine (mirrors_goesOn setup).seq fun _ => .ite Iff.rfl ?_ (.pure rfl)
    exact (mirrors_pursuing_advance setup).seq fun _ => ih

theorem mirrors_nonDominated (members : List Nat) : Mirrors (Search.Twin (σ := σ) (ω := ω) everyGoal link) Eq
    (nonDominated setup.subject members) (nonDominated setup.subject members) := by
  refine Mirrors.get.bind fun s t hst => ?_
  rw [hst.archive]
  refine mirrors_onScene (Ranking.mirrors_nonDominated fun g _ i _ => ?_)
  exact Individual.mirrors_fitness_of_sharp (setup.subject.resembles_self everyGoal) trivial i

theorem mirrors_finalSolutions : Mirrors (Search.Twin (σ := σ) (ω := ω) everyGoal link) Eq
    (finalSolutions (setup.pursuing .dynamic)) (finalSolutions (setup.pursuing .static)) := by
  have harchived : Mirrors (Search.Twin everyGoal link) Eq (archivedSolutions (setup.pursuing .dynamic))
      (archivedSolutions (setup.pursuing .static)) :=
    (mirrors_solutions (setup.subject.resembles_self everyGoal)).seq fun archived =>
      .ite Iff.rfl (mirrors_nonDominated setup archived) (.pure rfl)
  refine harchived.seq fun archived => .ite Iff.rfl (Mirrors.get.bind fun s t hst => ?_) (.pure rfl)
  rw [hst.population]
  exact mirrors_nonDominated setup _

theorem mirrors_finalise : Mirrors (Search.Twin (σ := σ) (ω := ω) everyGoal link) Eq
    (finalise (setup.pursuing .dynamic)) (finalise (setup.pursuing .static)) := by
  refine (mirrors_enter _).seq fun _ => mirrors_onFinish.seq fun _ => (mirrors_finalSolutions setup).seq fun _ => ?_
  refine Mirrors.get.bind fun s t hst => .pure ?_
  rw [hst.archive, hst.generation]

/-! ### From the start -/

variable {setup} {s t : Search σ ω}

/-- What the dynamic strategy gathers is all that the searches differ in from then on. -/
theorem ends_gatherDependencies (h : s.Twin everyGoal (.flat setup.subject.parentOf) t) :
    Ends (Search.Twin everyGoal (.gathered setup.subject.parentOf)) Eq
      ((gatherDependencies (setup.pursuing .dynamic)).run s) ((gatherDependencies (setup.pursuing .static)).run t) := by
  obtain ⟨_, _, hrun, log, rfl⟩ := exists_of_wp (wp_gatherDependencies (s := s) (E := fun _ _ => False))
  rw [hrun]
  exact ⟨.ok rfl, { h with scene := h.scene.logs log t.scene.log, dependencies := ⟨h.dependencies, rfl⟩ }⟩

theorem ends_populate (h : s.Twin everyGoal (.flat setup.subject.parentOf) t) :
    Ends (Search.Twin everyGoal (.gathered setup.subject.parentOf)) Eq
      ((populate (setup.pursuing .dynamic)).run s) ((populate (setup.pursuing .static)).run t) := by
  have hopened : (s.opened setup.subject).Twin everyGoal (.flat setup.subject.parentOf) (t.opened setup.subject) := by
    refine { h with phase := rfl, generation := rfl, conditions := ?_ }
    unfold Search.opened
    rw [h.conditions, h.scene.outside]
  rw [run_populate, run_populate]
  refine (ends_gatherDependencies hopened).bind fun _ _ _ => ?_
  have hmembers : Mirrors (Search.Twin everyGoal (.gathered setup.subject.parentOf)) Eq
      (randomPopulation (setup.pursuing .dynamic)) (randomPopulation (setup.pursuing .static)) :=
    mirrors_randomPopulation (setup.subject.resembles_self everyGoal)
  refine hmembers.seq fun members => ?_
  exact (Mirrors.modify fun s t h => { h with population := rfl }).seq fun _ => .pure rfl

theorem ends_initialise (h : s.Twin everyGoal (.flat setup.subject.parentOf) t) :
    Ends (Search.Twin everyGoal (.gathered setup.subject.parentOf)) Eq
      ((initialise (setup.pursuing .dynamic)).run s) ((initialise (setup.pursuing .static)).run t) := by
  have hresembles := setup.subject.resembles_self everyGoal
  refine (ends_populate h).bind ?_
  rintro members _ rfl
  refine (mirrors_updateArchive hresembles members).seq fun _ => (mirrors_pursuing_activeGoals setup).bind ?_
  rintro active _ ⟨rfl, hactive⟩
  refine (mirrors_computeDominance hresembles hactive members).seq fun _ => ?_
  exact (mirrors_snapshot hresembles).bind fun _ _ htaken => mirrors_onFirst htaken

/-- The run up to so many generations behind the first population. -/
def generations (setup : Setup σ ω) (k : Nat) : SearchM σ ω Unit := do
  initialise setup
  times (advance setup) k

theorem ends_generations (h : s.Twin everyGoal (.flat setup.subject.parentOf) t) (k : Nat) :
    Ends (Search.Twin everyGoal (.gathered setup.subject.parentOf)) Eq
      ((generations (setup.pursuing .dynamic) k).run s) ((generations (setup.pursuing .static) k).run t) :=
  (ends_initialise h).bind fun _ _ _ => mirrors_times (mirrors_pursuing_advance setup) k

theorem ends_generate (h : s.Twin everyGoal (.flat setup.subject.parentOf) t) (fuel : Nat) :
    Ends (Search.Twin everyGoal (.gathered setup.subject.parentOf)) Eq
      ((generate (setup.pursuing .dynamic) fuel).run s) ((generate (setup.pursuing .static) fuel).run t) :=
  (ends_initialise h).bind fun _ _ _ => (mirrors_pursuing_advanceAll setup fuel).seq fun _ => mirrors_finalise setup

end SearchM

/-! ### Sessions -/

theorem Config.mirrors_conditions (subject : Subject σ ω) (stopping : StoppingOptions) :
    Mirrors (Scene.Twin everyGoal) Eq (conditions subject stopping) (conditions subject stopping) := by
  have houtside : Mirrors (Scene.Twin (σ := σ) everyGoal) Eq SceneM.outside (SceneM.outside (ω := ω)) :=
    fun _ _ h => ⟨.ok h.outside, h⟩
  refine houtside.seq fun w => (SceneM.mirrors_act_same _).seq fun budgets => .ite Iff.rfl ?_ (.pure rfl)
  exact (SceneM.mirrors_log _ _).seq fun _ => (SceneM.mirrors_log _ _).seq fun _ => .pure rfl

namespace Session
variable (session : Session σ ω)

/-- The session with another strategy. -/
def pursuing (strategy : Strategy) : Session σ ω :=
  { session with config := { session.config with algorithm := strategy.name } }

theorem mirrors_assemble : Mirrors (Search.Twin everyGoal .any)
    (fun a b => a = (session.setup .static).pursuing .dynamic ∧ b = (session.setup .static).pursuing .static)
    (session.pursuing .dynamic).assemble (session.pursuing .static).assemble := by
  refine (SearchM.mirrors_log _ _).seq fun _ => (SearchM.mirrors_log _ _).seq fun _ => .ite Iff.rfl (.throw _) ?_
  refine (SearchM.mirrors_onScene (Config.mirrors_conditions _ _)).seq fun conditions => ?_
  refine (SearchM.mirrors_log _ _).seq fun _ => Mirrors.seq (.modify fun s t h => ?_) fun _ => .pure ⟨rfl, rfl⟩
  exact ⟨h.scene, rfl, rfl, rfl, rfl, rfl, True.intro⟩

theorem mirrors_prepare : Mirrors (Search.Twin everyGoal .any)
    (fun a b => a = (session.setup .static).pursuing .dynamic ∧ b = (session.setup .static).pursuing .static)
    (session.pursuing .dynamic).prepare (session.pursuing .static).prepare := by
  refine (SearchM.mirrors_onScene (SceneM.mirrors_act_same _)).seq fun _ => Mirrors.get.bind fun _ _ _ => ?_
  exact (SearchM.mirrors_log _ _).seq fun _ => mirrors_assemble session

variable {session} {s t : Search σ ω}

/-- What comes behind the preparation starts with the goals alone in the archive. -/
theorem ends_prepared {α : Type} {f : Setup σ ω → SearchM σ ω α}
    (hgoals : Flat session.subject.parentOf session.goals) (h : s.Twin everyGoal .any t)
    (hf : ∀ s t, s.Twin everyGoal (.flat session.subject.parentOf) t → Ends (Search.Twin everyGoal .any) Eq
      ((f ((session.setup .static).pursuing .dynamic)).run s)
      ((f ((session.setup .static).pursuing .static)).run t)) :
    Ends (Search.Twin everyGoal .any) Eq (((session.pursuing .dynamic).prepare >>= f).run s)
      (((session.pursuing .static).prepare >>= f).run t) := by
  refine (mirrors_prepare session s t h).bind_run (fun _ _ h => h) ?_
  rintro _ _ s' t' hs - ⟨rfl, rfl⟩ hst
  have harchive : s'.archive = .ofGoals session.goals := (post_of_run_eq wp_prepare hs).archive
  exact hf s' t' { hst with dependencies := harchive ▸ .ofGoals hgoals }

theorem ends_always {α : Type} {R : Search σ ω → Search σ ω → Prop} {V : α → α → Prop} {x y : SearchM σ ω α}
    {after after' : SearchM σ ω Unit} (h : Ends R V (x.run s) (y.run t)) (hafter : Mirrors R Eq after after') :
    Ends R V ((always x after).run s) ((always y after').run t) := by
  have hlift : Ends R (Matches V) ((ExceptT.lift x.run : SearchM σ ω _).run s)
      ((ExceptT.lift y.run : SearchM σ ω _).run t) := ⟨.ok h.outcome, h.state⟩
  exact hlift.bind fun r q hrq => hafter.seq fun _ => fun _ _ hst => ⟨hrq, hst⟩

theorem mirrors_reportEnd {link : Link} (setup : Setup σ ω) : Mirrors (Search.Twin everyGoal link) Eq
    (reportEnd (setup.pursuing .dynamic)) (reportEnd (setup.pursuing .static)) := by
  refine SearchM.mirrors_resourcesLeft.seq fun _ =>
    .ite Iff.rfl (SearchM.mirrors_log _ _) ((SearchM.mirrors_log _ _).seq fun _ => ?_)
  refine SearchM.mirrors_now.seq fun now => Mirrors.get.bind fun _ _ _ => ?_
  exact SearchM.mirrors_logs _ _

/-- The session up to so many generations behind its first population. -/
def generations (session : Session σ ω) (k : Nat) : SearchM σ ω Unit := do
  let setup ← session.prepare
  SearchM.generations setup k

end Session

/-- If no goal of a session has its parent among the goals, the session runs alike with either strategy: from the same
state on, behind every number of generations both have come to the same population in the same order with the same
ranks, distances and ages, the same archive and the same surroundings, or failed in the same way. However many
generations a whole run is allowed, both end with the same result. -/
theorem session_of_flat (session : Session σ ω) (hgoals : Flat session.subject.parentOf session.goals)
    (s : Search σ ω) :
    (∀ k, Ends (Search.Twin everyGoal .any) Eq (((session.pursuing .dynamic).generations k).run s)
      (((session.pursuing .static).generations k).run s)) ∧
    ∀ fuel, Ends (Search.Twin everyGoal .any) Eq (((session.pursuing .dynamic).run fuel).run s)
      (((session.pursuing .static).run fuel).run s) := by
  have hany : ∀ {α : Type} {r q : Except Fault α × Search σ ω},
      Ends (Search.Twin everyGoal (.gathered session.subject.parentOf)) Eq r q →
      Ends (Search.Twin everyGoal .any) Eq r q :=
    fun h => h.mono fun _ _ hst => { hst with dependencies := True.intro }
  have hs : s.Twin everyGoal .any s :=
    ⟨⟨rfl, fun _ => .refl _, rfl, .inl fun _ _ h => h⟩, rfl, rfl, rfl, rfl, rfl, True.intro⟩
  refine ⟨fun k => Session.ends_prepared hgoals hs fun s t h =>
    hany (@SearchM.ends_generations _ _ (session.setup .static) _ _ h k), fun fuel => ?_⟩
  refine Session.ends_prepared hgoals hs fun s t h => ?_
  have hlogged : Search.Twin everyGoal (.flat session.subject.parentOf)
      { s with scene := s.scene.logged (.searchStarted session.goals.length) }
      { t with scene := t.scene.logged (.searchStarted session.goals.length) } :=
    { h with scene := h.scene.logs _ _ }
  have hsearch : Ends (Search.Twin everyGoal .any) Eq
      (((session.pursuing .dynamic).search fuel ((session.setup .static).pursuing .dynamic)).run s)
      (((session.pursuing .static).search fuel ((session.setup .static).pursuing .static)).run t) := by
    refine hany ((@SearchM.ends_generate _ _ (session.setup .static) _ _ hlogged fuel).bind ?_)
    rintro result _ rfl
    exact (Session.mirrors_reportEnd _).seq fun _ => .pure rfl
  refine (Session.ends_always hsearch (SearchM.mirrors_log _ _)).bind ?_
  rintro result _ rfl
  exact (SearchM.mirrors_log _ _).seq fun _ => .pure rfl

namespace Sample

/-- Two goals to be short and to be long, and a goal that is nobody's aim but the parent of the first one. -/
def orphaned : Parts where
  goals := #[⟨"short", .sizeAbove (.int 1), some 2, false⟩, ⟨"long", .sizeBelow (.int 3), none, false⟩,
    ⟨"elsewhere", .constant (.int 1), none, false⟩]
  operators := #[.append (.int 0)]
  factory := .cycle #[.statements [.int 1]] (some 0)

def orphans : Session Statement World where
  config := { search := { population := 2 }, stopping := { maximumIterations := 3 } }
  goals := [.atom 0, .atom 1]
  subject := orphaned.subject

end Sample

/-- The parent of the short goal is foreign, so in both runs the long goal is covered behind two generations. -/
theorem session_of_flat_orphans :
    Sample.orphaned.subject.parentOf (.atom 0) = some (.atom 2) ∧
    (((Sample.orphans.pursuing .dynamic).run 3).run Sample.unborn).1.toOption =
      some ⟨[0, 4], [(.atom 0, true), (.atom 1, true)], 2⟩ ∧
    (((Sample.orphans.pursuing .static).run 3).run Sample.unborn).1.toOption =
      some ⟨[0, 4], [(.atom 0, true), (.atom 1, true)], 2⟩ ∧
    (∀ k, Ends (Search.Twin everyGoal .any) Eq (((Sample.orphans.pursuing .dynamic).generations k).run Sample.unborn)
      (((Sample.orphans.pursuing .static).generations k).run Sample.unborn)) ∧
    ∀ fuel, Ends (Search.Twin everyGoal .any) Eq (((Sample.orphans.pursuing .dynamic).run fuel).run Sample.unborn)
      (((Sample.orphans.pursuing .static).run fuel).run Sample.unborn) :=
  ⟨by decide, by decide +kernel, by decide +kernel, session_of_flat Sample.orphans (by decide) Sample.unborn⟩

end GoalSearch
