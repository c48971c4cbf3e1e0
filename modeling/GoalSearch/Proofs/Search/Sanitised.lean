import GoalSearch.Proofs.Search.Completion
import GoalSearch.Proofs.Search.Guarded

/-!
# Runs on whatever evaluators come back with

Whatever evaluators return or raise, an evaluation puts it into the range of fitness values, so that all operations of
a run (`Performs`) read regular values only. Nothing of it ends a run: what does are other parts of a setup, or an
evaluator that gives up the whole search (`Setup.Raises`). A goal gets covered only when its evaluator answers with a
zero (`regular_of_run`).
-/

namespace GoalSearch

variable {σ ω α : Type} {setup : Setup σ ω} {goals : List Goal} {start s t u : Search σ ω}

/-! ### Faults -/

/-- The faults that parts of a setup are known to raise. What evaluators return, and their failures, are not among
them. -/
inductive Setup.Raises (setup : Setup σ ω) : Fault → Prop
  /-- The factory raises the fault. -/
  | make {w : ω} {e : Fault} (h : (setup.subject.make w).1 = .error e) : Raises setup e
  /-- The factory makes an individual with a goal that is to be maximised. -/
  | maximised {w : ω} {plan : Blueprint σ} {g : Goal} (h : (setup.subject.make w).1 = .ok plan)
      (hg : g ∈ plan.functions) (hmaximised : setup.subject.isMaximised g = true) :
      Raises setup (.requirement .minimisation)
  /-- The factory makes a test case without an operator. -/
  | inert {w : ω} {plan : Blueprint σ} (h : (setup.subject.make w).1 = .ok plan) (hnone : plan.operator = none) :
      Raises setup (.requirement .operatorGiven)
  /-- An operator raises the fault. -/
  | mutate {n : Nat} {statements : List σ} {w : ω} {e : Fault}
      (h : (setup.subject.mutate n (statements, w)).1 = .error e) : Raises setup e
  /-- The number of test cases to be injected cannot be told. -/
  | injection {e : Fault} (h : SearchM.injectionCount setup.options = .error e) : Raises setup e
  /-- An evaluator gives up the whole search. -/
  | abort {n : Nat} {content : Content σ} {w : ω} {e : Fault}
      (h : (setup.subject.evaluate n content w).1 = .abort e) : Raises setup e

namespace Setup

/-- Test cases without an operator come from the factory, and no fault comes from elsewhere than from the parts. -/
def raising (setup : Setup σ ω) : Contract σ where
  fit _ operator := operator = none → ∃ w plan, (setup.subject.make w).1 = .ok plan ∧ plan.operator = none
  blame := setup.Raises

theorem honours_raising (setup : Setup σ ω) : setup.Honours setup.raising where
  make w := by
    cases hmake : (setup.subject.make w).1 with
    | ok plan =>
      exact ⟨fun hnone => ⟨w, plan, hmake, hnone⟩, fun ⟨g, hg, hmaximised⟩ => .maximised hmake hg hmaximised⟩
    | error e => exact .inr (.make hmake)
  mutate statements operator w _ := by
    rcases hmutate : (setup.subject.mutate operator).run (statements, w) with ⟨e | changed, t⟩
    · unfold wp
      rw [hmutate]
      exact @Raises.mutate _ _ _ operator statements w e (congrArg Prod.fst hmutate)
    · exact (wp_of_run_eq hmutate).2 nofun
  operator statements hfit := by
    obtain ⟨w, plan, hmake, hnone⟩ := hfit rfl
    exact .inert hmake hnone
  evaluate _ _ _ _ _ _ h := .abort h
  injection _ h := .injection h

end Setup

/-! ### The operations of a run -/

/-- A run from `s` is about to rank its first population in `u`. -/
def Opens (setup : Setup σ ω) (s : Search σ ω) (members : List Nat) (active : List Goal) (u : Search σ ω) : Prop :=
  ∃ t t' changed, (SearchM.populate setup).run s = (.ok members, t) ∧
    (SearchM.updateArchive setup.subject members).run t = (.ok changed, t') ∧
    (SearchM.activeGoals setup).run t' = (.ok active, u)

/-- A generation that begins in `s` is about to rank parents and offspring in `u`. -/
def Breeds (setup : Setup σ ω) (s : Search σ ω) (union : List Nat) (active : List Goal) (u : Search σ ω) : Prop :=
  ∃ t t' offspring, (SearchM.activeGoals setup).run { s with phase := .evolving } = (.ok active, t) ∧
    (SearchM.breed setup).run t = (.ok offspring, t') ∧ union = t'.population ++ offspring ∧
    u = { t' with scene := t'.scene.logged (.unionSize union.length) }

/-- In the state `u` a run from `s` performs the operation. -/
inductive Performs (setup : Setup σ ω) (s : Search σ ω) : {α : Type} → Reader α → Search σ ω → Prop
  /-- The first population is offered to the archive, -/
  | firstUpdate {members : List Nat} {u : Search σ ω} (hmembers : (SearchM.populate setup).run s = (.ok members, u)) :
      Performs setup s (.update members) u
  /-- ranked, -/
  | firstRank {members : List Nat} {active : List Goal} {u : Search σ ω} (hopens : Opens setup s members active u) :
      Performs setup s (.rank members active) u
  /-- and reported on. -/
  | firstSnapshot {members : List Nat} {active : List Goal} {fronts : List (List Nat)} {t u : Search σ ω}
      (hopens : Opens setup s members active t)
      (hfronts : (SearchM.computeDominance setup.subject members active).run t = (.ok fronts, u)) :
      Performs setup s .snapshot u
  /-- In every generation parents and offspring are ranked, -/
  | rank {k : Nat} {union : List Nat} {active : List Goal} {t u : Search σ ω} (ht : Head setup s k t)
      (hbreeds : Breeds setup t union active u) : Performs setup s (.rank union active) u
  /-- survivors are selected from their fronts, -/
  | select {k : Nat} {union : List Nat} {active : List Goal} {fronts : List (List Nat)} {t u v : Search σ ω}
      (ht : Head setup s k t) (hbreeds : Breeds setup t union active u)
      (hfronts : (SearchM.computeDominance setup.subject union active).run u = (.ok fronts, v)) :
      Performs setup s (.select union fronts active) { v with phase := .filling }
  /-- all of them are offered to the archive, -/
  | update {k : Nat} {union : List Nat} {t u : Search σ ω} (ht : Head setup s k t)
      (hunion : (SearchM.renew setup).run { t with phase := .evolving } = (.ok union, u)) :
      Performs setup s (.update union) u
  /-- and the survivors are reported on. -/
  | snapshot {k : Nat} {t u : Search σ ω} (ht : Head setup s k t)
      (hevolve : (SearchM.evolve setup).run { t with phase := .evolving } = (.ok (), u)) : Performs setup s .snapshot u
  /-- At last the solutions are picked, from the population or from the archive. -/
  | front {k : Nat} {members : List Nat} {t : Search σ ω} (ht : Head setup s k t)
      (hmembers : members = t.population ∨ members = t.archive.solutions) : Performs setup s (.front members) t.finished

/-- The operation has what it needs: it reads evaluated members for goals of the search, and so it cannot fail. -/
structure Search.Serves (goals : List Goal) (setup : Setup σ ω) (r : Reader α) (u : Search σ ω) : Prop where
  objectives : u.archive.objectives = goals
  partitioned : u.archive.Partitioned
  goals_subset : r.goals ⊆ goals
  evaluated : ∀ i ∈ r.members u.population, (u.scene.individual i).Evaluated goals
  succeeds : ∃ a t, (r.run setup).run u = (.ok a, t)

theorem Search.Serves.sound {r : Reader α} (h : u.Serves goals setup r) :
    u.Sound (r.members u.population) u.population goals :=
  ⟨fun i hi => (h.evaluated i hi).sound, rfl, h.objectives, h.partitioned⟩

theorem Tracked.serves {n : Nat} {population kept own : List Nat} {r : Reader α}
    (h : Tracked goals n population kept own u) (hgoals : r.goals ⊆ goals) (hmembers : r.members u.population ⊆ kept)
    (hrun : ∃ a t, (r.run setup).run u = (.ok a, t)) : u.Serves goals setup r :=
  ⟨h.objectives, h.partitioned, hgoals, fun _ hi => h.evaluated_of_kept (hmembers hi), hrun⟩

section Stages
variable {n k : Nat} {members union : List Nat} {active : List Goal}

theorem Head.boundary (hs : Ready setup goals start s) (h : Head setup s k t) : Boundary setup goals start t := by
  induction h with
  | first h => exact .first hs h
  | next _ _ h ih => exact .next ih h

theorem Head.credits {contract : Contract σ} (hsetup : setup.Honours contract) (hs : Ready setup goals start s)
    (h : Head setup s k t) :
    Compliant contract setup (Distinct.ofList goals) start.events.size t ∧ s.Credits setup.subject t := by
  induction h with
  | first h =>
    have ht := post_of_run_eq (Compliant.wp_initialise hsetup hs.tracked (hs.fits hsetup)) h
    exact ht
  | next _ _ h ih =>
    have hu := post_of_run_eq (Compliant.wp_advance_since hsetup ih) h
    exact hu

theorem Opens.audited (h : Tracked goals n s.population [] [] s) (hopens : Opens setup s members active u) :
    active ⊆ goals ∧ Audited setup.subject .none s goals n members members [] members u := by
  obtain ⟨t, t', changed, hmembers, hchanged, hactive⟩ := hopens
  have ht := post_of_run_eq (Audited.wp_populate setup.honours_none h fun _ _ => Contract.fits_none _) hmembers
  rw [ht.run_updateArchive (List.Subset.refl _)] at hchanged
  cases hchanged
  have hu := post_of_run_eq ((ht.log _).wp_activeGoals (Contract.started_none setup _)) hactive
  exact hu

theorem Breeds.audited (h : Settled goals n s) (hbreeds : Breeds setup s union active u) :
    ∃ made, active ⊆ goals ∧ Audited setup.subject .none s goals n s.population union [] made u := by
  obtain ⟨t, t', offspring, hactive, hoffspring, rfl, rfl⟩ := hbreeds
  have hs : Audited setup.subject .none s goals n s.population s.population [] [] { s with phase := .evolving } :=
    (Tracked.audited h (fun _ _ => Contract.fits_none _) setup.subject).note
  obtain ⟨hsub, ht⟩ := post_of_run_eq (hs.wp_activeGoals (Contract.started_none setup _)) hactive
  have ht' := post_of_run_eq (ht.wp_breed setup.honours_none (List.Subset.refl _)) hoffspring
  have hunion :
      Audited setup.subject .none s goals n s.population (t'.population ++ offspring) [] ([] ++ offspring) t' := by
    rw [ht'.population_eq]
    exact ht'
  exact ⟨_, hsub, hunion.log _⟩

end Stages

theorem Audited.exists_rank {contract : Contract σ} {n : Nat} {population kept own made batch : List Nat}
    {active : List Goal} (h : Audited setup.subject contract s goals n population kept own made u)
    (hbatch : batch ⊆ kept) (hactive : active ⊆ goals) :
    ∃ fronts t, ((Reader.rank batch active).run setup).run u = (.ok fronts, t) := by
  obtain ⟨fronts, t, hrun, -⟩ := exists_of_wp (h.wp_computeDominance (E := fun _ _ => False) hbatch hactive)
  exact ⟨fronts, t, hrun⟩

/-- Whatever a run performs has what it needs. -/
theorem Performs.serves {r : Reader α} (hs : Ready setup goals start s) (h : Performs setup s r u) :
    u.Serves (Distinct.ofList goals) setup r := by
  cases h with
  | firstUpdate hmembers =>
    have hu := post_of_run_eq hs.tracked.wp_populate hmembers
    exact Tracked.serves hu (List.nil_subset _) (List.Subset.refl _) ⟨_, _, hu.run_updateArchive (List.Subset.refl _)⟩
  | firstRank hopens =>
    obtain ⟨hactive, hu⟩ := hopens.audited hs.tracked
    exact hu.toTracked.serves hactive (List.Subset.refl _) (hu.exists_rank (List.Subset.refl _) hactive)
  | firstSnapshot hopens hfronts =>
    obtain ⟨hactive, ht⟩ := hopens.audited hs.tracked
    obtain ⟨-, hu⟩ := post_of_run_eq (ht.wp_computeDominance (E := fun _ _ => False) (List.Subset.refl _) hactive) hfronts
    exact hu.toTracked.serves (List.nil_subset _) (hu.population_eq ▸ List.Subset.refl _) ⟨_, _, hu.run_snapshot⟩
  | rank ht hbreeds =>
    obtain ⟨made, hactive, hu⟩ := hbreeds.audited (ht.boundary hs).settled
    exact hu.toTracked.serves hactive (List.Subset.refl _) (hu.exists_rank (List.Subset.refl _) hactive)
  | @select k union active fronts t u v ht hbreeds hfronts =>
    obtain ⟨made, hactive, hu⟩ := hbreeds.audited (ht.boundary hs).settled
    obtain ⟨-, hv⟩ := post_of_run_eq (hu.wp_computeDominance (E := fun _ _ => False) (List.Subset.refl _) hactive) hfronts
    have hv : Tracked (Distinct.ofList goals) start.events.size t.population union [] { v with phase := .filling } :=
      hv.toTracked.note
    exact hv.serves hactive (List.Subset.refl _) ⟨_, _, hv.run_selectSurvivors (List.Subset.refl _) hactive⟩
  | @update k union t u ht hunion =>
    have hevolving : Settled (Distinct.ofList goals) start.events.size { t with phase := .evolving } :=
      Tracked.note (ht.boundary hs).settled
    obtain ⟨offspring, -, hu⟩ := post_of_run_eq (Tracked.wp_renew hevolving) hunion
    exact hu.serves (List.nil_subset _) (List.Subset.refl _) ⟨_, _, hu.run_updateArchive (List.Subset.refl _)⟩
  | @snapshot k t u ht hevolve =>
    have hevolving : Settled (Distinct.ofList goals) start.events.size { t with phase := .evolving } :=
      Tracked.note (ht.boundary hs).settled
    have haudited := Tracked.audited hevolving (fun _ _ => Contract.fits_none _) setup.subject
    obtain ⟨active, offspring, hgeneration, -⟩ :=
      post_of_run_eq (haudited.wp_evolve setup.honours_none (Contract.started_none setup _)) hevolve
    have hu := hgeneration.settled
    exact Tracked.serves hu (List.nil_subset _) (List.Subset.refl _) ⟨_, _, Tracked.run_snapshot hu⟩
  | @front k members t ht hmembers =>
    have hfinished := (ht.boundary hs).settled.finished
    have hevaluated : ∀ i ∈ members, (t.finished.scene.individual i).Evaluated (Distinct.ofList goals) := by
      intro i hi
      have hmem : i ∈ t.population ∨ i ∈ t.archive.solutions := by
        rcases hmembers with rfl | rfl
        · exact .inl hi
        · exact .inr hi
      obtain ⟨x, hx⟩ := hfinished.exists_evaluation hmem
      exact hfinished.evaluated_of_mem hx
    exact ⟨hfinished.objectives, hfinished.partitioned, List.nil_subset _, hevaluated, _, _,
      hfinished.run_front hevaluated⟩

/-! ### What a run reads, how it ends, and what it covers -/

/-- Whatever ends a run, individuals that were evaluated know their fitness, and what got covered is credited to an
answer. -/
theorem Ready.credits_of_generate {fuel : Nat} {r : Except Fault SearchResult} (hs : Ready setup goals start s)
    (h : (SearchM.generate setup fuel).run s = (r, t)) : s.Credits setup.subject t ∧ t.Intact start.events.size ∧
      ∀ e ∈ Event.evaluationsFrom start.events.size t.events, e.2.Evaluated (Distinct.ofList goals) := by
  have hrun := Compliant.wp_generate_any setup.honours_none hs.tracked (fun _ _ => Contract.fits_none _) fuel
  have hend (ht : Compliant .none setup (Distinct.ofList goals) start.events.size t ∧ s.Credits setup.subject t) :
      s.Credits setup.subject t ∧ t.Intact start.events.size ∧
        ∀ e ∈ Event.evaluationsFrom start.events.size t.events, e.2.Evaluated (Distinct.ofList goals) :=
    ⟨ht.2, Tracked.intact ht.1.settled, fun e he => (ht.1.settled.evaluated e he).1⟩
  rcases r with e | result
  · rcases fault_of_run_eq hrun h with hfails | ⟨-, ht⟩
    · exact ⟨hfails.credits, hfails.intact, hfails.evaluated⟩
    · exact hend ht
  · have ht := post_of_run_eq hrun h
    exact hend ht

/-- Every operation of a run that reads fitness values succeeds, and it does the same if it gives up as soon as a value
is not a finite number from zero to the worst fitness. So does the evaluation of a test case that changed, which comes
by its values from the evaluators. However a run ends, what ends it is not a value or a failure of an evaluator; whoever
was evaluated came by such a number for every goal, and has it still; and a goal that got covered is credited to an
answer of its evaluator which, converted to a double, is a zero. -/
theorem regular_of_run (hs : Ready setup goals start s) :
    (∀ {α : Type} (r : Reader α) u fault, Performs setup s r u → ∃ a t, (r.run setup).run u = (.ok a, t) ∧
      (r.perform setup (guarded fault setup.subject)).run u = (.ok a, t)) ∧
    (∀ u i fault, u.archive.Partitioned → (u.scene.individual i).IsTestCase → (u.scene.individual i).changed = true →
      ((Reader.evaluate i).perform setup (guarded fault setup.subject)).run u = (SearchM.evaluate setup i).run u) ∧
    (∀ fuel e t, (SearchM.generate setup fuel).run s = (.error e, t) → e = .unfinished ∨ setup.Raises e) ∧
    (∀ fuel r t, (SearchM.generate setup fuel).run s = (r, t) → s.Credits setup.subject t ∧
      ∀ e ∈ Event.evaluationsFrom start.events.size t.events, ∀ g ∈ goals, ∃ v, e.2.cache.get? g = some v ∧
        (t.scene.individual e.1).cache.get? g = some v ∧ Fitness.isRegular v = true) ∧
    ∀ k t, Head setup s k t → s.Credits setup.subject t := by
  have hsetup := setup.honours_raising
  refine ⟨fun r u fault h => ?_, fun u i fault hpartitioned htest hchanged => ?_, fun fuel e t h => ?_,
    fun fuel r t h => ?_, fun k t h => ?_⟩
  · have hserves := h.serves hs
    obtain ⟨a, t, hsucceeds⟩ := hserves.succeeds
    exact ⟨a, t, hsucceeds, (hserves.sound.run_guarded r hserves.goals_subset fault).trans hsucceeds⟩
  · have hsound : u.Sound [i] u.population u.archive.objectives :=
      ⟨by simpa [Scene.Sound] using Individual.Sound.of_changed htest hchanged, rfl, rfl, hpartitioned⟩
    exact hsound.run_guarded (.evaluate i) (List.nil_subset _) fault
  · have hrun := Compliant.wp_generate_any hsetup hs.tracked (hs.fits hsetup) fuel
    exact (fault_of_run_eq hrun h).elim (fun hfails => .inr hfails.blame) fun hunfinished => .inl hunfinished.1
  · obtain ⟨hcredits, hintact, hevaluated⟩ := hs.credits_of_generate h
    refine ⟨hcredits, fun e he g hg => ?_⟩
    obtain ⟨v, hv, hrange⟩ := (hevaluated e he).known g (Distinct.mem_ofList.2 hg)
    exact ⟨v, hv, (Individual.bare_eq_iff.1 (hintact e he)).2.2.2 ▸ hv, hrange.isRegular⟩
  · exact (h.credits hsetup hs).2

/-! ### Evaluators in a mood -/

namespace Sample

/-- Evaluators that come back with all sorts of things. Only the second one ever comes back with a zero, in a text. -/
def moody : Parts where
  goals := #[
    ⟨"invalid", .script #[.text "far", .number (.real (0.0 / 0.0)), .failure, .number (.real (-1.0))], none, false⟩,
    ⟨"late", .script #[.number (.int (10 ^ 400)), .number (.real (1.0 / 0.0)), .text " 0.0 "], none, false⟩]
  operators := #[.append (.int 0)]
  factory := .cycle #[.statements [.int 1]] (some 0)

/-- Test cases are measured by evaluators in a mood, whose answers are kept. -/
def judged : Setup Statement (World × (Nat → List Verdict)) where
  subject := moody.subject.observed fun n content w => (moody.subject.evaluate n content w).1
  strategy := .static
  options := { population := 2 }
  tournamentSize := 2
  trivial _ := false

def unjudged : Search Statement (World × (Nat → List Verdict)) where
  scene := ⟨#[], ({ unborn.scene.outside with calls := #[0, 0] }, fun _ => []), #[]⟩
  archive := .ofGoals [.atom 0, .atom 1]
  conditions := [.iterations 2 0]

end Sample

/-- The run gets to its end, and the goal that got covered owes it to the text; the archive reads regular values of the
first population, none of which an evaluator came back with. -/
theorem regular_of_run_judged :
    (∃ t, (SearchM.generate Sample.judged 3).run Sample.unjudged =
        (.ok ⟨[2], [(.atom 0, false), (.atom 1, true)], 2⟩, t) ∧
      t.archive.covered = [(.atom 1, 2)] ∧ ∃ verdict ∈ t.scene.outside.2 1, verdict.IsZero) ∧
    ∃ u t, Performs Sample.judged Sample.unjudged (.update [0, 1]) u ∧
      (u.scene.outside.2 0).length = 2 ∧ (u.scene.outside.2 1).length = 2 ∧
      ((Reader.update [0, 1]).perform Sample.judged (guarded .unfinished Sample.judged.subject)).run u =
        (.ok false, t) := by
  obtain ⟨hreads, -, -, hends, -⟩ :=
    @regular_of_run _ _ Sample.judged [.atom 0, .atom 1] Sample.unjudged _ (.new rfl)
  constructor
  · have hrun := run_eq_of_toOption (x := SearchM.generate Sample.judged 3) (s := Sample.unjudged)
      (a := ⟨[2], [(.atom 0, false), (.atom 1, true)], 2⟩) (by decide +kernel)
    have hcovered : ((SearchM.generate Sample.judged 3).run Sample.unjudged).2.archive.covered = [(.atom 1, 2)] := by
      decide +kernel
    obtain ⟨new, hnew, hcredit⟩ := (hends 3 _ _ hrun).1.answers Prod.snd (Subject.answers_observed _) 1
    refine ⟨_, hrun, hcovered, ?_⟩
    rw [hnew]
    exact (hcredit (by unfold Archive.coveredGoals; rw [hcovered]; decide)).resolve_left nofun
  · have hpopulate := run_eq_of_toOption (x := SearchM.populate Sample.judged) (s := Sample.unjudged) (a := [0, 1])
      (by decide +kernel)
    have hperforms := Performs.firstUpdate hpopulate
    obtain ⟨changed, t, hupdate, hguarded⟩ := hreads (.update [0, 1]) _ .unfinished hperforms
    have hchanged : changed = false := by
      have hresult : (((Reader.update [0, 1]).run Sample.judged).run
          ((SearchM.populate Sample.judged).run Sample.unjudged).2).1.toOption = some false := by decide +kernel
      rw [hupdate] at hresult
      exact Option.some.inj hresult
    subst hchanged
    exact ⟨_, t, hperforms, by decide +kernel, by decide +kernel, hguarded⟩

end GoalSearch
