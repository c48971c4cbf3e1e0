import GoalSearch.Proofs.Limits
import GoalSearch.Proofs.Search.Halting

/-!
# Runs that cannot fail

Between two generations a search whose parts honour a contract is `Compliant` (`Boundary.compliant`). It fails with
nothing but what the contract allows, and if its generations are limited and it is given fuel for them, it comes to an
end (`Compliant.wp_generate`). The same holds of a session with a configuration that passes its check
(`Session.wp_run_of_valid`).
-/

namespace GoalSearch

variable {σ ω : Type} {contract : Contract σ} {setup : Setup σ ω} {goals : List Goal} {n limit fuel : Nat}
  {s t : Search σ ω} {result : SearchResult}

/-- Settled, with test cases that fit, and prepared to tell the goals to pursue. -/
structure Compliant (contract : Contract σ) (setup : Setup σ ω) (goals : List Goal) (n : Nat) (s : Search σ ω) :
    Prop where
  settled : Settled goals n s
  evaluated_fits : ∀ e ∈ Event.evaluationsFrom n s.events, contract.Fits e.2.content
  started : contract.Started setup s

namespace Compliant

theorem logged (h : Compliant contract setup goals n s) (log : Array Notice) :
    Compliant contract setup goals n { s with scene := { s.scene with log := log } } :=
  ⟨Tracked.onScene h.settled (.of_pool rfl), h.evaluated_fits, h.started⟩

theorem finished (h : Compliant contract setup goals n s) : Compliant contract setup goals n s.finished where
  settled := h.settled.finished
  evaluated_fits := by
    have hevents : Event.evaluationsFrom n s.finished.events = Event.evaluationsFrom n s.events :=
      Event.evaluationsFrom_push_of_none h.settled.events_le rfl
    exact hevents ▸ h.evaluated_fits
  started := h.started

theorem wp_initialise (hsetup : setup.Honours contract) (h : Tracked goals n s.population [] [] s)
    (hfits : ∀ e ∈ Event.evaluationsFrom n s.events, contract.Fits e.2.content) :
    wp (SearchM.initialise setup) (fun _ t => Compliant contract setup goals n t ∧ s.Credits setup.subject t)
      (contract.Fails setup.subject goals s n) s := by
  have hknown : wp (SearchM.initialise setup) (fun _ => contract.Started setup) (fun _ => contract.Started setup) s :=
    Contract.wp_initialise_started
  refine wp_mono (wp_and (Audited.wp_initialise hsetup h hfits) hknown) ?_ fun _ _ h => h.1
  rintro - t ⟨⟨⟨members, u, -, -, ht⟩, -⟩, hstarted⟩
  exact ⟨⟨ht.toTracked.settled (List.Subset.refl _) ht.kept_nodup, ht.evaluated_fits, hstarted⟩, ht.accounts.credits⟩

theorem wp_advance (hsetup : setup.Honours contract) (h : Compliant contract setup goals n s) :
    wp (SearchM.advance setup) (fun _ t => Compliant contract setup goals n t ∧ s.Credits setup.subject t)
      (contract.Fails setup.subject goals s n) s := by
  have haudited := Tracked.audited h.settled h.evaluated_fits setup.subject
  have hkeeps := SearchM.keeps_advance setup (contract.closed_started setup)
  refine wp_mono (wp_and (haudited.wp_advance hsetup h.started) (Keeps.iff_wp.1 hkeeps s h.started)) ?_ fun _ _ h => h.1
  rintro - t ⟨⟨⟨active, offspring, hgeneration, ht⟩, -⟩, hstarted⟩
  exact ⟨⟨hgeneration.settled, ht.evaluated_fits, hstarted⟩, ht.accounts.credits⟩

/-- The same as a step of a run: what got covered since the start of the run is credited. -/
theorem wp_advance_since (hsetup : setup.Honours contract) {start : Search σ ω}
    (h : Compliant contract setup goals n s ∧ start.Credits setup.subject s) :
    wp (SearchM.advance setup) (fun _ t => Compliant contract setup goals n t ∧ start.Credits setup.subject t)
      (contract.Fails setup.subject goals start n) s :=
  wp_mono (h.1.wp_advance hsetup) (fun _ _ ht => ⟨ht.1, h.2.trans ht.2⟩) fun _ _ ht => ht.trans h.2

end Compliant

/-- A search that came to an end: the solutions were evaluated, and every goal is reported on. -/
structure Delivered (contract : Contract σ) (setup : Setup σ ω) (goals : List Goal) (n : Nat) (result : SearchResult)
    (s : Search σ ω) : Prop extends Compliant contract setup goals n s where
  solutions : ∀ i ∈ result.solutions, ∃ x, (i, x) ∈ Event.evaluationsFrom n s.events
  perGoal : result.perGoal = goals.map fun g => (g, (s.archive.get? g).isSome)

theorem Delivered.logged (h : Delivered contract setup goals n result s) (log : Array Notice) :
    Delivered contract setup goals n result { s with scene := { s.scene with log := log } } :=
  ⟨h.toCompliant.logged log, h.solutions, h.perGoal⟩

/-- With fuel for as many generations as the limit allows, a run fails with nothing but what the contract allows. -/
theorem Compliant.wp_generate (hsetup : setup.Honours contract) (h : Tracked goals n s.population [] [] s)
    (hfits : ∀ e ∈ Event.evaluationsFrom n s.events, contract.Fits e.2.content)
    (hlimited : Tally.iterations.Limited limit s.conditions) (hfuel : limit ≤ fuel) :
    wp (SearchM.generate setup fuel) (Delivered contract setup goals n) (contract.Fails setup.subject goals s n) s := by
  unfold SearchM.generate
  refine wp_seq_run (wp_initialise hsetup h hfits) fun _ t hrun ht => ?_
  have hloop : wp (SearchM.advanceAll setup fuel)
      (fun _ u => ∃ k, (Head setup s k u ∧ Compliant contract setup goals n u ∧ s.Credits setup.subject u) ∧
        u.goesOn setup = false) (contract.Fails setup.subject goals s n) t := by
    refine SearchM.wp_advanceAll (k := 0)
      (P := fun k u => Head setup s k u ∧ Compliant contract setup goals n u ∧ s.Credits setup.subject u)
      ⟨.first hrun, ht⟩ (fun k u hu hgo => ?_) fun u hu hgo => ?_
    · exact wp_imp (wp_run (wp_advance_since hsetup hu.2)) fun _ v hv => ⟨.next hu.1 hgo hv.1, hv.2⟩
    · -- the limit is reached before the fuel is used up
      have hlt := hu.1.lt_of_goesOn hlimited hgo
      omega
  refine wp_seq hloop fun _ u hu => ?_
  obtain ⟨k, ⟨-, hu, -⟩, -⟩ := hu
  rw [wp_of_run_eq hu.settled.run_finalise]
  exact ⟨hu.finished, fun i hi => hu.finished.settled.exists_of_mem_finalSolutions hi, rfl⟩

/-- Without a limit, want of fuel is the only other way for a run to fail. However it ends, what it covered is credited
to an answer. -/
theorem Compliant.wp_generate_any (hsetup : setup.Honours contract) (h : Tracked goals n s.population [] [] s)
    (hfits : ∀ e ∈ Event.evaluationsFrom n s.events, contract.Fits e.2.content) (fuel : Nat) :
    wp (SearchM.generate setup fuel) (fun _ t => Compliant contract setup goals n t ∧ s.Credits setup.subject t)
      (fun e t => contract.Fails setup.subject goals s n e t ∨
        e = .unfinished ∧ Compliant contract setup goals n t ∧ s.Credits setup.subject t) s := by
  unfold SearchM.generate
  refine wp_seq (wp_mono (wp_initialise hsetup h hfits) (fun _ _ h => h) fun _ _ => .inl) fun _ t ht => ?_
  refine wp_seq (SearchM.wp_advanceAll (k := 0)
    (P := fun _ t => Compliant contract setup goals n t ∧ s.Credits setup.subject t) ht
    (fun _ t ht _ => wp_mono (wp_advance_since hsetup ht) (fun _ _ h => h) fun _ _ => .inl)
    fun t ht _ => .inr ⟨rfl, ht⟩) fun _ u hu => ?_
  obtain ⟨-, ⟨hu, hcredits⟩, -⟩ := hu
  rw [wp_of_run_eq hu.settled.run_finalise]
  exact ⟨hu.finished, hcredits.trans (.of_quiet (.refl _ _) rfl)⟩

section Runs
variable {start : Search σ ω}

/-- All that was evaluated since the archive was new fits. -/
theorem Ready.fits (hsetup : setup.Honours contract) (h : Ready setup goals start s) :
    ∀ e ∈ Event.evaluationsFrom start.events.size s.events, contract.Fits e.2.content := by
  induction h with
  | new _ => simp [Event.evaluationsFrom_size]
  | again hs h ih =>
    have ht := post_of_run_eq (Compliant.wp_generate_any hsetup hs.tracked ih _) h
    exact ht.1.evaluated_fits

theorem Boundary.compliant (hsetup : setup.Honours contract) (h : Boundary setup goals start t) :
    Compliant contract setup (Distinct.ofList goals) start.events.size t := by
  induction h with
  | first hs h =>
    have ht := post_of_run_eq (Compliant.wp_initialise hsetup hs.tracked (hs.fits hsetup)) h
    exact ht.1
  | next _ h ih =>
    have ht := post_of_run_eq (ih.wp_advance hsetup) h
    exact ht.1

end Runs

namespace Session
variable {session : Session σ ω} {strategy : Strategy} {E : Fault → Search σ ω → Prop}

/-- A session with a configuration that passes its check, goals and a factory can prepare its search. -/
theorem wp_prepare_of_valid (hvalid : session.config.Valid) (hgoals : session.goals ≠ [])
    (hfactory : session.hasFactory = true) (hstrategy : Strategy.ofName? session.config.algorithm = some strategy) :
    wp session.prepare (fun setup t => setup = session.setup strategy ∧ Prepared session s setup t) E s := by
  have hcheck : session.check = .ok () := by
    unfold check
    rw [Config.validate_eq_ok_iff.2 hvalid, List.isEmpty_eq_false_iff.2 hgoals, hfactory]
    rfl
  have hsucceeds : wp session.prepare (fun setup _ => setup = session.setup strategy) (fun _ _ => False) s := by
    unfold prepare
    rw [wp_bind, SearchM.wp_onScene, SceneM.wp_act_of_eq (a := ()) (by rw [hcheck]), wp_bind, wp_get, wp_bind,
      SearchM.wp_log]
    exact wp_imp (wp_assemble_of_valid hvalid hstrategy) fun _ _ h => h.1
  exact wp_mono (wp_and hsucceeds wp_prepare) (fun _ _ h => h) fun _ _ h => h.1.elim

theorem wp_reportEnd : wp (reportEnd setup) (fun _ t => ∃ log, t = { s with scene := { s.scene with log := log } }) E s := by
  unfold reportEnd SearchM.now
  rw [wp_bind, SearchM.wp_resourcesLeft, wp_ite]
  split
  · exact ⟨_, rfl⟩
  · rw [wp_bind, SearchM.wp_log, wp_bind, wp_bind, wp_get, wp_pure, wp_bind, wp_get]
    refine wp_imp SearchM.wp_logs ?_
    rintro - _ ⟨log, rfl⟩
    exact ⟨log, rfl⟩

/-- A session fails with nothing but what the contract of its parts allows. -/
theorem wp_run_of_valid (hvalid : session.config.Valid) (hgoals : session.goals ≠ [])
    (hfactory : session.hasFactory = true) (hstrategy : Strategy.ofName? session.config.algorithm = some strategy)
    (hsetup : (session.setup strategy).Honours contract) (hlimit : session.config.stopping.maximumIterations = limit)
    (hfuel : limit ≤ fuel) :
    wp (session.run fuel)
      (Delivered contract (session.setup strategy) (Distinct.ofList session.goals) s.events.size)
      (fun e _ => contract.blame e) s := by
  unfold run
  refine wp_seq (wp_prepare_of_valid hvalid hgoals hfactory hstrategy) fun setup t hpost => ?_
  obtain ⟨rfl, hprepared⟩ := hpost
  have hsearch : wp (session.search fuel (session.setup strategy))
      (Delivered contract (session.setup strategy) (Distinct.ofList session.goals) s.events.size)
      (fun e _ => contract.blame e) t := by
    unfold search
    rw [wp_bind, SearchM.wp_log, ← hprepared.events]
    have htracked := (Tracked.new hprepared.archive).onScene (u := t.scene.logged (.searchStarted session.goals.length))
      (.of_pool rfl)
    have hgenerate := Compliant.wp_generate (s := { t with scene := t.scene.logged _ }) hsetup htracked
      (by rw [Event.evaluationsFrom_size]; simp) ⟨0, hprepared.conditions .iterations limit hlimit⟩ hfuel
    refine wp_seq (wp_mono hgenerate (fun _ _ h => h) fun _ _ h => h.1) fun result u hu => ?_
    refine wp_seq wp_reportEnd ?_
    rintro - _ ⟨log, rfl⟩
    exact hu.logged log
  rw [wp_bind, wp_always]
  refine wp_mono hsearch (fun result u hu => ?_) fun _ _ h => h
  rw [SearchM.wp_log]
  unfold reportResult
  rw [wp_bind, SearchM.wp_log, wp_pure]
  exact (hu.logged _).logged _

end Session

end GoalSearch
