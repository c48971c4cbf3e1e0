import GoalSearch.Proofs.Search.Course

/-!
# Originals stay as they are

A generation breeds from members of the population, also from one that is chosen twice, and from archived individuals.
It works on copies: however it ends, whoever was in the population or in the archive before has the same statements and
the same fitness values as before (`originals_of_evolve`).
-/

namespace GoalSearch

variable {σ ω : Type} {setup : Setup σ ω} {goals : List Goal} {start s t : Search σ ω} {n i : Nat}

theorem Settled.wp_evolve (setup : Setup σ ω) (h : Settled goals n s) :
    wp (SearchM.evolve setup) (fun _ t => t.Intact n) (fun _ t => t.Intact n) s := by
  have haudited : Audited setup.subject .none s goals n s.population s.population [] [] s :=
    Tracked.audited h (fun _ _ => Contract.fits_none _) setup.subject
  refine wp_mono (haudited.wp_evolve setup.honours_none (Contract.started_none setup s)) ?_ fun _ _ hfails => hfails.intact
  rintro - t ⟨active, offspring, -, ht⟩
  exact ht.intact

/-- However a step of evolution in a run ends, whoever was in the population or in the archive has the same statements,
the same mark of change and the same known values as before; nothing but age, rank and distance may differ. The fitness
for every goal is read with the same value before and afterwards. -/
theorem originals_of_evolve (hs : Boundary setup goals start s) {result : Except Fault Unit}
    (h : (SearchM.evolve setup).run { s with phase := .evolving } = (result, t))
    (hi : i ∈ s.population ∨ i ∈ s.archive.solutions) :
    (∃ age rank distance,
      t.scene.individual i = { s.scene.individual i with age := age, rank := rank, distance := distance }) ∧
    ∀ g ∈ goals, ∃ v, (fitness setup.subject g i).run s.scene = (.ok v, s.scene) ∧
      (fitness setup.subject g i).run t.scene = (.ok v, t.scene) := by
  have hsettled := hs.settled
  have hevolving : Settled (Distinct.ofList goals) start.events.size { s with phase := .evolving } :=
    Tracked.note hsettled
  have hintact : t.Intact start.events.size := by
    have hend := wp_ends.1 (hevolving.wp_evolve setup)
    rwa [h] at hend
  have hevents : s.events.toList <+: t.events.toList := by
    have hend := SearchM.keeps_evolve setup (Search.closed_events s.events.toList) { s with phase := .evolving }
      (List.prefix_refl _)
    rwa [h] at hend
  obtain ⟨x, hx⟩ := hsettled.exists_evaluation hi
  have hbare := hsettled.bare_eq_of_intact hintact hevents hx
  have hevaluated := hsettled.evaluated_of_mem hx
  refine ⟨Individual.exists_notes_of_bare hbare, fun g hg => ⟨_, hevaluated.run_fitness (Distinct.mem_ofList.2 hg), ?_⟩⟩
  rw [(hevaluated.of_bare hbare).run_fitness (Distinct.mem_ofList.2 hg), Individual.knownFitness_of_bare hbare]

/-- A generation of growing test cases leaves the short ones that it begins with as they are. -/
theorem originals_of_evolve_growing : ∃ s, Boundary Sample.growing [.atom 0, .atom 1] Sample.unborn s ∧
    s.population = [0, 1] ∧ s.archive.solutions = [0] ∧
    ∃ result t, (SearchM.evolve Sample.growing).run { s with phase := .evolving } = (result, t) ∧
      ∀ i ∈ [0, 1], (∃ age rank distance,
        t.scene.individual i = { s.scene.individual i with age := age, rank := rank, distance := distance }) ∧
        ∀ g ∈ [Goal.atom 0, .atom 1], ∃ v,
          (fitness Sample.shortAndLong.subject g i).run s.scene = (.ok v, s.scene) ∧
          (fitness Sample.shortAndLong.subject g i).run t.scene = (.ok v, t.scene) := by
  obtain ⟨s, hs, hpopulation, hsolutions⟩ : ∃ s, Boundary Sample.growing [.atom 0, .atom 1] Sample.unborn s ∧
      s.population = [0, 1] ∧ s.archive.solutions = [0] :=
    ⟨_, .first (.new rfl) (run_eq_of_toOption (by decide +kernel)), by decide +kernel, by decide +kernel⟩
  exact ⟨s, hs, hpopulation, hsolutions, _, _, rfl, fun i hi => originals_of_evolve hs rfl (.inl (hpopulation ▸ hi))⟩

end GoalSearch
