import GoalSearch.Proofs.Search.Closed
import GoalSearch.Proofs.Search.Run
import Mathlib.Logic.Relation

/-!
# The course of a run

A run goes from boundary to boundary, each time by one generation (`Advances`, `Boundary.exists_generation`). What no
step can break holds at all of them (`Boundary.keeps`). So events and covered goals only become more, evaluated
individuals stay as they are but for their notes, and what is reported last at a boundary is its snapshot.
-/

namespace GoalSearch

variable {σ ω : Type} {setup : Setup σ ω} {goals : List Goal} {start s t : Search σ ω}

/-- From `s` to `t` a search makes one generation. -/
def Advances (setup : Setup σ ω) (s t : Search σ ω) : Prop := (SearchM.advance setup).run s = (.ok (), t)

/-! ### What no step can break -/

section Keeps
variable {P : Search σ ω → Prop}

theorem Ready.keeps (hP : Search.Closed P) (hstart : P start) (hs : Ready setup goals start s) : P s := by
  induction hs with
  | new => exact hstart
  | again _ h ih => exact (SearchM.keeps_generate setup hP _).of_run_eq ih h

theorem Boundary.keeps (hP : Search.Closed P) (hstart : P start) (ht : Boundary setup goals start t) : P t := by
  induction ht with
  | first hs h => exact (SearchM.keeps_initialise setup hP).of_run_eq (hs.keeps hP hstart) h
  | next _ h ih => exact (SearchM.keeps_advance setup hP).of_run_eq ih h

theorem Advances.keeps (hP : Search.Closed P) (hs : P s) (h : Relation.ReflTransGen (Advances setup) s t) : P t := by
  induction h with
  | refl => exact hs
  | tail _ hlast ih => exact (SearchM.keeps_advance setup hP).of_run_eq ih hlast

end Keeps

theorem Advances.events_prefix (h : Relation.ReflTransGen (Advances setup) s t) :
    s.events.toList <+: t.events.toList :=
  Advances.keeps (Search.closed_events s.events.toList) (List.prefix_refl _) h

theorem Ready.start_archive (hs : Ready setup goals start s) : start.archive = .ofGoals goals := by
  induction hs with
  | new h => exact h
  | again _ _ ih => exact ih

namespace Boundary

theorem start_archive (ht : Boundary setup goals start t) : start.archive = .ofGoals goals := by
  induction ht with
  | first hs _ => exact hs.start_archive
  | next _ _ ih => exact ih

theorem partitioned (ht : Boundary setup goals start t) :
    t.archive.objectives = Distinct.ofList goals ∧ t.archive.Partitioned := by
  refine ht.keeps (Search.closed_archive
    (R := fun a => a.objectives = Distinct.ofList goals ∧ a.Partitioned) fun _ _ _ _ h => ?_) ?_
  · exact ⟨Archive.objectives_submit.trans h.1, h.2.submit⟩
  · rw [ht.start_archive]
    exact ⟨rfl, Archive.partitioned_ofGoals goals⟩

/-- Only a run with goals has some that are uncovered. -/
theorem goals_ne_nil (ht : Boundary setup goals start t) (hopen : t.archive.uncovered ≠ []) : goals ≠ [] := by
  rintro rfl
  obtain ⟨hobjectives, hpartitioned⟩ := ht.partitioned
  have hsub := hpartitioned.uncovered_subset
  rw [hobjectives] at hsub
  exact hopen (List.subset_nil.1 hsub)

/-! ### From boundary to boundary -/

theorem later (hs : Boundary setup goals start s) (h : Relation.ReflTransGen (Advances setup) s t) :
    Boundary setup goals start t := by
  induction h with
  | refl => exact hs
  | tail _ hlast ih => exact .next ih hlast

/-- What a generation of a run consists of. -/
theorem exists_generation (hs : Boundary setup goals start s) (h : Advances setup s t) :
    ∃ active offspring, Generation (Distinct.ofList goals) start.events.size setup active offspring
      { s with phase := .evolving } t := by
  have hadvance := post_of_run_eq (hs.settled.wp_advance) h
  exact hadvance.1

theorem reported (ht : Boundary setup goals start t) : t.Reported := by
  cases ht with
  | first hs h =>
    have hfirst := post_of_run_eq (Settled.wp_initialise hs.tracked) h
    exact hfirst.2.2.1
  | next hs h =>
    have hadvance := post_of_run_eq (hs.settled.wp_advance) h
    exact hadvance.2

/-- What a member of the population is known for, it is known for later on. -/
theorem known_eq (hs : Boundary setup goals start s)
    (h : Relation.ReflTransGen (Advances setup) s t) {i : Nat} (hi : i ∈ s.population) (g : Goal) :
    t.scene.known g i = s.scene.known g i :=
  Individual.knownFitness_of_bare
    (hs.settled.bare_eq ((hs.later h).settled) (Advances.events_prefix h) hi)

theorem uncovered_subset (hs : Boundary setup goals start s)
    (h : Relation.ReflTransGen (Advances setup) s t) : t.archive.uncovered ⊆ s.archive.uncovered := by
  obtain ⟨hobjectives, hpartitioned⟩ := hs.partitioned
  obtain ⟨hobjectives', hpartitioned'⟩ := (hs.later h).partitioned
  have hcovered : s.archive.coveredGoals ⊆ t.archive.coveredGoals :=
    hs.settled.coveredGoals_subset ((hs.later h).settled) (Advances.events_prefix h)
  intro g hg
  have hmem : g ∈ s.archive.objectives := by
    rw [hobjectives, ← hobjectives']
    exact hpartitioned'.uncovered_subset hg
  refine ((hpartitioned.mem_objectives g).1 hmem).resolve_left fun hg' => ?_
  exact hpartitioned'.disjoint g (hcovered hg') hg

theorem length_uncovered_le (hs : Boundary setup goals start s)
    (h : Relation.ReflTransGen (Advances setup) s t) :
    t.archive.uncovered.length ≤ s.archive.uncovered.length :=
  (List.subperm_of_subset (hs.later h).partitioned.2.uncovered_nodup (hs.uncovered_subset h)).length_le

end Boundary

end GoalSearch
