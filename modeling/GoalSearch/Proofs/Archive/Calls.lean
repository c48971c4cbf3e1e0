import GoalSearch.Proofs.Archive.Partition
import GoalSearch.Proofs.Search.Closed
import GoalSearch.Sample.Subject

/-!
# Calls on an archive

An archive is used by four calls: handing in one individual for one goal, handing in a batch, adding goals and
resetting. `Leads` follows an archive through a list of calls. Between two calls the scene may change in any
way that the predicate on scenes admits, and a call that ends with a fault leaves what it did until then.
`objectives_partition`: whatever the calls, every objective is covered or uncovered, and none gets lost.
-/

namespace GoalSearch

variable {σ ω : Type} {subject : Subject σ ω}

namespace SearchM
variable {s : Search σ ω} {E : Fault → Search σ ω → Prop}

/-- Adding goals acts on the archive and the log alone. -/
theorem wp_addGoals {goals : List Goal} {Q : Unit → Search σ ω → Prop}
    (h : ∀ log, Q () { s with
      scene := { s.scene with log := log }
      archive := goals.foldl Archive.addGoal s.archive }) : wp (addGoals goals) Q E s := by
  induction goals generalizing s with
  | nil => exact h _
  | cons g goals ih =>
    unfold addGoals
    show wp (_ >>= fun _ => addGoals goals) Q E s
    simp only [wp_bind, wp_get, wp_ite, wp_log, wp_modify]
    split
    · exact ih fun log => h log
    · exact ih fun log => h log

end SearchM

namespace Archive

/-- A call on an archive. -/
inductive Call where
  /-- Hands in an individual for a goal. -/
  | submit (i : Nat) (goal : Goal)
  /-- Hands in individuals for the goals they cover. -/
  | update (members : List Nat)
  | addGoals (goals : List Goal)
  | reset
deriving Repr, DecidableEq

/-- Makes a call in a search. -/
def Call.make (subject : Subject σ ω) : Call → SearchM σ ω Unit
  | submit i g => do let _ ← SearchM.submit i g
  | update members => do let _ ← SearchM.updateArchive subject members
  | addGoals goals => SearchM.addGoals goals
  | reset => modify fun s => { s with archive := s.archive.reset }

/-- The calls lead from one archive to another, each made in a scene with `P`. -/
inductive Leads (subject : Subject σ ω) (P : Scene σ ω → Prop) : Archive Nat → List Call → Archive Nat → Prop
  | refl (a : Archive Nat) : Leads subject P a [] a
  | call {b : Archive Nat} {c : Call} {calls : List Call} (s : Search σ ω) (hs : P s.scene)
      (h : Leads subject P ((c.make subject).run s).2.archive calls b) :
      Leads subject P s.archive (c :: calls) b

variable {a b : Archive Nat} {calls : List Call} {P : Scene σ ω → Prop}

/-- Makes calls one after the other, each in the search that the last one left. -/
def Call.makeAll (subject : Subject σ ω) (calls : List Call) (s : Search σ ω) : Search σ ω :=
  calls.foldl (fun s c => ((c.make subject).run s).2) s

theorem leads_makeAll (subject : Subject σ ω) (calls : List Call) (s : Search σ ω) :
    Leads subject (fun _ => True) s.archive calls (Call.makeAll subject calls s).archive := by
  induction calls generalizing s with
  | nil => exact .refl _
  | cons c calls ih => exact .call s trivial (ih _)

/-- A property of archives that all the single steps keep holds on, whatever the scenes. -/
theorem Leads.keeps {R : Archive Nat → Prop} (hab : Leads subject P a calls b)
    (hsubmit : ∀ a size i g, R a → R (a.submit size i g).1)
    (hadd : ∀ gs, Call.addGoals gs ∈ calls → ∀ g ∈ gs, ∀ a, R a → R (a.addGoal g))
    (hreset : Call.reset ∈ calls → ∀ a, R a → R a.reset) (ha : R a) : R b := by
  induction hab with
  | refl a => exact ha
  | @call b c calls s _ _ ih =>
    refine ih (fun gs h => hadd gs (by simp [h])) (fun h => hreset (by simp [h])) ?_
    have harchival : Search.Archival (σ := σ) (ω := ω) fun t => R t.archive :=
      (Search.closed_archive hsubmit).stable.toArchival
    have hc : Keeps (fun t => R t.archive) (c.make subject) := by
      cases c with
      | submit i g => exact .bind (SearchM.keeps_submit harchival.crediting i g) fun _ => .pure _
      | update members => exact .bind (SearchM.keeps_updateArchive subject harchival members) fun _ => .pure _
      | addGoals gs =>
        refine Keeps.iff_wp.2 fun t ht => SearchM.wp_addGoals fun _ => ?_
        exact List.foldlRecOn gs _ ht fun a h g hg => hadd gs (by simp) g hg a h
      | reset => exact .modify fun t => hreset (by simp) t.archive
    exact hc s ha

theorem Leads.partitioned (hab : Leads subject P a calls b) (ha : a.Partitioned) : b.Partitioned :=
  hab.keeps (R := Partitioned) (fun _ _ _ _ h => h.submit) (fun _ _ g _ _ h => h.addGoal g)
    (fun _ _ h => h.reset) ha

theorem Leads.objectives_prefix (hab : Leads subject P a calls b) : a.objectives <+: b.objectives := by
  refine hab.keeps (R := fun b => a.objectives <+: b.objectives) ?_ ?_ (fun _ _ h => h) List.prefix_rfl
  · intro b size i g h
    rwa [objectives_submit]
  · intro _ _ g _ b h
    unfold addGoal
    split
    · exact h
    · exact h.trans (List.prefix_append _ _)

/-- Without a reset no covered goal is given up. -/
theorem Leads.coveredGoals_subset (hab : Leads subject P a calls b) (hreset : .reset ∉ calls) :
    a.coveredGoals ⊆ b.coveredGoals := by
  refine hab.keeps (R := fun b => a.coveredGoals ⊆ b.coveredGoals) ?_ ?_ (fun h => absurd h hreset)
    (List.Subset.refl _)
  · intro b size i g h
    exact List.Subset.trans h coveredGoals_subset_submit
  · intro _ _ g _ b h
    unfold addGoal
    split <;> exact h

theorem mem_objectives_addGoal {g h : Goal} : g ∈ (a.addGoal h).objectives ↔ g ∈ a.objectives ∨ g = h := by
  unfold addGoal
  split
  · exact ⟨.inl, fun hg => hg.elim id fun e => e ▸ ‹h ∈ a.objectives›⟩
  · simp

theorem mem_objectives_foldl_addGoal {goals : List Goal} {g : Goal} :
    g ∈ (goals.foldl addGoal a).objectives ↔ g ∈ a.objectives ∨ g ∈ goals := by
  induction goals generalizing a with
  | nil => simp
  | cons h goals ih => rw [List.foldl_cons, ih, mem_objectives_addGoal, List.mem_cons, or_assoc]

/-- The objectives are the goals an archive was made with and those that were added. -/
theorem Leads.mem_objectives (hab : Leads subject P a calls b) (g : Goal) :
    g ∈ b.objectives ↔ g ∈ a.objectives ∨ ∃ goals, Call.addGoals goals ∈ calls ∧ g ∈ goals := by
  refine ⟨fun hg => ?_, fun hg => ?_⟩
  · refine hab.keeps (R := fun b => g ∈ b.objectives → _) ?_ ?_ (fun _ _ h => h) .inl hg
    · intro b size i h hb
      rwa [objectives_submit]
    · intro goals hgoals h hh b hb hg
      rcases mem_objectives_addGoal.1 hg with hg | rfl
      · exact hb hg
      · exact .inr ⟨goals, hgoals, hh⟩
  · rcases hg with hg | ⟨goals, hgoals, hg⟩
    · exact hab.objectives_prefix.subset hg
    · induction hab with
      | refl a => simp at hgoals
      | @call b c calls s _ h ih =>
        rcases List.mem_cons.1 hgoals with rfl | hgoals
        · -- this call adds the goal, and later ones keep it
          refine h.objectives_prefix.subset ?_
          have hc : wp (SearchM.addGoals goals) (fun _ t => g ∈ t.archive.objectives) (fun _ _ => False) s :=
            SearchM.wp_addGoals fun _ => mem_objectives_foldl_addGoal.2 (.inr hg)
          revert hc
          show wp ((Call.addGoals goals).make subject) _ _ _ → _
          unfold wp
          rcases ((Call.addGoals goals).make subject).run s with ⟨e | u, t⟩
          · exact False.elim
          · exact id
        · exact ih hgoals

/-- Whatever calls an archive goes through, in whatever scenes, each of its objectives is covered or uncovered
and listed once. No objective gets lost, and a covered goal stays covered until a reset. -/
theorem partition_of_leads (goals : List Goal) {before after : List Call}
    (ha : Leads subject (fun _ => True) (ofGoals goals) before a)
    (hb : Leads subject (fun _ => True) a after b) (size : Nat → Nat) :
    b.Partitioned ∧
    (∀ g, g ∈ a.objectives ↔ g ∈ goals ∨ ∃ gs, Call.addGoals gs ∈ before ∧ g ∈ gs) ∧
    a.objectives <+: b.objectives ∧
    (.reset ∉ after → a.coveredGoals ⊆ b.coveredGoals) ∧
    (b.snapshot size).covered = b.objectives.filter (· ∈ b.coveredGoals) ∧
    (b.snapshot size).uncovered = b.uncovered ∧
    ((b.snapshot size).covered ++ (b.snapshot size).uncovered).Perm b.objectives ∧
    (b.snapshot size).coverage =
      if b.objectives = [] then 1.0
      else Float.ofNat b.coveredGoals.length / Float.ofNat b.objectives.length := by
  have hpart : b.Partitioned := hb.partitioned (ha.partitioned (partitioned_ofGoals goals))
  refine ⟨hpart, fun g => ?_, hb.objectives_prefix, hb.coveredGoals_subset, Partitioned.snapshot_covered, rfl,
    hpart.snapshot_perm, ?_⟩
  · rw [ha.mem_objectives]
    show g ∈ Distinct.ofList goals ∨ _ ↔ _
    rw [Distinct.mem_ofList]
  · rw [hpart.snapshot_coverage, coverageRatio]
    simp only [List.length_eq_zero_iff]

/-- A subject that has no goals and makes nobody. -/
def nobody : Subject Statement Sample.World := Sample.Parts.subject { goals := #[] }

/-- A goal that is listed twice counts once. One that is not known does not count, but does so once it is
added. -/
theorem partition_of_leads_added : ∃ a b,
    Leads nobody (fun _ => True) (ofGoals [.atom 0, .atom 1, .atom 0])
      [.submit 0 (.atom 0), .submit 0 (.atom 2)] a ∧
    Leads nobody (fun _ => True) a [.addGoals [.atom 2], .submit 0 (.atom 2)] b ∧
    b.Partitioned ∧ a.coveredGoals ⊆ b.coveredGoals ∧ (b.snapshot fun _ => 0).covered = [.atom 0, .atom 2] ∧
    (b.snapshot fun _ => 0).coverage = Float.ofNat 2 / Float.ofNat 3 := by
  let s : Search Statement Sample.World :=
    { scene := ⟨#[], { generator := .scripted ⟨#[], #[], #[], 0, 0, 0⟩ }, #[]⟩
      archive := .ofGoals [.atom 0, .atom 1, .atom 0] }
  have ha := leads_makeAll nobody [.submit 0 (.atom 0), .submit 0 (.atom 2)] s
  have hb := leads_makeAll nobody [.addGoals [.atom 2], .submit 0 (.atom 2)]
    (Call.makeAll nobody [.submit 0 (.atom 0), .submit 0 (.atom 2)] s)
  obtain ⟨hpart, -, -, hkept, hcovered, -, -, hcoverage⟩ := partition_of_leads _ ha hb fun _ => 0
  exact ⟨_, _, ha, hb, hpart, hkept (by decide), hcovered.trans (by decide),
    hcoverage.trans (by decide +kernel)⟩

end Archive

end GoalSearch
