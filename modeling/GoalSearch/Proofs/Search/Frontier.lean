import GoalSearch.Proofs.Search.Active
import Mathlib.Data.Fintype.EquivFin

/-!
# The frontier of the dependencies

Of uncovered goals the dependencies tell those to be pursued whose parents are not uncovered, and all of them if there
are none. They miss the parent of a goal that they know only as a parent itself (`independent_eq_pursued`).

Among the goals that were gathered none is free only if each has its parent among them, and then their parents run in
a circle (`cyclic_of_closed`). Without circles some goal can be covered as long as any is uncovered, and whatever is
covered on the way, all goals are covered in the end, every one behind its parent (`exists_unfolds`,
`Unfolds.parentsFirst`).
-/

namespace GoalSearch.Dependencies

variable {parent : Goal → Option Goal} {goals uncovered order done rest : List Goal} {g p : Goal}

/-! ### The choice among the uncovered goals -/

/-- The free ones of the uncovered goals, in their order and without repeats. All of them are taken, which is flagged,
if none is free. -/
def pursued (isFree : Goal → Prop) [DecidablePred isFree] (uncovered : List Goal) : List Goal × Bool :=
  let free := (Distinct.ofList uncovered).filter (isFree ·)
  if free = [] ∧ uncovered ≠ [] then (Distinct.ofList uncovered, true) else (free, false)

section
variable {isFree isFree' : Goal → Prop} [DecidablePred isFree] [DecidablePred isFree']

theorem pursued_congr (h : ∀ g ∈ uncovered, isFree g ↔ isFree' g) :
    pursued isFree uncovered = pursued isFree' uncovered := by
  unfold pursued
  rw [List.filter_congr fun g hg => decide_eq_decide.2 (h g (Distinct.mem_ofList.1 hg))]

theorem filter_eq_nil_iff : (Distinct.ofList uncovered).filter (isFree ·) = [] ↔ ∀ g ∈ uncovered, ¬ isFree g := by
  simp [List.filter_eq_nil_iff]

theorem pursued_snd : (pursued isFree uncovered).2 = true ↔ uncovered ≠ [] ∧ ∀ g ∈ uncovered, ¬ isFree g := by
  rw [← filter_eq_nil_iff, and_comm]
  unfold pursued
  dsimp only
  split
  · exact ⟨fun _ => ‹_›, fun _ => rfl⟩
  · exact ⟨fun h => absurd h Bool.false_ne_true, fun h => absurd h ‹_›⟩

theorem pursued_of_snd (h : (pursued isFree uncovered).2 = true) :
    (pursued isFree uncovered).1 = Distinct.ofList uncovered := by
  obtain ⟨hne, hnone⟩ := pursued_snd.1 h
  rw [pursued, if_pos ⟨filter_eq_nil_iff.2 hnone, hne⟩]

theorem pursued_of_not_snd (h : (pursued isFree uncovered).2 = false) :
    (pursued isFree uncovered).1 = (Distinct.ofList uncovered).filter (isFree ·) := by
  rw [pursued, if_neg]
  exact fun hnone => Bool.eq_false_iff.1 h (pursued_snd.2 ⟨hnone.2, filter_eq_nil_iff.1 hnone.1⟩)

theorem pursued_ne_nil (hne : uncovered ≠ []) : (pursued isFree uncovered).1 ≠ [] := by
  intro hnil
  cases hflag : (pursued isFree uncovered).2 with
  | true =>
    obtain ⟨g, hg⟩ := List.exists_mem_of_ne_nil uncovered hne
    rw [pursued_of_snd hflag] at hnil
    exact List.not_mem_nil (hnil ▸ Distinct.mem_ofList.2 hg)
  | false =>
    rw [pursued_of_not_snd hflag, filter_eq_nil_iff] at hnil
    exact Bool.eq_false_iff.1 hflag (pursued_snd.2 ⟨hne, hnil⟩)

theorem pursued_sublist : (pursued isFree uncovered).1.Sublist (Distinct.ofList uncovered) := by
  unfold pursued
  dsimp only
  split
  · exact List.Sublist.refl _
  · exact List.filter_sublist

end

theorem independent_eq : (ofGoals parent goals).1.independent parent uncovered =
    pursued (fun g => IsFree parent uncovered g ∨ OnlyParent parent goals g) uncovered := by
  unfold independent pursued
  rw [free_ofGoals_eq]
  simp only [Bool.and_eq_true, List.isEmpty_iff, Bool.not_eq_true', List.isEmpty_eq_false_iff]

theorem independent_of_subset (hsub : uncovered ⊆ goals) : (ofGoals parent goals).1.independent parent uncovered =
    pursued (IsFree parent uncovered) uncovered :=
  independent_eq.trans (pursued_congr fun _ hg => or_iff_left fun h => h.1 (hsub hg))

/-- Whatever the goals and whatever is uncovered, the goals to pursue are those without an uncovered parent, but also
those known only as parents, whose own parents are not looked up. So unless one of these has an uncovered parent they
are the free ones. -/
theorem independent_eq_pursued (parent : Goal → Option Goal) (goals uncovered : List Goal) :
    let choice := (ofGoals parent goals).1.independent parent uncovered
    choice = pursued (fun g => IsFree parent uncovered g ∨ OnlyParent parent goals g) uncovered ∧
    choice.1.Nodup ∧ choice.1.Sublist uncovered ∧
    ((∀ g ∈ uncovered, OnlyParent parent goals g → IsFree parent uncovered g) →
      choice = pursued (IsFree parent uncovered) uncovered) := by
  rw [independent_eq]
  exact ⟨rfl, pursued_sublist.nodup Distinct.nodup_ofList, pursued_sublist.trans Distinct.ofList_sublist,
    fun h => pursued_congr fun g hg => or_iff_left_of_imp (h g hg)⟩

end Dependencies

namespace Sample

/-- Every goal but the first depends on the one before. -/
def chain : Goal → Option Goal
  | .atom (n + 1) => some (.atom n)
  | _ => none

/-- Every goal depends on the next, and the third on the first. -/
def ring : Goal → Option Goal
  | .atom n => some (.atom ((n + 1) % 3))
  | .overSuite _ _ => none

end Sample

namespace Dependencies

variable {parent : Goal → Option Goal} {goals uncovered order done rest : List Goal} {g : Goal}

/-- Gathered from the third goal alone, the dependencies take the second one for free although its parent is
uncovered. -/
theorem independent_ne_pursued_chain :
    (ofGoals Sample.chain [.atom 2]).1.independent Sample.chain [.atom 0, .atom 1] = ([.atom 0, .atom 1], false) ∧
    pursued (IsFree Sample.chain [.atom 0, .atom 1]) [.atom 0, .atom 1] = ([.atom 0], false) := by
  decide

/-! ### Circles among the parents -/

/-- Some goal of the list is its own ancestor, along parents in the list. -/
def Cyclic (parent : Goal → Option Goal) (goals : List Goal) : Prop :=
  ∃ g ∈ goals, Relation.TransGen (fun p g => parent g = some p ∧ p ∈ goals) g g

theorem Cyclic.mono (h : Cyclic parent uncovered) (hsub : uncovered ⊆ goals) : Cyclic parent goals := by
  obtain ⟨g, hg, hcircle⟩ := h
  exact ⟨g, hsub hg, hcircle.lift id fun _ _ h => ⟨h.1, hsub h.2⟩⟩

/-- Among finitely many goals that all have their parents among them, the way from parent to parent must return. -/
theorem cyclic_of_closed (hne : uncovered ≠ []) (h : ∀ g ∈ uncovered, ∃ p ∈ uncovered, parent g = some p) :
    Cyclic parent uncovered := by
  by_contra hacyclic
  let below (p g : { g // g ∈ uncovered }) : Prop :=
    Relation.TransGen (fun p g => parent g = some p ∧ p ∈ uncovered) p.1 g.1
  have : IsTrans _ below := ⟨fun _ _ _ => Relation.TransGen.trans⟩
  have : Std.Irrefl below := ⟨fun g hg => hacyclic ⟨g.1, g.2, hg⟩⟩
  have hwf : WellFounded below := Finite.wellFounded_of_trans_of_irrefl below
  obtain ⟨g, hg⟩ := List.exists_mem_of_ne_nil uncovered hne
  -- No goal can be the first one below all others: its parent is below it.
  induction (⟨g, hg⟩ : { g // g ∈ uncovered }) using hwf.induction with
  | h m ih =>
    obtain ⟨p, hp, hparent⟩ := h m.1 m.2
    exact ih ⟨p, hp⟩ (.single ⟨hparent, hp⟩)

theorem not_isFree : ¬ IsFree parent uncovered g ↔ ∃ p ∈ uncovered, parent g = some p := by
  simp only [IsFree, not_forall, not_not, exists_prop, and_comm]

theorem independent_snd_iff (hsub : uncovered ⊆ goals) (hne : uncovered ≠ []) :
    ((ofGoals parent goals).1.independent parent uncovered).2 = true ↔
      ∀ g ∈ uncovered, ∃ p ∈ uncovered, parent g = some p := by
  rw [independent_of_subset hsub, pursued_snd, and_iff_right hne]
  exact forall₂_congr fun _ _ => not_isFree

theorem independent_of_acyclic (hsub : uncovered ⊆ goals) (hacyclic : ¬ Cyclic parent goals) :
    (ofGoals parent goals).1.independent parent uncovered =
      ((Distinct.ofList uncovered).filter (IsFree parent uncovered ·), false) := by
  have hflag : ((ofGoals parent goals).1.independent parent uncovered).2 = false := by
    refine Bool.eq_false_iff.2 fun hflag => ?_
    have hne : uncovered ≠ [] := by
      rw [independent_of_subset hsub] at hflag
      exact (pursued_snd.1 hflag).1
    exact hacyclic ((cyclic_of_closed hne ((independent_snd_iff hsub hne).1 hflag)).mono hsub)
  rw [independent_of_subset hsub] at hflag ⊢
  exact Prod.ext (pursued_of_not_snd hflag) hflag

/-! ### Covering goal after goal -/

/-- The goals can be covered in this order, each of them when the dependencies tell to pursue it. -/
def Unfolds (parent : Goal → Option Goal) (d : Dependencies) : List Goal → List Goal → Prop
  | _, [] => True
  | uncovered, g :: order =>
    g ∈ (d.independent parent uncovered).1 ∧ Unfolds parent d (uncovered.filter (· ≠ g)) order

section
variable {d : Dependencies}

theorem unfolds_append : Unfolds parent d uncovered (done ++ rest) ↔
    Unfolds parent d uncovered done ∧ Unfolds parent d (uncovered.filter (· ∉ done)) rest := by
  induction done generalizing uncovered with
  | nil => simp [Unfolds]
  | cons g done ih =>
    rw [List.cons_append, Unfolds, Unfolds, ih, and_assoc, List.filter_filter]
    simp [Bool.and_comm]

theorem Unfolds.nodup_subset (h : Unfolds parent d uncovered order) : order.Nodup ∧ order ⊆ uncovered := by
  induction order generalizing uncovered with
  | nil => exact ⟨List.nodup_nil, List.nil_subset _⟩
  | cons g order ih =>
    obtain ⟨hnodup, hsub⟩ := ih h.2
    refine ⟨List.nodup_cons.2 ⟨fun hg => by simpa using hsub hg, hnodup⟩, ?_⟩
    refine List.cons_subset.2 ⟨independent_subset d parent uncovered h.1, ?_⟩
    exact List.Subset.trans hsub (List.filter_subset_self _)

/-- As long as goals are uncovered there is one to pursue, so all can be covered. -/
theorem exists_unfolds (hsome : ∀ left ⊆ uncovered, left ≠ [] → (d.independent parent left).1 ≠ []) :
    ∃ order, Unfolds parent d uncovered order ∧ uncovered ⊆ order := by
  induction hn : uncovered.length using Nat.strongRecOn generalizing uncovered with
  | ind n ih =>
    rcases uncovered.eq_nil_or_concat with rfl | hcons
    · exact ⟨[], trivial, List.nil_subset _⟩
    · have hne : uncovered ≠ [] := by rintro rfl; simp at hcons
      obtain ⟨g, hg⟩ := List.exists_mem_of_ne_nil _ (hsome uncovered (List.Subset.refl _) hne)
      have hleft : uncovered.filter (· ≠ g) ⊆ uncovered := List.filter_subset_self _
      have hless : (uncovered.filter (· ≠ g)).length < n :=
        hn ▸ List.length_filter_lt_length_iff_exists.2 ⟨g, independent_subset d parent uncovered hg, by simp⟩
      obtain ⟨order, horder, hall⟩ := ih _ hless (fun left h => hsome left (List.Subset.trans h hleft)) rfl
      refine ⟨g :: order, ⟨hg, horder⟩, fun k hk => ?_⟩
      by_cases hkg : k = g
      · exact hkg ▸ List.mem_cons_self
      · exact List.mem_cons_of_mem g (hall (List.mem_filter.2 ⟨hk, by simpa using hkg⟩))

end

/-- Without circles a goal is covered behind its parent. -/
theorem Unfolds.parentsFirst (hsub : uncovered ⊆ goals) (hacyclic : ¬ Cyclic parent goals)
    (h : Unfolds parent (ofGoals parent goals).1 uncovered order) :
    ParentsFirst (fun g => (parent g).filter (· ∈ uncovered)) order := by
  rintro done g rest rfl p hp
  obtain ⟨hparent, huncovered⟩ := Option.filter_eq_some_iff.1 hp
  have hleft : uncovered.filter (· ∉ done) ⊆ goals := List.Subset.trans (List.filter_subset_self _) hsub
  obtain ⟨hg, -⟩ := (unfolds_append.1 h).2
  rw [independent_of_acyclic hleft hacyclic] at hg
  have hfree : IsFree parent (uncovered.filter (· ∉ done)) g := of_decide_eq_true (List.mem_filter.1 hg).2
  by_contra hp
  exact hfree p hparent (List.mem_filter.2 ⟨of_decide_eq_true huncovered, by simpa using hp⟩)

/-- For some uncovered goals of those gathered: all of them are taken, with a warning, if and only if each has its
parent among them, and then they hold a circle of parents. Without circles that does not happen, and the free ones are
told, which are never none. Whichever of them is covered, again and again, all goals can be and in the end are covered,
and each behind its parent. -/
theorem independent_flagged_iff (hsub : uncovered ⊆ goals) (hne : uncovered ≠ []) :
    let d := (ofGoals parent goals).1
    let choice := d.independent parent uncovered
    (choice.2 = true ↔ ∀ g ∈ uncovered, ∃ p ∈ uncovered, parent g = some p) ∧
    (choice.2 = true → choice.1 = Distinct.ofList uncovered ∧ Cyclic parent uncovered) ∧
    (∀ {σ ω : Type} (setup : Setup σ ω) (s : Search σ ω), setup.strategy = .dynamic →
      setup.subject.parentOf = parent → s.dependencies = some d → s.archive.uncovered = uncovered →
      (SearchM.activeGoals setup).run s = (.ok choice.1, { s with scene := s.scene.chosen choice })) ∧
    (¬ Cyclic parent goals →
      choice = ((Distinct.ofList uncovered).filter (IsFree parent uncovered ·), false) ∧ choice.1 ≠ [] ∧
      ∀ order, Unfolds parent d uncovered order →
        ParentsFirst (fun g => (parent g).filter (· ∈ uncovered)) order ∧
        ∃ rest, Unfolds parent d uncovered (order ++ rest) ∧ (order ++ rest).Perm (Distinct.ofList uncovered)) := by
  have hsome : ∀ left ⊆ uncovered, left ≠ [] → ((ofGoals parent goals).1.independent parent left).1 ≠ [] :=
    fun left hleft hne => by
      rw [independent_of_subset (List.Subset.trans hleft hsub)]
      exact pursued_ne_nil hne
  refine ⟨independent_snd_iff hsub hne, fun hflag => ⟨?_, ?_⟩, ?_, fun hacyclic => ⟨?_, ?_, fun order horder => ⟨?_, ?_⟩⟩⟩
  · rw [independent_of_subset hsub] at hflag ⊢
    exact pursued_of_snd hflag
  · exact cyclic_of_closed hne ((independent_snd_iff hsub hne).1 hflag)
  · rintro σ ω setup s hdynamic rfl hd rfl
    exact SearchM.run_activeGoals hdynamic hd
  · exact independent_of_acyclic hsub hacyclic
  · exact hsome uncovered (List.Subset.refl _) hne
  · exact horder.parentsFirst hsub hacyclic
  · have hleft : uncovered.filter (· ∉ order) ⊆ uncovered := List.filter_subset_self _
    obtain ⟨rest, hrest, hall⟩ := exists_unfolds fun left h => hsome left (List.Subset.trans h hleft)
    have hwhole := unfolds_append.2 ⟨horder, hrest⟩
    obtain ⟨hnodup, hwithin⟩ := hwhole.nodup_subset
    refine ⟨rest, hwhole, (List.perm_ext_iff_of_nodup hnodup Distinct.nodup_ofList).2 fun g => ?_⟩
    rw [Distinct.mem_ofList]
    refine ⟨@hwithin g, fun hg => List.mem_append.2 ?_⟩
    by_cases hdone : g ∈ order
    · exact .inl hdone
    · exact .inr (hall (List.mem_filter.2 ⟨hg, by simpa using hdone⟩))

theorem not_cyclic_chain : ¬ Cyclic Sample.chain goals := by
  rintro ⟨g, -, hcircle⟩
  -- Ancestors in the chain have smaller numbers.
  have hless : ∀ p g, Relation.TransGen (fun p g => Sample.chain g = some p ∧ p ∈ goals) p g →
      ∃ m n, p = .atom m ∧ g = .atom n ∧ m < n := by
    have hlink : ∀ p g, Sample.chain g = some p → ∃ n, p = .atom n ∧ g = .atom (n + 1) := by
      intro p g h
      unfold Sample.chain at h
      split at h
      · exact ⟨_, (Option.some.inj h).symm, rfl⟩
      · cases h
    intro p g h
    induction h with
    | single h =>
      obtain ⟨n, rfl, rfl⟩ := hlink p _ h.1
      exact ⟨n, n + 1, rfl, rfl, n.lt_succ_self⟩
    | tail _ h ih =>
      obtain ⟨m, n, rfl, rfl, hmn⟩ := ih
      obtain ⟨k, hk, rfl⟩ := hlink _ _ h.1
      exact ⟨m, k + 1, rfl, rfl, Nat.lt_succ_of_lt (Goal.atom.inj hk ▸ hmn)⟩
  obtain ⟨m, n, rfl, heq, hmn⟩ := hless g g hcircle
  exact Nat.ne_of_lt hmn (Goal.atom.inj heq)

/-- Three goals in a ring are all taken. In a chain the first one comes first, and then the others can be covered. -/
theorem independent_flagged_iff_three :
    Cyclic Sample.ring [.atom 2, .atom 0, .atom 1] ∧
    ∃ rest, ([.atom 0] ++ rest).Perm [.atom 2, .atom 0, .atom 1] ∧
      Unfolds Sample.chain (ofGoals Sample.chain [.atom 0, .atom 1, .atom 2]).1 [.atom 2, .atom 0, .atom 1]
        ([.atom 0] ++ rest) := by
  have hring := @independent_flagged_iff Sample.ring [.atom 0, .atom 1, .atom 2] [.atom 2, .atom 0, .atom 1]
    (by decide) (by decide)
  have hchain := @independent_flagged_iff Sample.chain [.atom 0, .atom 1, .atom 2] [.atom 2, .atom 0, .atom 1]
    (by decide) (by decide)
  obtain ⟨-, rest, hunfolds, hperm⟩ := (hchain.2.2.2 not_cyclic_chain).2.2 [.atom 0] ⟨by decide, trivial⟩
  exact ⟨(hring.2.1 (by decide)).2, rest, hperm, hunfolds⟩

end Dependencies
end GoalSearch
