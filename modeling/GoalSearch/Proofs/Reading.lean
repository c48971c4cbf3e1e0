import GoalSearch.Crowding
import GoalSearch.Proofs.Postcondition
import GoalSearch.Proofs.Ranking
import GoalSearch.Proofs.Survival

/-!
# Algorithms on readings

Ranking, crowding and survivor selection read fitness values and distances through a monad. Where every reading
yields a fixed value and keeps an invariant, the algorithm yields what it gives on the fixed values, and keeps the
invariant too.
-/

namespace GoalSearch

variable {S ι α : Type} {I : S → Prop} {goals : List Goal}

section Values
variable [LT α] [DecidableLT α] {fitness : Goal → ι → ExceptT Fault (StateM S) α} {value : Goal → ι → α}

/-! ### Dominance -/

theorem Dominance.yields_compare {a b : ι} (ha : ∀ g ∈ goals, Yields I (fitness g a) (value g a))
    (hb : ∀ g ∈ goals, Yields I (fitness g b) (value g b)) :
    Yields I (compare fitness goals a b) (Id.run (compare value goals a b)) := by
  suffices h : ∀ x y,
      Yields I (compareFrom fitness a b x y goals) (Id.run (compareFrom value a b x y goals)) from
    h false false
  induction goals with
  | nil => exact fun x y => Yields.pure _
  | cons g goals ih =>
    intro x y
    refine (ha g (by simp)).bind ((hb g (by simp)).bind ?_)
    show Yields I _ (if _ then _ else _)
    exact .ite (fun _ => .pure _) fun _ =>
      ih (fun h hh => ha h (by simp [hh])) (fun h hh => hb h (by simp [hh])) _ _

/-! ### Ranking -/

namespace Ranking
variable [DecidableEq ι] {front members : List ι} {x : ι}

omit [DecidableEq ι] in
theorem yields_challenge (h : ∀ g ∈ goals, ∀ y ∈ x :: front, Yields I (fitness g y) (value g y)) :
    Yields I (challenge fitness goals x front) (Id.run (challenge value goals x front)) := by
  induction front with
  | nil => exact .pure _
  | cons y front ih =>
    have ih := ih fun g hg z hz => h g hg z (others_subset hz)
    unfold challenge
    refine (Dominance.yields_compare (fun g hg => h g hg x (by simp)) fun g hg => h g hg y (by simp)).bind ?_
    rw [Id.run_bind]
    cases Id.run (Dominance.compare value goals x y) with
    | gt => exact .pure _
    | lt => exact ih.bind (.pure _)
    | eq => exact ih

omit [DecidableEq ι] in
theorem yields_standing (h : ∀ g ∈ goals, ∀ y ∈ x :: front, Yields I (fitness g y) (value g y)) :
    Yields I (standing fitness goals x front) (Id.run (standing value goals x front)) := by
  induction front with
  | nil => exact .pure _
  | cons y front ih =>
    refine (Dominance.yields_compare (fun g hg => h g hg x (by simp)) fun g hg => h g hg y (by simp)).bind ?_
    exact (ih fun g hg z hz => h g hg z (others_subset hz)).bind (.pure _)

theorem yields_nonDominated (h : ∀ g ∈ goals, ∀ y ∈ front ++ members, Yields I (fitness g y) (value g y)) :
    Yields I (nonDominated fitness goals front members) (Id.run (nonDominated value goals front members)) := by
  induction members generalizing front with
  | nil => exact .pure _
  | cons x rest ih =>
    refine (yields_standing fun g hg y hy => h g hg y (challenger_subset hy)).bind ?_
    show Yields I (if _ then _ else _) (if _ then _ else _)
    refine .ite (fun _ => ih fun g hg y hy => h g hg y (passed_subset hy)) fun _ => ih fun g hg y hy => ?_
    exact h g hg y (joined_subset foldl_erase_subset hy)

end Ranking

/-! ### Survivor selection -/

namespace Survival
variable [DecidableEq ι] {union reserved members : List ι} {distance : ι → ExceptT Fault (StateM S) α}
  {dist : ι → α}

omit [DecidableEq ι] in
theorem yields_byDistance (h : ∀ y ∈ members, Yields I (distance y) (dist y)) :
    Yields I (byDistance distance members) (Id.run (byDistance dist members)) := by
  rw [byDistance_eq]
  exact Yields.bind (a := members.map fun x => (x, dist x))
    (.mapM fun y hy => (h y hy).bind (.pure _)) (.pure _)

theorem yields_best {read : ι → ExceptT Fault (StateM S) α} {v : ι → α} {found : Option (ι × α)}
    (h : ∀ y ∈ members, Yields I (read y) (v y)) :
    Yields I (best read reserved found members) (Id.run (best v reserved found members)) := by
  induction members generalizing found with
  | nil => exact .pure _
  | cons y rest ih =>
    have ih : ∀ found, Yields I (best read reserved found rest) (Id.run (best v reserved found rest)) :=
      fun _ => ih fun z hz => h z (by simp [hz])
    unfold best
    split
    · exact ih _
    · refine (h y (by simp)).bind ?_
      rw [Id.run_bind]
      cases found with
      | none => exact ih _
      | some p => exact ih _

theorem yields_bestPerGoal (h : ∀ g ∈ goals, ∀ y ∈ union, Yields I (fitness g y) (value g y)) :
    Yields I (bestPerGoal fitness union reserved goals) (Id.run (bestPerGoal value union reserved goals)) := by
  induction goals generalizing reserved with
  | nil => exact .pure _
  | cons g goals ih =>
    unfold bestPerGoal
    refine (yields_best (h g (by simp))).bind ?_
    rw [Id.run_bind]
    cases Id.run (best (value g) reserved none union) with
    | none => exact .pure _
    | some p => exact ih fun k hk => h k (by simp [hk])

theorem yields_reserve {capacity : Int} (h : ∀ g ∈ goals, ∀ y ∈ union, Yields I (fitness g y) (value g y))
    (hd : ∀ y ∈ union, Yields I (distance y) (dist y)) :
    Yields I (reserve fitness distance union goals capacity)
      (Id.run (reserve value dist union goals capacity)) := by
  refine (yields_bestPerGoal h).bind ?_
  show Yields I (if _ then _ else _) (if _ then _ else _)
  refine .ite (fun _ => ?_) fun _ => .pure _
  exact (yields_byDistance fun y hy => hd y (by simpa using bestPerGoal_subset hy)).bind (.pure _)

theorem yields_fill {places : Nat} {fronts : List (List ι)}
    (hd : ∀ y ∈ fronts.flatten, Yields I (distance y) (dist y)) :
    Yields I (fill distance reserved places fronts) (Id.run (fill dist reserved places fronts)) := by
  induction fronts generalizing places with
  | nil => cases places <;> exact .pure _
  | cons front fronts ih =>
    cases places with
    | zero => exact .pure _
    | succ places =>
      unfold fill
      dsimp only
      split
      · exact (ih fun y hy => hd y (List.mem_append_right _ hy)).bind (.pure _)
      · refine (yields_byDistance fun y hy => hd y ?_).bind (.pure _)
        exact List.mem_flatten.2 ⟨front, by simp, (List.mem_filter.1 hy).1⟩

theorem yields_survivors {reserving : Bool} {capacity : Int} {fronts : List (List ι)}
    (h : ∀ g ∈ goals, ∀ y ∈ union, Yields I (fitness g y) (value g y))
    (hd : ∀ y ∈ union ++ fronts.flatten, Yields I (distance y) (dist y)) :
    Yields I (survivors fitness distance reserving capacity union fronts goals)
      (Id.run (survivors value dist reserving capacity union fronts goals)) := by
  have hfill : ∀ reserved : List ι, Yields I (fill distance reserved (capacity - reserved.length).toNat fronts)
      (Id.run (fill dist reserved (capacity - reserved.length).toNat fronts)) :=
    fun reserved => yields_fill fun y hy => hd y (List.mem_append_right _ hy)
  unfold survivors
  cases reserving with
  | true => exact (yields_reserve h fun y hy => hd y (by simp [hy])).bind ((hfill _).bind (.pure _))
  | false => exact (hfill []).bind (.pure _)

end Survival

end Values

/-! ### Crowding -/

namespace Crowding
variable [Scalar α] {distance : ι → ExceptT Fault (StateM S) α}
  {setDistance : ι → α → ExceptT Fault (StateM S) Unit}
  {front : List ι} {fitness : Goal → ι → ExceptT Fault (StateM S) α} {value : Goal → ι → α}

theorem sublist_of_mem_triples {β : Type} {l : List β} {a b c : β} (h : (a, b, c) ∈ triples l) :
    [a, b, c].Sublist l := by
  induction l with
  | nil => cases h
  | cons x l ih =>
    rcases l with _ | ⟨y, _ | ⟨z, l⟩⟩
    · cases h
    · cases h
    · rcases List.mem_cons.1 h with h | h
      · cases h
        exact List.sublist_append_left [a, b, c] l
      · exact (ih h).cons x

theorem yields_sorted {g : Goal} (h : ∀ y ∈ front, Yields I (fitness g y) (value g y)) :
    Yields I (sorted fitness g front)
      (Sorting.sort (fun a b => decide (a.2 < b.2)) (front.map fun y => (y, value g y))) :=
  Yields.bind (a := front.map fun y => (y, value g y)) (.mapM fun y hy => (h y hy).bind (.pure _)) (.pure _)

/-- Adding a gap between neighbours, as a share of the span, to an `ok` number gives one again. -/
def GapsKeep (ok : α → Prop) (ordered : List (ι × α)) : Prop :=
  ∀ first ∈ ordered.head?, ∀ last ∈ ordered.getLast?, ¬ (last.2 == first.2) = true →
    ∀ before x behind, (before, x, behind) ∈ triples ordered →
      ∀ d, ok d → ok (d + (behind.2 - before.2) / (last.2 - first.2))

/-- Adding the gaps sets `ok` distances only. -/
theorem yields_addGaps {ok : α → Prop} {ordered : List (ι × α)}
    (hset : ∀ p ∈ ordered, ∀ v, ok v → Yields I (setDistance p.1 v) ())
    (hd : ∀ p ∈ ordered, ∀ s, I s → wp (distance p.1) (fun d t => ok d ∧ I t) (fun _ _ => False) s)
    (hinfinity : ok Scalar.infinity) (hgaps : GapsKeep ok ordered) :
    Yields I (addGaps distance setDistance ordered) () := by
  unfold addGaps
  split
  · rename_i first last hfirst hlast
    have hends : Yields I (setDistance first.1 Scalar.infinity) () ∧ Yields I (setDistance last.1 Scalar.infinity) () :=
      ⟨hset first (List.mem_of_head? hfirst) _ hinfinity, hset last (List.mem_of_getLast? hlast) _ hinfinity⟩
    refine hends.1.bind (hends.2.bind ?_)
    split
    · exact .pure _
    · rename_i hne
      refine .forM fun p hp s hs => ?_
      obtain ⟨before, x, behind⟩ := p
      have hx : x ∈ ordered := (sublist_of_mem_triples hp).subset (by simp)
      refine wp_seq (hd x hx s hs) fun d t hpost => ?_
      exact hset x hx _ (hgaps first hfirst last hlast hne _ _ _ hp d hpost.1) t hpost.2
  · exact .pure _

/-- Assigning distances does nothing else than setting distances of members of the front, all of them to zero first. -/
theorem wp_assign (ok : α → Prop) {s : S}
    (hzero : wp (front.forM (setDistance · Scalar.zero)) (fun _ t => I t) (fun _ _ => False) s)
    (hset : ∀ y ∈ front, ∀ v, ok v → Yields I (setDistance y v) ())
    (hd : ∀ y ∈ front, ∀ s, I s → wp (distance y) (fun d t => ok d ∧ I t) (fun _ _ => False) s)
    (h : ∀ g ∈ goals, ∀ y ∈ front, Yields I (fitness g y) (value g y)) (hinfinity : ok Scalar.infinity)
    (hgaps : ∀ g ∈ goals, GapsKeep ok
      (Sorting.sort (fun a b => decide (a.2 < b.2)) (front.map fun y => (y, value g y)))) :
    wp (assign fitness distance setDistance front goals) (fun _ t => I t) (fun _ _ => False) s := by
  unfold assign
  refine wp_seq hzero fun _ t ht => ?_
  split
  · exact ht
  · refine wp_imp (Yields.forM (I := I) (fun g hg => (yields_sorted (h g hg)).bind ?_) t ht) fun _ _ hpost => hpost.2
    have hmem : ∀ p ∈ Sorting.sort (fun a b => decide (a.2 < b.2)) (front.map fun y => (y, value g y)),
        p.1 ∈ front := by
      intro p hp
      obtain ⟨y, hy, rfl⟩ := List.mem_map.1 ((Sorting.sort_perm _ _).mem_iff.1 hp)
      exact hy
    exact yields_addGaps (fun p hp => hset _ (hmem p hp)) (fun p hp => hd _ (hmem p hp)) hinfinity (hgaps g hg)

end Crowding

end GoalSearch
