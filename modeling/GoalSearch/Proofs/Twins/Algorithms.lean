import GoalSearch.Crowding
import GoalSearch.Proofs.Mirror
import GoalSearch.Proofs.Ranking
import GoalSearch.Survival

/-!
# Algorithms side by side

Ranking, crowding and survivor selection learn about individuals only what they read of them: fitness values of the
members that they are given, for the goals that they are given, and distances. Where two runs read the same, they do the
same.
-/

namespace GoalSearch

variable {S T ι α : Type} {R : S → T → Prop} {goals : List Goal}
  {fitness : Goal → ι → ExceptT Fault (StateM S) α} {fitness' : Goal → ι → ExceptT Fault (StateM T) α}
  {distance : ι → ExceptT Fault (StateM S) α} {distance' : ι → ExceptT Fault (StateM T) α}

section Order
variable [LT α] [DecidableLT α]

/-! ### Dominance -/

theorem Dominance.mirrors_compareFrom {a b : ι}
    (h : ∀ g ∈ goals, ∀ x ∈ [a, b], Mirrors R Eq (fitness g x) (fitness' g x)) (better worse : Bool) :
    Mirrors R Eq (compareFrom fitness a b better worse goals) (compareFrom fitness' a b better worse goals) := by
  induction goals generalizing better worse with
  | nil => exact .pure rfl
  | cons g goals ih =>
    refine (h g (by simp) a (by simp)).seq fun x => (h g (by simp) b (by simp)).seq fun y => ?_
    exact .ite Iff.rfl (.pure rfl) (ih (fun k hk => h k (by simp [hk])) _ _)

/-! ### Ranking -/

namespace Ranking
variable {x y : ι} {front members : List ι}

theorem pair_subset : [x, y] ⊆ x :: y :: front :=
  List.cons_subset_cons _ (List.cons_subset_cons _ (List.nil_subset _))

theorem mirrors_challenge (h : ∀ g ∈ goals, ∀ y ∈ x :: front, Mirrors R Eq (fitness g y) (fitness' g y)) :
    Mirrors R Eq (challenge fitness goals x front) (challenge fitness' goals x front) := by
  induction front with
  | nil => exact .pure rfl
  | cons y front ih =>
    have ih := ih fun g hg z hz => h g hg z (others_subset hz)
    refine (Dominance.mirrors_compareFrom (fun g hg z hz => h g hg z (pair_subset hz)) false false).seq fun order => ?_
    cases order with
    | gt => exact .pure rfl
    | lt => exact ih.seq fun _ => .pure rfl
    | eq => exact ih

theorem mirrors_standing (h : ∀ g ∈ goals, ∀ y ∈ x :: front, Mirrors R Eq (fitness g y) (fitness' g y)) :
    Mirrors R Eq (standing fitness goals x front) (standing fitness' goals x front) := by
  induction front with
  | nil => exact .pure rfl
  | cons y front ih =>
    have ih := ih fun g hg z hz => h g hg z (others_subset hz)
    refine (Dominance.mirrors_compareFrom (fun g hg z hz => h g hg z (pair_subset hz)) false false).seq fun order => ?_
    exact ih.seq fun _ => .pure rfl

variable [DecidableEq ι]

theorem mirrors_nonDominated (h : ∀ g ∈ goals, ∀ y ∈ front ++ members, Mirrors R Eq (fitness g y) (fitness' g y)) :
    Mirrors R Eq (nonDominated fitness goals front members) (nonDominated fitness' goals front members) := by
  induction members generalizing front with
  | nil => exact .pure rfl
  | cons x rest ih =>
    refine (mirrors_standing fun g hg y hy => h g hg y (challenger_subset hy)).seq fun found => ?_
    refine .ite Iff.rfl (ih fun g hg y hy => h g hg y (passed_subset hy)) (ih fun g hg y hy => h g hg y ?_)
    exact joined_subset foldl_erase_subset hy

variable {join : ι → ExceptT Fault (StateM S) Unit} {join' : ι → ExceptT Fault (StateM T) Unit}
  {setRank : ι → Nat → ExceptT Fault (StateM S) Unit} {setRank' : ι → Nat → ExceptT Fault (StateM T) Unit}

theorem mirrors_nonDominatedFrom
    (h : ∀ g ∈ goals, ∀ y ∈ front ++ members, Mirrors R Eq (fitness g y) (fitness' g y))
    (hjoin : ∀ x, Mirrors R Eq (join x) (join' x)) :
    Mirrors R Eq (nonDominatedFrom fitness goals join front members)
      (nonDominatedFrom fitness' goals join' front members) := by
  induction members generalizing front with
  | nil => exact .pure rfl
  | cons x rest ih =>
    refine (mirrors_challenge fun g hg y hy => h g hg y (challenger_subset hy)).seq fun beaten => ?_
    cases beaten with
    | none => exact ih fun g hg y hy => h g hg y (passed_subset hy)
    | some beaten =>
      refine (hjoin x).seq fun _ => ih fun g hg y hy => h g hg y ?_
      exact joined_subset filter_joined_subset hy

theorem mirrors_fronts (h : ∀ g ∈ goals, ∀ y ∈ members, Mirrors R Eq (fitness g y) (fitness' g y))
    (hrank : ∀ x r, Mirrors R Eq (setRank x r) (setRank' x r)) (fuel r : Nat) :
    Mirrors R Eq (fronts fitness goals setRank fuel r members) (fronts fitness' goals setRank' fuel r members) := by
  induction fuel generalizing r members with
  | zero => exact .pure rfl
  | succ fuel ih =>
    refine .ite Iff.rfl (.pure rfl) ?_
    have hfrom : ∀ g ∈ goals, ∀ y ∈ [] ++ members, Mirrors R Eq (fitness g y) (fitness' g y) := h
    refine (mirrors_nonDominatedFrom hfrom fun x => hrank x r).seq fun front => ?_
    exact (ih (fun g hg y hy => h g hg y (List.mem_filter.1 hy).1) _).seq fun _ => .pure rfl

end Ranking

/-! ### Survivor selection -/

namespace Survival
variable {members union : List ι}

theorem mirrors_byDistance (hd : ∀ x, Mirrors R Eq (distance x) (distance' x)) (members : List ι) :
    Mirrors R Eq (byDistance distance members) (byDistance distance' members) :=
  (Mirrors.mapM_eq fun x _ => (hd x).seq fun _ => .pure rfl).seq fun _ => .pure rfl

variable [DecidableEq ι]

theorem mirrors_best {value : ι → ExceptT Fault (StateM S) α} {value' : ι → ExceptT Fault (StateM T) α}
    (h : ∀ x ∈ members, Mirrors R Eq (value x) (value' x)) (taken : List ι) (found : Option (ι × α)) :
    Mirrors R Eq (best value taken found members) (best value' taken found members) := by
  induction members generalizing found with
  | nil => exact .pure rfl
  | cons x rest ih =>
    have ih := ih fun y hy => h y (by simp [hy])
    refine .ite Iff.rfl (ih found) ((h x (by simp)).seq fun v => ?_)
    cases found with
    | none => exact ih _
    | some p => exact ih _

theorem mirrors_bestPerGoal (h : ∀ g ∈ goals, ∀ x ∈ union, Mirrors R Eq (fitness g x) (fitness' g x))
    (reserved : List ι) :
    Mirrors R Eq (bestPerGoal fitness union reserved goals) (bestPerGoal fitness' union reserved goals) := by
  induction goals generalizing reserved with
  | nil => exact .pure rfl
  | cons g goals ih =>
    refine (mirrors_best (h g (by simp)) reserved none).seq fun found => ?_
    cases found with
    | none => exact .pure rfl
    | some p => exact ih (fun k hk => h k (by simp [hk])) _

theorem mirrors_reserve (h : ∀ g ∈ goals, ∀ x ∈ union, Mirrors R Eq (fitness g x) (fitness' g x))
    (hd : ∀ x, Mirrors R Eq (distance x) (distance' x)) (capacity : Int) :
    Mirrors R Eq (reserve fitness distance union goals capacity)
      (reserve fitness' distance' union goals capacity) := by
  refine (mirrors_bestPerGoal h []).seq fun reserved => ?_
  exact .ite Iff.rfl ((mirrors_byDistance hd reserved).seq fun _ => .pure rfl) (.pure rfl)

theorem mirrors_fill (hd : ∀ x, Mirrors R Eq (distance x) (distance' x)) (reserved : List ι) (places : Nat)
    (fronts : List (List ι)) :
    Mirrors R Eq (fill distance reserved places fronts) (fill distance' reserved places fronts) := by
  induction fronts generalizing places with
  | nil => cases places <;> exact .pure rfl
  | cons front fronts ih =>
    cases places with
    | zero => exact .pure rfl
    | succ places =>
      refine .ite Iff.rfl ((ih _).seq fun _ => .pure rfl) ?_
      exact (mirrors_byDistance hd _).seq fun _ => .pure rfl

theorem mirrors_survivors (h : ∀ g ∈ goals, ∀ x ∈ union, Mirrors R Eq (fitness g x) (fitness' g x))
    (hd : ∀ x, Mirrors R Eq (distance x) (distance' x)) (reserving : Bool) (capacity : Int)
    (fronts : List (List ι)) :
    Mirrors R Eq (survivors fitness distance reserving capacity union fronts goals)
      (survivors fitness' distance' reserving capacity union fronts goals) := by
  have hfill : ∀ reserved : List ι, Mirrors R Eq
      (do return reserved ++ (← fill distance reserved (capacity - reserved.length).toNat fronts))
      (do return reserved ++ (← fill distance' reserved (capacity - reserved.length).toNat fronts)) :=
    fun reserved => (mirrors_fill hd reserved _ fronts).seq fun _ => .pure rfl
  unfold survivors
  cases reserving with
  | true => exact (mirrors_reserve h hd capacity).seq hfill
  | false => exact hfill []

end Survival

end Order

/-! ### Crowding -/

namespace Crowding
variable [Scalar α] {setDistance : ι → α → ExceptT Fault (StateM S) Unit}
  {setDistance' : ι → α → ExceptT Fault (StateM T) Unit}

theorem mirrors_addGaps (hd : ∀ x, Mirrors R Eq (distance x) (distance' x))
    (hset : ∀ x d, Mirrors R Eq (setDistance x d) (setDistance' x d)) (ordered : List (ι × α)) :
    Mirrors R Eq (addGaps distance setDistance ordered) (addGaps distance' setDistance' ordered) := by
  unfold addGaps
  split
  · refine (hset _ _).seq fun _ => (hset _ _).seq fun _ => .ite Iff.rfl (.pure rfl) ?_
    exact .forM fun _ _ => (hd _).seq fun _ => hset _ _
  · exact .pure rfl

theorem mirrors_assign {front : List ι}
    (h : ∀ g ∈ goals, ∀ x ∈ front, Mirrors R Eq (fitness g x) (fitness' g x))
    (hd : ∀ x, Mirrors R Eq (distance x) (distance' x))
    (hset : ∀ x d, Mirrors R Eq (setDistance x d) (setDistance' x d)) :
    Mirrors R Eq (assign fitness distance setDistance front goals)
      (assign fitness' distance' setDistance' front goals) := by
  refine (Mirrors.forM fun x _ => hset x _).seq fun _ => .ite Iff.rfl (.pure rfl) (.forM fun g hg => ?_)
  have hsorted : Mirrors R Eq (sorted fitness g front) (sorted fitness' g front) :=
    (Mirrors.mapM_eq fun x hx => (h g hg x hx).seq fun _ => .pure rfl).seq fun _ => .pure rfl
  exact hsorted.seq fun ordered => mirrors_addGaps hd hset ordered

end Crowding

end GoalSearch
