import Mathlib.Data.List.Chain
import Mathlib.Data.List.Perm.Basic
import Mathlib.Data.Set.Finite.List
import Mathlib.Order.Bounds.Basic

/-!
# Peeling a strict order

The members of a list that no member dominates are its first front; without them, the rest has a front of its
own, and so on until nobody is left (`Peels`). Over a strict order the fronts partition the members
(`Peels.flatten_perm`, `Peels.disjoint`), each front but the first is dominated by the one before it
(`Peels.exists_dominating`), and `k` is the length of the longest chain of members, each dominating the next, that
leads to a member of front `k` (`Peels.isGreatest`). So the fronts have the same members in whatever order the
members are peeled (`Peels.mem_iff_of_perm`).
-/

namespace GoalSearch.Peeling

variable {ι : Type} {dom : ι → ι → Prop} {members : List ι} {x y : ι}

/-- The relation is a strict order on the members. -/
structure Strict (dom : ι → ι → Prop) (members : List ι) : Prop where
  irrefl : ∀ x ∈ members, ¬ dom x x
  trans : ∀ x ∈ members, ∀ y ∈ members, ∀ z ∈ members, dom x y → dom y z → dom x z

namespace Strict

theorem mono (h : Strict dom members) {members' : List ι} (hsub : members' ⊆ members) :
    Strict dom members' where
  irrefl x hx := h.irrefl x (hsub hx)
  trans x hx y hy z hz := h.trans x (hsub hx) y (hsub hy) z (hsub hz)

theorem wellFounded (h : Strict dom members) :
    WellFounded fun x y : { x // x ∈ members } => dom x y := by
  have : Finite { x // x ∈ members } := (List.finite_toSet members).to_subtype
  have : IsTrans { x // x ∈ members } fun x y => dom x y :=
    ⟨fun x y z => h.trans x x.2 y y.2 z z.2⟩
  have : Std.Irrefl fun x y : { x // x ∈ members } => dom x y := ⟨fun x => h.irrefl x x.2⟩
  exact Finite.wellFounded_of_trans_of_irrefl _

end Strict

/-- How many members may dominate each other in a row up to the last, which dominates `x`. -/
def chainLengths (dom : ι → ι → Prop) (members : List ι) (x : ι) : Set Nat :=
  { n | ∃ chain ⊆ members, chain.length = n ∧ (chain ++ [x]).IsChain dom }

variable [DecidableRel dom]

/-- The members that no member dominates. -/
def undominated (dom : ι → ι → Prop) [DecidableRel dom] (members : List ι) : List ι :=
  members.filter fun x => ∀ y ∈ members, ¬ dom y x

theorem mem_undominated : x ∈ undominated dom members ↔ x ∈ members ∧ ∀ y ∈ members, ¬ dom y x := by
  simp [undominated]

/-- Who is dominated is dominated by someone who is not. -/
theorem Strict.exists_undominated (h : Strict dom members) (hx : x ∈ members) (hy : y ∈ members)
    (hyx : dom y x) : ∃ z ∈ undominated dom members, dom z x := by
  obtain ⟨y', rfl⟩ : ∃ y' : { x // x ∈ members }, y'.1 = y := ⟨⟨y, hy⟩, rfl⟩
  induction y' using h.wellFounded.induction with
  | _ y ih =>
    by_cases hmax : ∀ z ∈ members, ¬ dom z y
    · exact ⟨y, mem_undominated.2 ⟨hy, hmax⟩, hyx⟩
    · push Not at hmax
      obtain ⟨z, hz, hzy⟩ := hmax
      exact ih ⟨z, hz⟩ hzy hz (h.trans z hz y hy x hx hzy hyx)

theorem Strict.undominated_ne_nil (h : Strict dom members) (hne : members ≠ []) :
    undominated dom members ≠ [] := by
  obtain ⟨x, hx⟩ := List.exists_mem_of_ne_nil members hne
  by_cases hmax : ∀ y ∈ members, ¬ dom y x
  · exact List.ne_nil_of_mem (mem_undominated.2 ⟨hx, hmax⟩)
  · push Not at hmax
    obtain ⟨y, hy, hyx⟩ := hmax
    obtain ⟨z, hz, -⟩ := h.exists_undominated hx hy hyx
    exact List.ne_nil_of_mem hz

/-- One more member either is dominated, or joins and drives out those it dominates. -/
theorem Strict.undominated_concat (h : Strict dom (members ++ [x])) :
    undominated dom (members ++ [x]) =
      if ∃ y ∈ undominated dom members, dom y x then undominated dom members
      else (undominated dom members).filter (¬ dom x ·) ++ [x] := by
  have hx : x ∈ members ++ [x] := by simp
  have hmem : ∀ y ∈ members, y ∈ members ++ [x] := fun y hy => by simp [hy]
  have hall : ∀ z, (∀ y ∈ members ++ [x], ¬ dom y z) ↔ (∀ y ∈ members, ¬ dom y z) ∧ ¬ dom x z := by
    simp only [List.forall_mem_append, List.forall_mem_singleton, implies_true]
  have hsplit : undominated dom (members ++ [x]) =
      (undominated dom members).filter (¬ dom x ·) ++ if ∀ y ∈ members, ¬ dom y x then [x] else [] := by
    simp only [undominated, hall, List.filter_append, List.filter_filter, List.filter_singleton,
      h.irrefl x hx, not_false_eq_true, Bool.decide_and, Bool.and_comm, decide_true, Bool.true_and,
      Bool.cond_decide]
  rw [hsplit]
  by_cases hdom : ∃ y ∈ undominated dom members, dom y x
  · -- whom the dominated one dominates, its dominator dominates
    rw [if_pos hdom]
    obtain ⟨y, hy, hyx⟩ := hdom
    obtain ⟨hy, -⟩ := mem_undominated.1 hy
    rw [if_neg fun hmax => hmax y hy hyx, List.append_nil, List.filter_eq_self]
    intro z hz
    obtain ⟨hz, hmax⟩ := mem_undominated.1 hz
    exact decide_eq_true fun hxz => hmax y hy (h.trans y (hmem y hy) x hx z (hmem z hz) hyx hxz)
  · have hmax : ∀ y ∈ members, ¬ dom y x := by
      intro y hy hyx
      obtain ⟨z, hz, hzx⟩ := h.exists_undominated hx (hmem y hy) hyx
      obtain ⟨hz, hmax⟩ := mem_undominated.1 hz
      rcases List.mem_append.1 hz with hz | hz
      · exact hdom ⟨z, mem_undominated.2 ⟨hz, fun w hw => hmax w (hmem w hw)⟩, hzx⟩
      · rw [List.mem_singleton.1 hz] at hzx
        exact h.irrefl x hx hzx
    rw [if_neg hdom, if_pos hmax]

variable [DecidableEq ι]

/-- The members that are in none of the fronts. -/
def left (fronts : List (List ι)) (members : List ι) : List ι :=
  members.filter fun x => ∀ front ∈ fronts, x ∉ front

theorem left_nil : left [] members = members := by simp [left]

theorem left_cons {front : List ι} {fronts : List (List ι)} :
    left (front :: fronts) members = left fronts (members.filter (· ∉ front)) := by
  simp only [left, List.filter_filter, List.mem_cons, forall_eq_or_imp, Bool.decide_and, decide_not]
  exact List.filter_congr fun x _ => Bool.and_comm _ _

/-- The fronts that come off a list of members one after the other, until nobody is left. -/
inductive Peels (dom : ι → ι → Prop) [DecidableRel dom] : List (List ι) → List ι → Prop
  | nil : Peels dom [] []
  | cons {members : List ι} {fronts : List (List ι)} (hne : members ≠ [])
      (h : Peels dom fronts (members.filter (· ∉ undominated dom members))) :
      Peels dom (undominated dom members :: fronts) members

namespace Peels
variable {fronts : List (List ι)} {front : List ι} {k : Nat}

/-- A front is made of those that none of those left dominates. -/
theorem front_eq (h : Peels dom fronts members) (hk : fronts[k]? = some front) :
    front = undominated dom (left (fronts.take k) members) := by
  induction h generalizing k with
  | nil => cases hk
  | cons hne h ih =>
    cases k with
    | zero =>
      rw [List.take_zero, left_nil]
      exact (Option.some.inj hk).symm
    | succ k =>
      rw [List.take_succ_cons, left_cons]
      exact ih hk

theorem mem_front (h : Peels dom fronts members) (hk : fronts[k]? = some front) :
    x ∈ front ↔ x ∈ left (fronts.take k) members ∧ ∀ y ∈ left (fronts.take k) members, ¬ dom y x := by
  rw [h.front_eq hk, mem_undominated]

theorem front_subset (h : Peels dom fronts members) (hk : fronts[k]? = some front) : front ⊆ members :=
  fun _ hx => (List.mem_filter.1 ((h.mem_front hk).1 hx).1).1

theorem ne_nil (h : Peels dom fronts members) (hdom : Strict dom members) : ∀ front ∈ fronts, front ≠ [] := by
  induction h with
  | nil => simp
  | cons hne h ih =>
    rintro front (_ | ⟨_, hfront⟩)
    · exact hdom.undominated_ne_nil hne
    · exact ih (hdom.mono (List.filter_subset_self _)) front hfront

theorem flatten_perm (h : Peels dom fronts members) : fronts.flatten.Perm members := by
  induction h with
  | nil => exact .nil
  | @cons members fronts hne h ih =>
    have hfilter : (members.filter (· ∉ undominated dom members)) =
        members.filter fun x => !decide (∀ y ∈ members, ¬ dom y x) :=
      List.filter_congr fun x hx => by simp only [decide_not, mem_undominated, hx, true_and]
    rw [List.flatten_cons]
    exact (ih.append_left _).trans (hfilter ▸ List.filter_append_perm _ members)

theorem exists_front (h : Peels dom fronts members) (hx : x ∈ members) :
    ∃ (k : Nat) (front : List ι), fronts[k]? = some front ∧ x ∈ front := by
  obtain ⟨front, hfront, hx⟩ := List.mem_flatten.1 (h.flatten_perm.mem_iff.2 hx)
  obtain ⟨k, hk⟩ := List.mem_iff_getElem?.1 hfront
  exact ⟨k, front, hk, hx⟩

theorem disjoint (h : Peels dom fronts members) : fronts.Pairwise List.Disjoint := by
  induction h with
  | nil => exact .nil
  | cons hne h ih =>
    refine .cons (fun front hfront x hx hx' => ?_) ih
    obtain ⟨k, hk⟩ := List.mem_iff_getElem?.1 hfront
    simpa [hx] using h.front_subset hk hx'

theorem not_dom (h : Peels dom fronts members) (hk : fronts[k]? = some front) (hx : x ∈ front)
    (hy : y ∈ front) : ¬ dom x y :=
  ((h.mem_front hk).1 hy).2 x ((h.mem_front hk).1 hx).1

/-- Who comes off behind a front is dominated by a member of it. -/
theorem exists_dominating (h : Peels dom fronts members) (hdom : Strict dom members) {next : List ι}
    (hk : fronts[k]? = some front) (hnext : fronts[k + 1]? = some next) (hx : x ∈ next) :
    ∃ y ∈ front, dom y x := by
  induction h generalizing k with
  | nil => cases hk
  | @cons members fronts hne h ih =>
    cases k with
    | succ k => exact ih (hdom.mono (List.filter_subset_self _)) hk hnext
    | zero =>
      have hx : x ∈ members ∧ ¬ x ∈ undominated dom members := by
        simpa using h.front_subset hnext hx
      obtain ⟨hx, hnot⟩ := hx
      rw [mem_undominated, not_and] at hnot
      have hmax := hnot hx
      push Not at hmax
      obtain ⟨y, hy, hyx⟩ := hmax
      rw [← Option.some.inj hk]
      exact hdom.exists_undominated hx hy hyx

/-- Who dominates a member of a front comes off before. -/
theorem exists_front_lt (h : Peels dom fronts members) (hk : fronts[k]? = some front) (hx : x ∈ front)
    (hy : y ∈ members) (hyx : dom y x) : ∃ j < k, ∃ before, fronts[j]? = some before ∧ y ∈ before := by
  have hnot : y ∉ left (fronts.take k) members := fun hleft => ((h.mem_front hk).1 hx).2 y hleft hyx
  simp only [left, List.mem_filter, hy, true_and, decide_eq_true_eq, not_forall, not_not] at hnot
  obtain ⟨before, hbefore, hy⟩ := hnot
  obtain ⟨j, hj⟩ := List.mem_iff_getElem?.1 hbefore
  rw [List.getElem?_take] at hj
  split at hj
  · exact ⟨j, ‹_›, before, hj, hy⟩
  · cases hj

/-! ### Chains -/

theorem exists_chain (h : Peels dom fronts members) (hdom : Strict dom members) (hk : fronts[k]? = some front)
    (hx : x ∈ front) : k ∈ chainLengths dom members x := by
  induction k generalizing x front with
  | zero => exact ⟨[], List.nil_subset _, rfl, .singleton x⟩
  | succ k ih =>
    obtain ⟨before, hbefore⟩ : ∃ before, fronts[k]? = some before := by
      have hlt := (List.getElem?_eq_some_iff.1 hk).1
      exact ⟨_, List.getElem?_eq_getElem (Nat.lt_of_succ_lt hlt)⟩
    obtain ⟨y, hy, hyx⟩ := h.exists_dominating hdom hbefore hk hx
    obtain ⟨chain, hsub, hlength, hchain⟩ := ih hbefore hy
    refine ⟨chain ++ [y], ?_, by simp [hlength], ?_⟩
    · exact List.append_subset.2 ⟨hsub, by simpa using h.front_subset hbefore hy⟩
    · rw [List.append_assoc]
      exact List.isChain_append_cons_cons.2 ⟨hchain, hyx, .singleton x⟩

theorem length_chain_le (h : Peels dom fronts members) (hk : fronts[k]? = some front) (hx : x ∈ front)
    {chain : List ι} (hsub : chain ⊆ members) (hchain : (chain ++ [x]).IsChain dom) : chain.length ≤ k := by
  -- the last of the chain comes off before `x`, so what is in front of it is shorter still
  induction chain using List.reverseRecOn generalizing x k front with
  | nil => exact Nat.zero_le k
  | append_singleton chain y ih =>
    rw [List.append_assoc] at hchain
    obtain ⟨hchain, hyx, -⟩ := List.isChain_append_cons_cons.1 hchain
    obtain ⟨j, hjk, before, hj, hy⟩ := h.exists_front_lt hk hx (hsub (by simp)) hyx
    have hle := ih hj hy (fun z hz => hsub (by simp [hz])) hchain
    rw [List.length_append, List.length_singleton]
    omega

/-- The number of a front is the length of the longest chain that ends in a member of it. -/
theorem isGreatest (h : Peels dom fronts members) (hdom : Strict dom members) (hk : fronts[k]? = some front)
    (hx : x ∈ front) : IsGreatest (chainLengths dom members x) k := by
  refine ⟨h.exists_chain hdom hk hx, ?_⟩
  rintro n ⟨chain, hsub, rfl, hchain⟩
  exact h.length_chain_le hk hx hsub hchain

theorem eq_zero_iff (h : Peels dom fronts members) (hdom : Strict dom members) (hk : fronts[k]? = some front)
    (hx : x ∈ front) : k = 0 ↔ ∀ y ∈ members, ¬ dom y x := by
  constructor
  · rintro rfl
    simpa [left] using ((h.mem_front hk).1 hx).2
  · intro hmax
    obtain ⟨chain, hsub, rfl, hchain⟩ := h.exists_chain hdom hk hx
    cases chain using List.reverseRecOn with
    | nil => rfl
    | append_singleton chain y =>
      rw [List.append_assoc] at hchain
      exact absurd (List.isChain_append_cons_cons.1 hchain).2.1 (hmax y (hsub (by simp)))

/-! ### Two peelings -/

theorem congr (h : Peels dom fronts members) {dom' : ι → ι → Prop} [DecidableRel dom']
    (hdom : ∀ x y, dom x y ↔ dom' x y) : Peels dom' fronts members := by
  obtain rfl : dom = dom' := funext₂ fun x y => propext (hdom x y)
  convert h

/-- Whoever is in a front is in the front of the same number of every peeling of the same members, in whatever
order they stand. -/
theorem exists_front_of_perm (h : Peels dom fronts members) (hdom : Strict dom members)
    {fronts' : List (List ι)} {members' : List ι} (h' : Peels dom fronts' members')
    (hperm : members'.Perm members) (hk : fronts[k]? = some front) (hx : x ∈ front) :
    ∃ front', fronts'[k]? = some front' ∧ x ∈ front' := by
  have hdom' : Strict dom members' := hdom.mono hperm.subset
  obtain ⟨j, front', hj, hx'⟩ := h'.exists_front (hperm.mem_iff.2 (h.front_subset hk hx))
  have hlengths : chainLengths dom members' x = chainLengths dom members x := by
    simp only [chainLengths, hperm.subset_congr_right]
  have hgreatest := h'.isGreatest hdom' hj hx'
  rw [hlengths] at hgreatest
  rw [← hgreatest.unique (h.isGreatest hdom hk hx)]
  exact ⟨front', hj, hx'⟩

theorem mem_iff_of_perm (h : Peels dom fronts members) (hdom : Strict dom members) {fronts' : List (List ι)}
    {members' : List ι} (h' : Peels dom fronts' members') (hperm : members'.Perm members) {front' : List ι}
    (hk : fronts[k]? = some front) (hk' : fronts'[k]? = some front') : x ∈ front ↔ x ∈ front' := by
  constructor
  · intro hx
    obtain ⟨_, he, hx'⟩ := h.exists_front_of_perm hdom h' hperm hk hx
    rwa [Option.some.inj (hk'.symm.trans he)]
  · intro hx
    obtain ⟨_, he, hx'⟩ := h'.exists_front_of_perm (hdom.mono hperm.subset) h hperm.symm hk' hx
    rwa [Option.some.inj (hk.symm.trans he)]

theorem length_le_of_perm (h : Peels dom fronts members) (hdom : Strict dom members) {fronts' : List (List ι)}
    {members' : List ι} (h' : Peels dom fronts' members') (hperm : members'.Perm members) :
    fronts.length ≤ fronts'.length := by
  by_contra hlt
  rw [Nat.not_le] at hlt
  have hk : fronts[fronts'.length]? = some fronts[fronts'.length] := List.getElem?_eq_getElem hlt
  obtain ⟨x, hx⟩ := List.exists_mem_of_ne_nil _ (h.ne_nil hdom _ (List.mem_of_getElem? hk))
  obtain ⟨_, he, -⟩ := h.exists_front_of_perm hdom h' hperm hk hx
  rw [List.getElem?_eq_none le_rfl] at he
  cases he

end Peels

end GoalSearch.Peeling
