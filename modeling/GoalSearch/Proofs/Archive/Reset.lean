import GoalSearch.Proofs.Archive.Calls
import GoalSearch.Proofs.Mirror

/-!
# Archives in use again

A reset forgets what is covered, but the goals that were uncovered stay in front of those that it puts back, so a
reset archive lists its uncovered goals as a new one does only if they were the first of the objectives
(`Partitioned.reset_uncovered_iff`). `Renews U` relates an archive in use again to a new one: only the uncovered goals
and what was announced about them may be told apart, and those are related by `U`, which may be any relation between
listings of the same goals that operations do not break (`Orderly`). Every operation answers alike on the two and keeps
them related (`Operation.mirrors_perform`), and so do all operations together (`Operation.ends_performAll`).
-/

namespace GoalSearch

variable {σ ω : Type} {subject : Subject σ ω}

/-! ### Listings of goals -/

/-- A relation between listings of the same goals that does not break as single goals leave and join. -/
structure Orderly (U : List Goal → List Goal → Prop) : Prop where
  mem {xs ys : List Goal} : U xs ys → ∀ g, g ∈ xs ↔ g ∈ ys
  erase {xs ys : List Goal} : U xs ys → ∀ g, U (xs.erase g) (ys.erase g)
  adjoin {xs ys : List Goal} : U xs ys → ∀ g, U (Distinct.adjoin xs g) (Distinct.adjoin ys g)

theorem orderly_eq : Orderly Eq where
  mem h _ := h ▸ Iff.rfl
  erase h _ := h ▸ rfl
  adjoin h _ := h ▸ rfl

theorem orderly_perm : Orderly List.Perm where
  mem h _ := h.mem_iff
  erase h g := h.erase g
  adjoin {xs ys} h g := by
    unfold Distinct.adjoin
    by_cases hg : g ∈ xs
    · rw [if_pos hg, if_pos (h.mem_iff.1 hg)]
      exact h
    · rw [if_neg hg, if_neg fun hy => hg (h.mem_iff.2 hy)]
      exact h.append_right [g]

/-- The same goal became covered, and the goals left are related. -/
structure Announcement.Alike (U : List Goal → List Goal → Prop) (x y : Announcement) : Prop where
  goal : x.goal = y.goal
  uncovered : U x.uncovered y.uncovered

namespace Archive

/-! ### What a reset leaves -/

section Reset
variable {ι : Type} {a : Archive ι}

/-- The goals that were uncovered stay in front. -/
theorem Partitioned.reset_uncovered (ha : a.Partitioned) :
    a.reset.uncovered = a.uncovered ++ a.objectives.filter (· ∈ a.coveredGoals) := by
  refine (Distinct.foldl_adjoin_eq ha.objectives_nodup).trans ?_
  refine congrArg _ (List.filter_congr fun g hg => ?_)
  rw [decide_eq_decide]
  exact ⟨((ha.mem_objectives g).1 hg).resolve_right, ha.disjoint g⟩

theorem Partitioned.reset_uncovered_perm (ha : a.Partitioned) : a.reset.uncovered.Perm a.objectives := by
  refine (List.perm_ext_iff_of_nodup ha.reset.uncovered_nodup ha.objectives_nodup).2 fun g => ?_
  refine ⟨fun hg => ha.reset.uncovered_subset hg, fun hg => ?_⟩
  exact ((ha.reset.mem_objectives g).1 hg).resolve_left List.not_mem_nil

/-- The order of the objectives comes back if and only if the uncovered goals were the first of them. -/
theorem Partitioned.reset_uncovered_iff (ha : a.Partitioned) :
    a.reset.uncovered = a.objectives ↔ a.uncovered <+: a.objectives := by
  rw [ha.reset_uncovered]
  refine ⟨fun h => ⟨_, h⟩, ?_⟩
  rintro ⟨rest, hrest⟩
  have hrest_mem : ∀ g ∈ rest, g ∈ a.coveredGoals := by
    intro g hg
    have hnodup : (a.uncovered ++ rest).Nodup := hrest ▸ ha.objectives_nodup
    have hu : g ∉ a.uncovered := fun hu => (List.nodup_append.1 hnodup).2.2 g hu g hg rfl
    exact ((ha.mem_objectives g).1 (hrest ▸ List.mem_append_right _ hg)).resolve_right hu
  have hnone : a.uncovered.filter (· ∈ a.coveredGoals) = [] := by
    refine List.filter_eq_nil_iff.2 fun g hg => ?_
    simpa using fun hc => ha.disjoint g hc hg
  have hall : rest.filter (· ∈ a.coveredGoals) = rest :=
    List.filter_eq_self.2 fun g hg => decide_eq_true (hrest_mem g hg)
  rw [← hrest, List.filter_append, hnone, hall, List.nil_append]

end Reset

/-! ### Two archives side by side -/

/-- Archives that differ in the order of their uncovered goals at most, the one having announced `A` before and the
other one `B`. What they announced since is alike. -/
structure Renews {ι : Type} (U : List Goal → List Goal → Prop) (A B : List Announcement) (a b : Archive ι) : Prop where
  objectives : a.objectives = b.objectives
  covered : a.covered = b.covered
  uncovered : U a.uncovered b.uncovered
  announced : ∃ xs ys, a.announced = A ++ xs ∧ b.announced = B ++ ys ∧ List.Forall₂ (Announcement.Alike U) xs ys

namespace Renews
variable {ι : Type} {U : List Goal → List Goal → Prop} {A B : List Announcement} {a b : Archive ι}

theorem submit (hU : Orderly U) (h : Renews U A B a b) (size : ι → Nat) (x : ι) (g : Goal) :
    (a.submit size x g).2 = (b.submit size x g).2 ∧ Renews U A B (a.submit size x g).1 (b.submit size x g).1 := by
  have hget : b.get? g = a.get? g := by rw [get?, get?, h.covered]
  have hmem : (g ∈ b.uncovered) = (g ∈ a.uncovered) := propext (hU.mem h.uncovered g).symm
  unfold Archive.submit
  simp only [hget, ← h.objectives, hmem]
  split
  · exact ⟨rfl, h⟩
  split
  · exact ⟨rfl, h⟩
  split
  · obtain ⟨xs, ys, hxs, hys, hxys⟩ := h.announced
    have hnew : List.Forall₂ (Announcement.Alike U) [⟨g, a.uncovered.erase g⟩] [⟨g, b.uncovered.erase g⟩] :=
      .cons ⟨rfl, hU.erase h.uncovered g⟩ .nil
    refine ⟨rfl, rfl, congrArg (put g x) h.covered, hU.erase h.uncovered g, xs ++ [_], ys ++ [_], ?_, ?_,
      List.rel_append hxys hnew⟩
    · rw [hxs, List.append_assoc]
    · rw [hys, List.append_assoc]
  · exact ⟨rfl, rfl, congrArg (put g x) h.covered, h.uncovered, h.announced⟩

theorem addGoal (hU : Orderly U) (h : Renews U A B a b) (g : Goal) : Renews U A B (a.addGoal g) (b.addGoal g) := by
  unfold Archive.addGoal
  rw [← h.objectives]
  split
  · exact h
  · exact ⟨rfl, h.covered, hU.adjoin h.uncovered g, h.announced⟩

theorem reset (hU : Orderly U) (h : Renews U A B a b) : Renews U A B a.reset b.reset := by
  refine ⟨h.objectives, rfl, ?_, h.announced⟩
  show U (a.objectives.foldl Distinct.adjoin a.uncovered) (b.objectives.foldl Distinct.adjoin b.uncovered)
  rw [← h.objectives]
  generalize a.objectives = goals
  have huncovered := h.uncovered
  revert huncovered
  generalize a.uncovered = xs
  generalize b.uncovered = ys
  induction goals generalizing xs ys with
  | nil => exact id
  | cons g goals ih => exact fun hxy => ih _ _ (hU.adjoin hxy g)

/-- A reset archive and a new one with the same objectives. -/
theorem of_reset (huncovered : U a.reset.uncovered a.objectives) (ha : a.Partitioned) :
    Renews U a.announced [] a.reset (ofGoals a.objectives) := by
  have hgoals : Distinct.ofList a.objectives = a.objectives := Distinct.ofList_of_nodup ha.objectives_nodup
  refine ⟨hgoals.symm, rfl, ?_, [], [], (List.append_nil _).symm, rfl, .nil⟩
  show U a.reset.uncovered (Distinct.ofList a.objectives)
  rwa [hgoals]

end Renews

end Archive

/-! ### Operations -/

/-- The same search but for the archives, which are related by `P`. -/
structure Search.Apart (P : Archive Nat → Archive Nat → Prop) (s t : Search σ ω) : Prop where
  rest : t = { s with archive := t.archive }
  archive : P s.archive t.archive

namespace SearchM
variable {α β : Type} {P : Archive Nat → Archive Nat → Prop}

theorem apart_onScene (x : SceneM σ ω α) : Mirrors (Search.Apart P) Eq (onScene x) (onScene x) := by
  rintro s t ⟨hrest, harchive⟩
  rw [hrest]
  exact ⟨.refl _, rfl, harchive⟩

theorem apart_log (notice : Notice) : Mirrors (Search.Apart (σ := σ) (ω := ω) P) Eq (log notice) (log notice) :=
  apart_onScene _

/-- What a submission does once the archive has been told. -/
def conclude (g : Goal) (outcome : Archived) : SearchM σ ω Bool := do
  match outcome with
  | .unknown => log (.unknownGoal g)
  | .newlyCovered => log (.goalCovered g)
  | _ => pure ()
  return changes outcome

theorem run_submit (i : Nat) (g : Goal) (s : Search σ ω) : (submit i g).run s =
    (conclude g (s.archive.submit (fun j => (s.scene.individual j).size) i g).2).run
      { s with archive := (s.archive.submit (fun j => (s.scene.individual j).size) i g).1 } := rfl

theorem apart_conclude (g : Goal) (outcome : Archived) :
    Mirrors (Search.Apart (σ := σ) (ω := ω) P) Eq (conclude g outcome) (conclude g outcome) := by
  cases outcome with
  | unknown => exact (apart_log _).seq fun _ => .pure rfl
  | newlyCovered => exact (apart_log _).seq fun _ => .pure rfl
  | kept => exact .pure rfl
  | replaced => exact .pure rfl

variable {U : List Goal → List Goal → Prop} {A B : List Announcement}

theorem apart_solutions :
    Mirrors (Search.Apart (Archive.Renews U A B)) Eq (solutions subject) (solutions subject) := by
  refine Mirrors.get.bind fun s t hst => ?_
  rw [hst.archive.covered]
  refine (apart_onScene _).seq fun all => .ite Iff.rfl ?_ (.throw _)
  refine Mirrors.get.bind fun s t hst => .pure ?_
  rw [Archive.solutions, Archive.solutions, hst.archive.covered]

section Ordered
variable (hU : Orderly U)
include hU

theorem apart_submit (i : Nat) (g : Goal) :
    Mirrors (Search.Apart (σ := σ) (ω := ω) (Archive.Renews U A B)) Eq (submit i g) (submit i g) := by
  rintro s t ⟨hrest, harchive⟩
  have hsize : (fun j => (t.scene.individual j).size) = fun j => (s.scene.individual j).size := by rw [hrest]
  obtain ⟨houtcome, harchive⟩ := harchive.submit hU (fun j => (s.scene.individual j).size) i g
  rw [run_submit, run_submit, hsize, houtcome]
  refine apart_conclude g _ _ _ ⟨?_, harchive⟩
  rw [hrest]

variable (subject)

theorem apart_offer (g : Goal) (i : Nat) :
    Mirrors (Search.Apart (σ := σ) (ω := ω) (Archive.Renews U A B)) Eq (offer subject g i) (offer subject g i) := by
  refine (apart_onScene _).seq fun x => .ite Iff.rfl (.pure rfl) ?_
  exact (apart_onScene _).seq fun covered => .ite Iff.rfl (apart_submit hU i g) (.pure rfl)

theorem apart_updateArchive (members : List Nat) :
    Mirrors (Search.Apart (Archive.Renews U A B)) Eq (updateArchive subject members)
      (updateArchive subject members) := by
  refine Mirrors.get.bind fun s t hst => ?_
  rw [hst.archive.objectives]
  refine (Mirrors.mapM_eq fun g _ => Mirrors.mapM_eq fun i _ => apart_offer subject hU g i).seq fun changes => ?_
  refine Mirrors.get.bind fun s t hst => ?_
  rw [hst.archive.covered]
  exact (apart_log _).seq fun _ => .pure rfl

theorem apart_addGoals (goals : List Goal) :
    Mirrors (Search.Apart (σ := σ) (ω := ω) (Archive.Renews U A B)) Eq (addGoals goals) (addGoals goals) := by
  have hadd : ∀ g, Mirrors (Search.Apart (σ := σ) (ω := ω) (Archive.Renews U A B)) Eq
      (modify fun s => { s with archive := s.archive.addGoal g })
      (modify fun s => { s with archive := s.archive.addGoal g }) :=
    fun g => .modify fun s t hst => ⟨by rw [hst.rest], hst.archive.addGoal hU g⟩
  refine Mirrors.forM fun g _ => Mirrors.get.bind fun s t hst => ?_
  rw [hst.archive.objectives]
  exact .ite Iff.rfl ((apart_log _).seq fun _ => hadd g) (hadd g)

end Ordered

end SearchM

namespace Archive

/-- What an archive is used for: the calls that may change it, and to look up the individuals in it. Between two uses
the scene may change. -/
inductive Operation (σ ω : Type) where
  | call (c : Call)
  | solutions
  | meanwhile (change : Scene σ ω → Scene σ ω)

inductive Answer where
  | none
  | changed (b : Bool)
  | members (l : List Nat)
deriving Repr, DecidableEq

namespace Operation

def perform (subject : Subject σ ω) : Operation σ ω → SearchM σ ω Answer
  | call (.submit i g) => return .changed (← SearchM.submit i g)
  | call (.update members) => return .changed (← SearchM.updateArchive subject members)
  | call (.addGoals goals) => do
    SearchM.addGoals goals
    return .none
  | call .reset => do
    modify fun s => { s with archive := s.archive.reset }
    return .none
  | solutions => return .members (← SearchM.solutions subject)
  | meanwhile change => do
    modify fun s => { s with scene := change s.scene }
    return .none

/-- Performs operations one after the other, also where one ends with a fault. Shows what each one answered and left. -/
def performAll (subject : Subject σ ω) : List (Operation σ ω) → Search σ ω → List (Except Fault Answer × Search σ ω)
  | [], _ => []
  | o :: ops, s => (o.perform subject).run s :: performAll subject ops ((o.perform subject).run s).2

variable (subject : Subject σ ω) {U : List Goal → List Goal → Prop} {A B : List Announcement}

/-- An operation answers alike on two archives that differ in order, and keeps them so. -/
theorem mirrors_perform (hU : Orderly U) (o : Operation σ ω) :
    Mirrors (Search.Apart (Renews U A B)) Eq (o.perform subject) (o.perform subject) := by
  cases o with
  | call c =>
    cases c with
    | submit i g => exact (SearchM.apart_submit hU i g).seq fun _ => .pure rfl
    | update members => exact (SearchM.apart_updateArchive subject hU members).seq fun _ => .pure rfl
    | addGoals goals => exact (SearchM.apart_addGoals hU goals).seq fun _ => .pure rfl
    | reset =>
      refine Mirrors.seq (.modify fun s t hst => ?_) fun _ => .pure rfl
      exact ⟨by rw [hst.rest], hst.archive.reset hU⟩
  | solutions => exact (SearchM.apart_solutions).seq fun _ => .pure rfl
  | meanwhile change =>
    refine Mirrors.seq (.modify fun s t hst => ?_) fun _ => .pure rfl
    exact ⟨by rw [hst.rest], hst.archive⟩

theorem ends_performAll (hU : Orderly U) (ops : List (Operation σ ω)) {s t : Search σ ω}
    (hst : s.Apart (Renews U A B) t) :
    List.Forall₂ (Ends (Search.Apart (Renews U A B)) Eq) (performAll subject ops s) (performAll subject ops t) := by
  induction ops generalizing s t with
  | nil => exact .nil
  | cons o ops ih =>
    have ho := mirrors_perform subject hU o s t hst
    exact .cons ho (ih ho.state)

end Operation

/-- A reset archive covers nothing, and in whatever order its goals are, it is used like a new archive with the same
objectives: all operations answer alike, cover the same goals and store the same individuals. The orders of uncovered
goals are the same too, then and later, if those left before the reset were the first objectives, and only then. -/
theorem renewed_of_reset (goals : List Goal) {before : List Call} {a : Archive Nat}
    (ha : Leads subject (fun _ => True) (ofGoals goals) before a) :
    a.reset.objectives = a.objectives ∧ a.reset.covered = [] ∧
    a.reset.uncovered = a.uncovered ++ a.objectives.filter (· ∈ a.coveredGoals) ∧
    a.reset.uncovered.Perm a.objectives ∧
    (a.reset.uncovered = a.objectives ↔ a.uncovered <+: a.objectives) ∧
    ∀ (s : Search σ ω) (ops : List (Operation σ ω)),
      List.Forall₂ (Ends (Search.Apart (Renews List.Perm a.announced [])) Eq)
        (Operation.performAll subject ops { s with archive := a.reset })
        (Operation.performAll subject ops { s with archive := ofGoals a.objectives }) ∧
      (a.uncovered <+: a.objectives →
        List.Forall₂ (Ends (Search.Apart (Renews Eq a.announced [])) Eq)
          (Operation.performAll subject ops { s with archive := a.reset })
          (Operation.performAll subject ops { s with archive := ofGoals a.objectives })) := by
  have hpart : a.Partitioned := ha.partitioned (partitioned_ofGoals goals)
  refine ⟨rfl, rfl, hpart.reset_uncovered, hpart.reset_uncovered_perm, hpart.reset_uncovered_iff, fun s ops => ⟨?_, ?_⟩⟩
  · exact Operation.ends_performAll subject orderly_perm ops ⟨rfl, .of_reset hpart.reset_uncovered_perm hpart⟩
  · intro hprefix
    have heq : a.reset.uncovered = a.objectives := hpart.reset_uncovered_iff.2 hprefix
    exact Operation.ends_performAll subject orderly_eq ops ⟨rfl, .of_reset heq hpart⟩

/-- A search for goals in which there is nobody yet. -/
def deserted (goals : List Goal) : Search Statement Sample.World :=
  { scene := ⟨#[], { generator := .scripted ⟨#[], #[], #[], 0, 0, 0⟩ }, #[]⟩
    archive := .ofGoals goals }

/-- The last objective is covered before the reset, so that the order of the goals comes back. -/
theorem renewed_of_reset_last : ∃ a,
    Leads nobody (fun _ => True) (ofGoals [.atom 0, .atom 1]) [.submit 0 (.atom 1)] a ∧
    a.uncovered = [.atom 0] ∧ a.reset.uncovered = [.atom 0, .atom 1] ∧
    List.Forall₂ (Ends (Search.Apart (Renews Eq a.announced [])) Eq)
      (Operation.performAll nobody [.call (.submit 0 (.atom 0)), .call (.addGoals [.atom 2]), .call .reset]
        { deserted [] with archive := a.reset })
      (Operation.performAll nobody [.call (.submit 0 (.atom 0)), .call (.addGoals [.atom 2]), .call .reset]
        { deserted [] with archive := ofGoals a.objectives }) := by
  have ha := leads_makeAll nobody [.submit 0 (.atom 1)] (deserted [.atom 0, .atom 1])
  obtain ⟨-, -, -, -, horder, hlater⟩ := renewed_of_reset _ ha
  exact ⟨_, ha, by decide, horder.2 (by decide), (hlater _ _).2 (by decide)⟩

/-- The first objective is covered before the reset, and comes last thereafter. -/
theorem reset_uncovered_ne_objectives : ∃ a,
    Leads nobody (fun _ => True) (ofGoals [.atom 0, .atom 1]) [.submit 0 (.atom 0)] a ∧
    a.objectives = [.atom 0, .atom 1] ∧ a.reset.uncovered = [.atom 1, .atom 0] ∧
    (ofGoals a.objectives : Archive Nat).uncovered = [.atom 0, .atom 1] :=
  ⟨_, leads_makeAll nobody [.submit 0 (.atom 0)] (deserted [.atom 0, .atom 1]), by decide, by decide, by decide⟩

end Archive

end GoalSearch
