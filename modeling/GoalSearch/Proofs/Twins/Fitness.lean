import GoalSearch.Proofs.Fitness
import GoalSearch.Proofs.Mirror

/-!
# Scenes that differ in blurred fitness values

Two scenes are twins if they are the same but for the log and for known fitness values: these are equal for the goals
that are `sharp`, and for the others equal or both positive. Where two evaluators differ no more than that, asking for
a fitness keeps scenes twins and gives values that differ no more than that (`mirrors_fitness`).
-/

namespace GoalSearch

variable {σ ω : Type}

/-! ### Values -/

namespace Fitness
variable {sharp : Goal → Prop} {g : Goal} {u v a b : Float}

/-- Equal, or both positive. -/
def Near (u v : Float) : Prop := u = v ∨ 0.0 < u ∧ 0.0 < v

/-- Near values of a goal, which are equal if the goal is sharp. -/
structure Agree (sharp : Goal → Prop) (g : Goal) (u v : Float) : Prop where
  near : Near u v
  sharp : sharp g → u = v

theorem Agree.refl (v : Float) : Agree sharp g v v := ⟨.inl rfl, fun _ => rfl⟩

theorem Near.beq_zero (h : Near u v) : (u == 0.0) = (v == 0.0) := by
  have hpos : ∀ w : Float, 0.0 < w → (w == 0.0) = false := fun w hw =>
    Bool.eq_false_iff.2 fun h0 => Binary64.lt_irrefl 0.0 (Binary64.lt_of_lt_of_beq hw h0)
  rcases h with rfl | ⟨hu, hv⟩
  · rfl
  · rw [hpos u hu, hpos v hv]

theorem Near.lesser (hab : Near a b) (huv : Near u v) : Near (if u < a then u else a) (if v < b then v else b) := by
  have hpositive : ∀ {x y : Float}, 0.0 < x → 0.0 < y → 0.0 < if x < y then x else y := by
    intro x y hx hy
    split <;> assumption
  have hnan : ∀ {x y : Float}, x < y → ¬ Binary64.isNaN x = true := fun h =>
    (Binary64.not_nan_of_le (Binary64.le_of_lt h)).1
  rcases hab with rfl | ⟨ha, hb⟩ <;> rcases huv with rfl | ⟨hu, hv⟩
  · exact .inl rfl
  · -- the one value that is left of both pairs is positive as soon as it is above a positive one
    by_cases h : 0.0 < a
    · exact .inr ⟨hpositive hu h, hpositive hv h⟩
    · rw [if_neg fun hlt => h (Binary64.lt_trans hu hlt), if_neg fun hlt => h (Binary64.lt_trans hv hlt)]
      exact .inl rfl
  · by_cases h : 0.0 < u
    · exact .inr ⟨hpositive h ha, hpositive h hb⟩
    · by_cases hu : Binary64.isNaN u = true
      · rw [if_neg fun hlt => hnan hlt hu, if_neg fun hlt => hnan hlt hu]
        exact .inr ⟨ha, hb⟩
      · have hlt : ∀ x : Float, 0.0 < x → u < x := fun x hx =>
          Decidable.byContradiction fun hux => h (Binary64.lt_of_lt_of_not_lt hu hx hux)
        rw [if_pos (hlt a ha), if_pos (hlt b hb)]
        exact .inl rfl
  · exact .inr ⟨hpositive hu ha, hpositive hv hb⟩

/-- The least values of lists that are near place by place are near. -/
theorem Near.least {us vs : List Float} (h : List.Forall₂ Near us vs) : Near (least worst us) (least worst vs) := by
  have hfold : ∀ {us vs : List Float} {a b : Float}, List.Forall₂ Near us vs → Near a b →
      Near (us.foldl (fun a u => if u < a then u else a) a) (vs.foldl (fun b v => if v < b then v else b) b) := by
    intro us vs a b h
    induction h generalizing a b with
    | nil => exact id
    | cons huv _ ih => exact fun hab => ih (hab.lesser huv)
  cases h with
  | nil => exact .inl rfl
  | cons huv h => exact hfold h huv

theorem Agree.least {us vs : List Float} (h : List.Forall₂ (Agree sharp g) us vs) :
    Agree sharp g (least worst us) (least worst vs) := by
  refine ⟨.least (h.imp fun _ _ h => h.near), fun hg => congrArg _ ?_⟩
  have heq := h.imp fun _ _ h => h.sharp hg
  rwa [List.forall₂_eq_eq_eq] at heq

theorem Near.sanitise (h : Near u v) : Near (sanitise u) (sanitise v) := by
  have hpositive : ∀ w : Float, 0.0 < w → 0.0 < Fitness.sanitise w := by
    intro w hw
    unfold Fitness.sanitise
    split
    · decide +kernel
    · split
      · decide +kernel
      · exact hw
  rcases h with rfl | ⟨hu, hv⟩
  · exact .inl rfl
  · exact .inr ⟨hpositive u hu, hpositive v hv⟩

end Fitness

open Fitness

/-- The subject with other evaluators. -/
def Subject.judgedBy (subject : Subject σ ω) (judge : Nat → Content σ → ω → Verdict × ω) : Subject σ ω :=
  { subject with evaluate := judge }

/-- Evaluators that do the same to the surroundings, and come to verdicts whose values agree. -/
def Subject.Resembles (sharp : Goal → Prop) (subject : Subject σ ω)
    (judge : Nat → Content σ → ω → Verdict × ω) : Prop :=
  ∀ n content w, (subject.evaluate n content w).2 = (judge n content w).2 ∧
    Matches (Agree sharp (.atom n)) (sanitised (subject.evaluate n content w).1) (sanitised (judge n content w).1)

theorem Subject.resembles_self (sharp : Goal → Prop) (subject : Subject σ ω) :
    subject.Resembles sharp subject.evaluate :=
  fun _ _ _ => ⟨rfl, (Matches.refl _).mono fun u _ h => h ▸ .refl u⟩

/-! ### Twins -/

/-- The same individual, but for known values, which agree. -/
inductive Individual.Twin (sharp : Goal → Prop) (x : Individual σ) : Individual σ → Prop
  | intro (cache : Cache) (known : ∀ g, Option.Rel (Agree sharp g) (x.cache.get? g) (cache.get? g)) :
    Individual.Twin sharp x { x with cache := cache }

def Individual.IsSuite (x : Individual σ) : Prop := ∃ members, x.content = .suite members

namespace Individual.Twin
variable {sharp : Goal → Prop} {x y : Individual σ} {g : Goal} {u v : Float}

theorem refl (x : Individual σ) : x.Twin sharp x := by
  refine .intro x.cache fun g => ?_
  cases x.cache.get? g with
  | none => exact .none
  | some v => exact .some (.refl v)

theorem known (h : x.Twin sharp y) (g : Goal) : Option.Rel (Agree sharp g) (x.cache.get? g) (y.cache.get? g) := by
  obtain ⟨cache, h⟩ := h
  exact h g

theorem content_eq (h : x.Twin sharp y) : y.content = x.content := by
  obtain ⟨cache, -⟩ := h
  rfl

theorem rank_eq (h : x.Twin sharp y) : y.rank = x.rank := by
  obtain ⟨cache, -⟩ := h
  rfl

theorem distance_eq (h : x.Twin sharp y) : y.distance = x.distance := by
  obtain ⟨cache, -⟩ := h
  rfl

theorem refresh (h : x.Twin sharp y) : x.refresh.Twin sharp y.refresh := by
  obtain ⟨cache, h⟩ := h
  unfold Individual.refresh
  dsimp only
  split
  · exact refl _
  · exact .intro cache h

theorem insert (h : x.Twin sharp y) (huv : Agree sharp g u v) :
    ({ x with cache := x.cache.insert g u }).Twin sharp { y with cache := y.cache.insert g v } := by
  obtain ⟨cache, h⟩ := h
  refine .intro (cache.insert g v) fun k => ?_
  dsimp only
  rw [Cache.get?_insert, Cache.get?_insert]
  split
  · rename_i hk
    exact .some (hk ▸ huv)
  · exact h k

end Individual.Twin

/-- The same scene, but for the log and for known values, which agree; either no individual is a suite, or with a goal
over suites its inner goal is sharp too. -/
structure Scene.Twin (sharp : Goal → Prop) (s t : Scene σ ω) : Prop where
  size : s.pool.size = t.pool.size
  individual : ∀ i, (s.individual i).Twin sharp (t.individual i)
  outside : s.outside = t.outside
  grounded : (∀ serial g, sharp (.overSuite serial g) → sharp g) ∨ ∀ i, ¬ (s.individual i).IsSuite

namespace Scene.Twin
variable {sharp : Goal → Prop} {s t : Scene σ ω}

theorem modify {i : Nat} {f f' : Individual σ → Individual σ} (h : s.Twin sharp t)
    (hf : (f (s.individual i)).Twin sharp (f' (t.individual i)))
    (hsuite : (f (s.individual i)).IsSuite → (s.individual i).IsSuite) :
    (s.modify i f).Twin sharp (t.modify i f') where
  size := by rw [size_modify, size_modify, h.size]
  individual j := by
    by_cases hj : i = j
    · subst hj
      by_cases hi : i < s.pool.size
      · rwa [individual_modify_self hi, individual_modify_self (h.size ▸ hi)]
      · rw [individual_of_le (by simpa using hi), individual_of_le (by simpa [h.size] using hi)]
        exact .refl _
    · rw [individual_modify_ne hj, individual_modify_ne hj]
      exact h.individual j
  outside := h.outside
  grounded := by
    refine h.grounded.imp_right fun hnone j hj => ?_
    by_cases hij : i = j
    · subst hij
      by_cases hi : i < s.pool.size
      · rw [individual_modify_self hi] at hj
        exact hnone i (hsuite hj)
      · rw [individual_of_le (by simpa using hi), ← individual_of_le (Nat.le_of_not_lt hi)] at hj
        exact hnone i hj
    · rw [individual_modify_ne hij] at hj
      exact hnone j hj

theorem push {x y : Individual σ} (h : s.Twin sharp t) (hxy : x.Twin sharp y)
    (hsuite : x.IsSuite → ∀ serial g, sharp (.overSuite serial g) → sharp g) :
    (s.push x).Twin sharp (t.push y) where
  size := by rw [size_push, size_push, h.size]
  individual j := by
    by_cases hj : j = s.pool.size
    · rw [hj, individual_push_size, h.size, individual_push_size]
      exact hxy
    · rw [individual_push_ne hj, individual_push_ne (h.size ▸ hj)]
      exact h.individual j
  outside := h.outside
  grounded := by
    by_cases hx : x.IsSuite
    · exact .inl (hsuite hx)
    · refine h.grounded.imp_right fun hnone j => ?_
      by_cases hj : j = s.pool.size
      · rwa [hj, individual_push_size]
      · rw [individual_push_ne hj]
        exact hnone j

/-- Twins may have any logs. -/
theorem logs (h : s.Twin sharp t) (log log' : Array Notice) :
    ({ s with log := log }).Twin sharp { t with log := log' } := ⟨h.size, h.individual, h.outside, h.grounded⟩

theorem around (h : s.Twin sharp t) (w : ω) :
    ({ s with outside := w }).Twin sharp { t with outside := w } := ⟨h.size, h.individual, rfl, h.grounded⟩

end Scene.Twin

/-! ### Basic steps -/

namespace SceneM
variable {α β : Type} {sharp : Goal → Prop}

theorem mirrors_individual (i : Nat) : Mirrors (Scene.Twin (σ := σ) (ω := ω) sharp) (Individual.Twin sharp)
    (individual i) (individual i) :=
  fun _ _ h => ⟨.ok (h.individual i), h⟩

/-- To meet a suite is to know that inner goals are sharp with their outer ones. -/
theorem mirrors_individual_grounded (i : Nat) : Mirrors (Scene.Twin (σ := σ) (ω := ω) sharp)
    (fun x y => x.Twin sharp y ∧ (x.IsSuite → ∀ serial g, sharp (.overSuite serial g) → sharp g))
    (individual i) (individual i) :=
  fun _ _ h => ⟨.ok ⟨h.individual i, fun hi => h.grounded.resolve_right fun hnone => hnone i hi⟩, h⟩

theorem mirrors_update {i : Nat} {f f' : Individual σ → Individual σ}
    (hf : ∀ x y, x.Twin sharp y → (f x).Twin sharp (f' y)) (hsuite : ∀ x, (f x).IsSuite → x.IsSuite) :
    Mirrors (Scene.Twin (ω := ω) sharp) Eq (update i f) (update i f') :=
  fun _ _ h => ⟨.ok rfl, h.modify (hf _ _ (h.individual i)) (hsuite _)⟩

theorem mirrors_add {x y : Individual σ} (hxy : x.Twin sharp y)
    (hsuite : x.IsSuite → ∀ serial g, sharp (.overSuite serial g) → sharp g) :
    Mirrors (Scene.Twin (ω := ω) sharp) Eq (add x) (add y) :=
  fun _ _ h => ⟨.ok h.size, h.push hxy hsuite⟩

theorem mirrors_log (notice notice' : Notice) :
    Mirrors (Scene.Twin (σ := σ) (ω := ω) sharp) Eq (log notice) (log notice') :=
  fun _ _ h => ⟨.ok rfl, h.logs _ _⟩

theorem mirrors_act {V : α → β → Prop} {f : ω → Except Fault α × ω} {f' : ω → Except Fault β × ω}
    (h : ∀ w, (f w).2 = (f' w).2 ∧ Matches V (f w).1 (f' w).1) :
    Mirrors (Scene.Twin (σ := σ) sharp) V (act f) (act f') := by
  intro s t hst
  obtain ⟨hw, hmatches⟩ := h s.outside
  show Ends _ _ ((f s.outside).1, { s with outside := (f s.outside).2 })
    ((f' t.outside).1, { t with outside := (f' t.outside).2 })
  rw [← hst.outside, ← hw]
  exact ⟨hmatches, hst.around _⟩

/-- What only the surroundings decide. -/
theorem mirrors_act_same (f : ω → Except Fault α × ω) :
    Mirrors (Scene.Twin (σ := σ) sharp) Eq (act f) (act f) :=
  mirrors_act fun _ => ⟨rfl, .refl _⟩

end SceneM

/-! ### Fitness -/

section Reading
variable {sharp : Goal → Prop} {g : Goal} {i : Nat}

namespace Fitness

theorem mirrors_check {u v : Float} (h : Agree sharp g u v) :
    Mirrors (Scene.Twin (σ := σ) (ω := ω) sharp) (Agree sharp g) (check g u) (check g v) := by
  intro s t hst
  obtain ⟨_, _, hrun, rfl, log, rfl⟩ := exists_of_wp (wp_check_eq (E := fun _ _ => False) (s := s) (g := g) u)
  obtain ⟨_, _, hrun', rfl, log', rfl⟩ := exists_of_wp (wp_check_eq (E := fun _ _ => False) (s := t) (g := g) v)
  rw [hrun, hrun']
  exact ⟨.ok ⟨h.near.sanitise, fun hg => congrArg _ (h.sharp hg)⟩, hst.logs _ _⟩

theorem mirrors_failed :
    Mirrors (Scene.Twin (σ := σ) (ω := ω) sharp) (Agree sharp g) (failed g) (failed g) :=
  (SceneM.mirrors_log _ _).seq fun _ => .pure (.refl worst)

theorem mirrors_ofVerdict {verdict verdict' : Verdict}
    (h : Matches (Agree sharp g) (sanitised verdict) (sanitised verdict')) :
    Mirrors (Scene.Twin (σ := σ) (ω := ω) sharp) (Agree sharp g) (ofVerdict g verdict) (ofVerdict g verdict') := by
  have hrun : ∀ (verdict : Verdict) (s : Scene σ ω),
      ∃ log, (ofVerdict g verdict).run s = (sanitised verdict, { s with log := log }) := by
    intro verdict s
    have hwp := wp_ofVerdict_eq (s := s) (g := g) verdict
    rcases hrun : (ofVerdict g verdict).run s with ⟨e | v, t⟩
    · obtain ⟨he, rfl⟩ := fault_of_run_eq hwp hrun
      exact ⟨t.log, by rw [he]⟩
    · obtain ⟨hv, log, rfl⟩ := post_of_run_eq hwp hrun
      exact ⟨log, by rw [hv]⟩
  intro s t hst
  obtain ⟨log, hs⟩ := hrun verdict s
  obtain ⟨log', ht⟩ := hrun verdict' t
  rw [hs, ht]
  exact ⟨h, hst.logs _ _⟩

theorem mirrors_refresh : Mirrors (Scene.Twin (σ := σ) (ω := ω) sharp) Eq (refresh i) (refresh i) :=
  SceneM.mirrors_update (fun _ _ h => h.refresh) fun x ⟨members, h⟩ =>
    ⟨members, (Individual.content_refresh (x := x)).symm.trans h⟩

/-- Values are known, computed and stored alike. -/
theorem mirrors_remember {compute compute' : SceneM σ ω Float}
    (h : Mirrors (Scene.Twin sharp) (Agree sharp g) compute compute') :
    Mirrors (Scene.Twin sharp) (Agree sharp g) (remember g i compute) (remember g i compute') := by
  have hlookUp : Mirrors (Scene.Twin sharp) (Agree sharp g) (lookUp g i compute) (lookUp g i compute') := by
    refine (SceneM.mirrors_individual i).bind ?_
    rintro x _ ⟨cache, hx⟩
    have hg := hx g
    dsimp only
    generalize x.cache.get? g = known at hg ⊢
    generalize cache.get? g = known' at hg ⊢
    cases hg with
    | some huv => exact .pure huv
    | none =>
      refine h.bind fun u v huv => ?_
      refine (SceneM.mirrors_update (fun _ _ h => h.insert huv) fun _ h => h).seq fun _ => .pure huv
  refine (SceneM.mirrors_individual i).bind ?_
  rintro x _ ⟨cache, -⟩
  show Mirrors _ _ (if x.changed = true then _ else _) (if x.changed = true then _ else _)
  exact .ite Iff.rfl (mirrors_refresh.seq fun _ => hlookUp) hlookUp

end Fitness

variable {subject : Subject σ ω} {judge : Nat → Content σ → ω → Verdict × ω}

/-- Values that are asked for agree, by induction on the goal: the values of the members of a suite do, and so does the
least of them. -/
theorem mirrors_fitness (h : subject.Resembles sharp judge) (g : Goal) (i : Nat) :
    Mirrors (Scene.Twin sharp) (Agree sharp g) (fitness subject g i) (fitness (subject.judgedBy judge) g i) := by
  induction g generalizing i with
  | atom n =>
    rw [fitness, fitness]
    refine Fitness.mirrors_remember ((SceneM.mirrors_individual i).bind ?_)
    rintro x _ ⟨cache, -⟩
    have hact : Mirrors (Scene.Twin (σ := σ) sharp)
        (fun v v' => Matches (Agree sharp (.atom n)) (sanitised v) (sanitised v'))
        (SceneM.act fun w => (.ok (subject.evaluate n x.content w).1, (subject.evaluate n x.content w).2))
        (SceneM.act fun w => (.ok (judge n x.content w).1, (judge n x.content w).2)) :=
      SceneM.mirrors_act fun w => ⟨(h n x.content w).1, .ok (h n x.content w).2⟩
    exact hact.bind fun v v' hv => Fitness.mirrors_ofVerdict hv
  | overSuite serial inner ih =>
    rw [fitness, fitness]
    refine Fitness.mirrors_remember ((SceneM.mirrors_individual_grounded i).bind ?_)
    rintro x _ ⟨⟨cache, -⟩, hgrounded⟩
    dsimp only
    split
    · rename_i members hmembers
      refine (Mirrors.mapM fun j _ => ih j).bind fun us vs hvalues => Fitness.mirrors_check ?_
      have hleast := Agree.least hvalues
      exact ⟨hleast.near, fun hsharp => hleast.sharp (hgrounded ⟨members, hmembers⟩ serial inner hsharp)⟩
    · exact Fitness.mirrors_failed

end Reading

end GoalSearch
