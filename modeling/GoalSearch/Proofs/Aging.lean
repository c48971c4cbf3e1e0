import GoalSearch.Fitness
import GoalSearch.Proofs.Scene

/-!
# What becomes of individuals

Reading fitness values changes what is known about individuals and nothing else (`Scene.Learns`). Making, copying and
mutating individuals leaves everybody's age, rank and distance alone; what survives such steps is `Scene.Timeless`. So
while a generation is bred the pool only grows, nobody gets another age than that of the generation, and nobody another
rank or distance (`Scene.Ages`).
-/

namespace GoalSearch

variable {σ ω α : Type} {subject : Subject σ ω} {s t u : Scene σ ω} {i : Nat} {g : Goal} {generation : Int}

theorem SceneM.keeps_individual {P : Scene σ ω → Prop} (i : Nat) : Keeps P (individual i) := fun _ hs => hs

namespace Scene

theorem individual_modify (s : Scene σ ω) (i j : Nat) (f : Individual σ → Individual σ) :
    (s.modify i f).individual j = f (s.individual j) ∨ (s.modify i f).individual j = s.individual j := by
  by_cases hij : i = j
  · subst hij
    by_cases hi : i < s.pool.size
    · exact .inl (individual_modify_self hi)
    · right
      rw [individual_of_le (by simpa using hi), individual_of_le (Nat.not_lt.1 hi)]
  · exact .inr (individual_modify_ne hij)

/-! ### Reading fitness -/

/-- The same individuals, about whom other values may be known. -/
structure Learns (s t : Scene σ ω) : Prop where
  size : t.pool.size = s.pool.size
  individual : ∀ i, ∃ changed cache, t.individual i = { s.individual i with changed := changed, cache := cache }

namespace Learns

theorem refl (s : Scene σ ω) : s.Learns s := ⟨rfl, fun _ => ⟨_, _, rfl⟩⟩

theorem trans (h : s.Learns t) (h' : t.Learns u) : s.Learns u := by
  refine ⟨h'.size.trans h.size, fun i => ?_⟩
  obtain ⟨_, _, ht⟩ := h.individual i
  obtain ⟨changed, cache, hu⟩ := h'.individual i
  exact ⟨changed, cache, by rw [hu, ht]⟩

theorem of_pool (hpool : t.pool = s.pool) : s.Learns t :=
  ⟨by rw [hpool], fun i => ⟨_, _, by unfold Scene.individual; rw [hpool]⟩⟩

theorem modify {f : Individual σ → Individual σ}
    (hf : ∀ x, ∃ changed cache, f x = { x with changed := changed, cache := cache }) : s.Learns (s.modify i f) := by
  refine ⟨size_modify, fun j => ?_⟩
  rcases s.individual_modify i j f with h | h
  · rw [h]
    exact hf _
  · rw [h]
    exact ⟨_, _, rfl⟩

theorem content (h : s.Learns t) (i : Nat) : (t.individual i).content = (s.individual i).content := by
  obtain ⟨_, _, h⟩ := h.individual i
  rw [h]

theorem age (h : s.Learns t) (i : Nat) : (t.individual i).age = (s.individual i).age := by
  obtain ⟨_, _, h⟩ := h.individual i
  rw [h]

theorem rank (h : s.Learns t) (i : Nat) : (t.individual i).rank = (s.individual i).rank := by
  obtain ⟨_, _, h⟩ := h.individual i
  rw [h]

theorem distance (h : s.Learns t) (i : Nat) : (t.individual i).distance = (s.individual i).distance := by
  obtain ⟨_, _, h⟩ := h.individual i
  rw [h]

theorem keeps_act (f : ω → Except Fault α × ω) : Keeps s.Learns (SceneM.act f) := fun _ ht => ht.trans (.of_pool rfl)

theorem keeps_log (notice : Notice) : Keeps s.Learns (SceneM.log notice) := fun _ ht => ht.trans (.of_pool rfl)

theorem keeps_check (x : Float) : Keeps s.Learns (Fitness.check g x) :=
  .ite (.bind (keeps_log _) fun _ => .pure _) (.pure _)

theorem keeps_failed : Keeps s.Learns (Fitness.failed g) := .bind (keeps_log _) fun _ => .pure _

theorem keeps_ofVerdict (verdict : Verdict) : Keeps s.Learns (Fitness.ofVerdict g verdict) := by
  unfold Fitness.ofVerdict
  split
  · split
    · exact keeps_check _
    · exact keeps_failed
  · split
    · exact keeps_check _
    · exact keeps_failed
  · exact keeps_failed
  · exact .throw _

theorem keeps_remember {compute : SceneM σ ω Float} (hcompute : Keeps s.Learns compute) :
    Keeps s.Learns (Fitness.remember g i compute) := by
  have hrefresh : Keeps s.Learns (Fitness.refresh i) := fun t ht => ht.trans (.modify fun x => by
    unfold Individual.refresh
    split
    · exact ⟨_, _, rfl⟩
    · exact ⟨_, _, rfl⟩)
  have hlookUp : Keeps s.Learns (Fitness.lookUp g i compute) := by
    refine .bind (SceneM.keeps_individual i) fun x => ?_
    split
    · exact .pure _
    · exact hcompute.bind fun v => .bind (fun t ht => ht.trans (.modify fun x => ⟨_, _, rfl⟩)) fun _ => .pure _
  unfold Fitness.remember
  refine .bind (SceneM.keeps_individual i) fun x => ?_
  exact .ite (.bind hrefresh fun _ => hlookUp) hlookUp

theorem keeps_fitness (g : Goal) (i : Nat) : Keeps s.Learns (fitness subject g i) := by
  induction g generalizing i with
  | atom n =>
    rw [fitness]
    refine keeps_remember (.bind (SceneM.keeps_individual i) fun x => .bind (keeps_act _) fun verdict => ?_)
    exact keeps_ofVerdict verdict
  | overSuite serial inner ih =>
    rw [fitness]
    refine keeps_remember (.bind (SceneM.keeps_individual i) fun x => ?_)
    split
    · exact .bind (.mapM ih) fun _ => keeps_check _
    · exact keeps_failed

theorem keeps_covers (g : Goal) (i : Nat) : Keeps s.Learns (Individual.covers subject g i) :=
  .bind (keeps_fitness g i) fun _ => .pure _

theorem keeps_allCover (l : List (Goal × Nat)) : Keeps s.Learns (SearchM.allCover subject l) := by
  induction l with
  | nil => exact .pure _
  | cons p l ih => exact .bind (keeps_covers _ _) fun _ => .ite ih (.pure _)

end Learns

/-! ### Making and changing individuals -/

/-- The property survives new individuals, and changes to individuals that leave their age, rank and distance alone. -/
structure Timeless (P : Scene σ ω → Prop) : Prop where
  push : ∀ s x, P s → P (s.push x)
  modify : ∀ s i f, (∀ x, (f x).age = x.age ∧ (f x).rank = x.rank ∧ (f x).distance = x.distance) → P s →
    P (s.modify i f)

end Scene

namespace Individual
variable {P : Scene σ ω → Prop} (hP : Scene.Timeless P)
include hP

theorem keeps_addFunction (i : Nat) (g : Goal) : Keeps P (addFunction subject i g) := by
  have hadded : Keeps P (SceneM.update i fun x : Individual σ => { x with functions := x.functions ++ [g] }) :=
    fun s hs => hP.modify s i _ (fun _ => ⟨rfl, rfl, rfl⟩) hs
  exact .ite (.bind (.throw _) fun _ => hadded) hadded

theorem keeps_build (plan : Blueprint σ) : Keeps P (build subject plan) :=
  .bind (fun s hs => hP.push s _ hs) fun i => .bind (.forM (keeps_addFunction hP i)) fun _ => .pure _

theorem keeps_cloneWithin (depth i : Nat) : Keeps P (cloneWithin depth i) := by
  have hadd : ∀ x, Keeps P (SceneM.add x) := fun x s hs => hP.push s x hs
  induction depth generalizing i with
  | zero => exact .throw _
  | succ depth ih =>
    unfold cloneWithin
    refine .bind (SceneM.keeps_individual i) fun x => ?_
    split
    · exact .bind (.mapM ih) fun _ => hadd _
    · exact hadd _

theorem keeps_clone (i : Nat) : Keeps P (clone i) :=
  .bind (fun _ hs => hs) fun depth => keeps_cloneWithin hP depth i

theorem keeps_mutate (hmutate : ∀ n statements s, P s →
      P { s with outside := (subject.mutate n (statements, s.outside)).2.2 }) (i : Nat) :
    Keeps P (mutate subject i) := by
  unfold mutate
  refine .bind (SceneM.keeps_individual i) fun x => ?_
  split
  · rename_i statements operator _
    refine .bind (fun s hs => hmutate operator statements s hs) fun mutated => ?_
    refine .bind (fun s hs => hP.modify s i _ (fun _ => ⟨rfl, rfl, rfl⟩) hs) fun _ => .bind (fun _ hs => hs) fun altered => ?_
    exact .ite (fun s hs => hP.modify s i _ (fun _ => ⟨rfl, rfl, rfl⟩) hs) (.pure _)
  · exact .throw _
  · exact .throw _

end Individual

/-! ### Ages -/

namespace Scene

/-- Nobody leaves the pool or gets another rank or distance, and whose age changes is as old as the generation
afterwards. -/
structure Ages (s : Scene σ ω) (generation : Int) (t : Scene σ ω) : Prop where
  size_le : s.pool.size ≤ t.pool.size
  age : ∀ i < s.pool.size, (t.individual i).age = (s.individual i).age ∨ (t.individual i).age = generation
  rank : ∀ i < s.pool.size, (t.individual i).rank = (s.individual i).rank
  distance : ∀ i < s.pool.size, (t.individual i).distance = (s.individual i).distance

namespace Ages

theorem of_learns (h : s.Learns t) : s.Ages generation t where
  size_le := Nat.le_of_eq h.size.symm
  age i _ := .inl (h.age i)
  rank i _ := h.rank i
  distance i _ := h.distance i

theorem refl (s : Scene σ ω) (generation : Int) : s.Ages generation s := .of_learns (.refl s)

theorem trans (h : s.Ages generation t) (h' : t.Ages generation u) : s.Ages generation u where
  size_le := Nat.le_trans h.size_le h'.size_le
  age i hi := by
    rcases h'.age i (Nat.lt_of_lt_of_le hi h.size_le) with hu | hu
    · rw [hu]
      exact h.age i hi
    · exact .inr hu
  rank i hi := (h'.rank i (Nat.lt_of_lt_of_le hi h.size_le)).trans (h.rank i hi)
  distance i hi := (h'.distance i (Nat.lt_of_lt_of_le hi h.size_le)).trans (h.distance i hi)

theorem modify {f : Individual σ → Individual σ} (hage : ∀ x, (f x).age = x.age ∨ (f x).age = generation)
    (hplace : ∀ x, (f x).rank = x.rank ∧ (f x).distance = x.distance) : s.Ages generation (s.modify i f) := by
  have hcases := s.individual_modify i
  refine ⟨Nat.le_of_eq size_modify.symm, fun j _ => ?_, fun j _ => ?_, fun j _ => ?_⟩
  · rcases hcases j f with h | h
    · rw [h]
      exact hage _
    · exact .inl (congrArg Individual.age h)
  · rcases hcases j f with h | h
    · rw [h]
      exact (hplace _).1
    · rw [h]
  · rcases hcases j f with h | h
    · rw [h]
      exact (hplace _).2
    · rw [h]

theorem push (x : Individual σ) : s.Ages generation (s.push x) where
  size_le := by simp
  age j hj := .inl (by rw [individual_push_lt hj])
  rank j hj := by rw [individual_push_lt hj]
  distance j hj := by rw [individual_push_lt hj]

theorem timeless : Timeless (s.Ages generation) where
  push _ x ht := ht.trans (.push x)
  modify _ _ _ hf ht := ht.trans (.modify (fun x => .inl (hf x).1) fun x => (hf x).2)

theorem keeps_of_learns {y : SceneM σ ω α} (hy : ∀ t : Scene σ ω, Keeps t.Learns y) : Keeps (s.Ages generation) y :=
  fun t ht => ht.trans (.of_learns (hy t t (.refl t)))

theorem keeps_act (f : ω → Except Fault α × ω) : Keeps (s.Ages generation) (SceneM.act f) :=
  keeps_of_learns fun _ => .keeps_act f

theorem keeps_mutate (i : Nat) : Keeps (s.Ages generation) (Individual.mutate subject i) :=
  Individual.keeps_mutate timeless (fun _ _ _ ht => ht.trans (.of_learns (.of_pool rfl))) i

/-- A copy is new to the pool. -/
theorem wp_clone (s : Scene σ ω) (generation : Int) (i : Nat) :
    wp (Individual.clone i) (fun k t => s.pool.size ≤ k ∧ k < t.pool.size ∧ s.Ages generation t)
      (fun _ t => s.Ages generation t) s := by
  have hadd : ∀ {t : Scene σ ω} (x : Individual σ), s.Ages generation t →
      s.pool.size ≤ t.pool.size ∧ t.pool.size < (t.push x).pool.size ∧ s.Ages generation (t.push x) := fun x ht =>
    ⟨ht.size_le, by simp, timeless.push _ x ht⟩
  unfold Individual.clone Individual.cloneWithin
  refine wp_seq (Q := fun depth t => depth = s.pool.size + 1 ∧ t = s) ⟨rfl, rfl⟩ fun depth t hpost => ?_
  obtain ⟨rfl, rfl⟩ := hpost
  rw [wp_bind, SceneM.wp_individual]
  split
  · have hmembers : ∀ l : List Nat, Keeps (t.Ages generation) (l.mapM (Individual.cloneWithin t.pool.size)) :=
      fun _ => .mapM fun k => Individual.keeps_cloneWithin timeless _ k
    exact wp_seq (Keeps.iff_wp.1 (hmembers _) t (.refl t generation)) fun _ u hu => hadd _ hu
  · exact hadd _ (.refl t generation)

end Ages

end Scene

end GoalSearch
