import GoalSearch.Proofs.Postcondition
import Mathlib.Data.List.Forall2

/-!
# Two runs side by side

`Mirrors R V x y`: on two states related by `R` the computations `x` and `y` end alike, both normally with values
related by `V` or both with the same fault, and again in states related by `R`. What two runs may differ in is what
`R` leaves open, so that a relation kept by every step is kept by the whole runs.
-/

namespace GoalSearch

variable {S T α β γ δ ε : Type}

/-- Both are values related by `V`, or both are the same fault. -/
inductive Matches (V : α → β → Prop) : Except Fault α → Except Fault β → Prop
  | ok {a : α} {b : β} : V a b → Matches V (.ok a) (.ok b)
  | error (e : Fault) : Matches V (.error e) (.error e)

namespace Matches
variable {V W : α → β → Prop} {r : Except Fault α} {q : Except Fault β}

theorem mono (h : Matches V r q) (hVW : ∀ a b, V a b → W a b) : Matches W r q := by
  cases h with
  | ok h => exact .ok (hVW _ _ h)
  | error e => exact .error e

theorem refl (r : Except Fault α) : Matches Eq r r := by
  cases r with
  | ok a => exact .ok rfl
  | error e => exact .error e

theorem eq {r q : Except Fault α} (h : Matches Eq r q) : r = q := by
  cases h with
  | ok h => exact congrArg _ h
  | error e => rfl

end Matches

/-- Two runs that ended alike, in related states. -/
structure Ends (R : S → T → Prop) (V : α → β → Prop) (r : Except Fault α × S) (q : Except Fault β × T) : Prop where
  outcome : Matches V r.1 q.1
  state : R r.2 q.2

/-- On related states the computations end alike, in related states. -/
def Mirrors (R : S → T → Prop) (V : α → β → Prop) (x : ExceptT Fault (StateM S) α)
    (y : ExceptT Fault (StateM T) β) : Prop :=
  ∀ s t, R s t → Ends R V (x.run s) (y.run t)

/-- The same state, in which `I` holds. -/
def Same (I : S → Prop) (s t : S) : Prop := s = t ∧ I s

variable {R : S → T → Prop} {V : α → β → Prop} {W : γ → δ → Prop}
  {x : ExceptT Fault (StateM S) α} {y : ExceptT Fault (StateM T) β}
  {f : α → ExceptT Fault (StateM S) γ} {g : β → ExceptT Fault (StateM T) δ} {s : S} {t : T}

/-- One computation after the other, where it matters that the second goes on from the end of the first. -/
theorem Ends.bind_run {R' : S → T → Prop} (h : Ends R V (x.run s) (y.run t)) (hfault : ∀ s t, R s t → R' s t)
    (hfg : ∀ a b s' t', x.run s = (.ok a, s') → y.run t = (.ok b, t') → V a b → R s' t' →
      Ends R' W ((f a).run s') ((g b).run t')) :
    Ends R' W ((x >>= f).run s) ((y >>= g).run t) := by
  rw [run_bind, run_bind]
  generalize x.run s = r at h hfg ⊢
  generalize y.run t = q at h hfg ⊢
  obtain ⟨r, s'⟩ := r
  obtain ⟨q, t'⟩ := q
  obtain ⟨houtcome, hstate⟩ := h
  cases houtcome with
  | ok h => exact hfg _ _ s' t' rfl rfl h hstate
  | error e => exact ⟨.error e, hfault _ _ hstate⟩

theorem Ends.bind (h : Ends R V (x.run s) (y.run t)) (hfg : ∀ a b, V a b → Mirrors R W (f a) (g b)) :
    Ends R W ((x >>= f).run s) ((y >>= g).run t) :=
  h.bind_run (fun _ _ h => h) fun a b s' t' _ _ hab hst => hfg a b hab s' t' hst

theorem Ends.mono {R' : S → T → Prop} {r : Except Fault α × S} {q : Except Fault β × T} (h : Ends R V r q)
    (hR : ∀ s t, R s t → R' s t) : Ends R' V r q := ⟨h.outcome, hR _ _ h.state⟩

namespace Mirrors

theorem mono {V' : α → β → Prop} (h : Mirrors R V x y) (hV : ∀ a b, V a b → V' a b) : Mirrors R V' x y :=
  fun s t hst => ⟨(h s t hst).outcome.mono hV, (h s t hst).state⟩

theorem pure {a : α} {b : β} (h : V a b) : Mirrors R V (Pure.pure a) (Pure.pure b) := fun _ _ hst => ⟨.ok h, hst⟩

theorem throw (e : Fault) : Mirrors R V (throw e) (throw e) := fun _ _ hst => ⟨.error e, hst⟩

theorem bind (h : Mirrors R V x y) (hfg : ∀ a b, V a b → Mirrors R W (f a) (g b)) :
    Mirrors R W (x >>= f) (y >>= g) :=
  fun s t hst => (h s t hst).bind hfg

/-- The same value is handed on. -/
theorem seq {y : ExceptT Fault (StateM T) α} {g : α → ExceptT Fault (StateM T) δ} (h : Mirrors R Eq x y)
    (hfg : ∀ a, Mirrors R W (f a) (g a)) : Mirrors R W (x >>= f) (y >>= g) :=
  h.bind fun a _ hab => hab ▸ hfg a

/-- The same value is handed on, and it is as the first computation always makes it. -/
theorem seq_of_wp {y : ExceptT Fault (StateM T) α} {g : α → ExceptT Fault (StateM T) δ} {P : α → Prop}
    (h : Mirrors R Eq x y) (hP : ∀ s, wp x (fun a _ => P a) (fun _ _ => True) s)
    (hfg : ∀ a, P a → Mirrors R W (f a) (g a)) : Mirrors R W (x >>= f) (y >>= g) := by
  intro s t hst
  refine (h s t hst).bind_run (fun _ _ h => h) ?_
  rintro a _ s' t' hrun - rfl hst'
  exact hfg a (post_of_run_eq (hP s) hrun) s' t' hst'

theorem get : Mirrors R R (get : ExceptT Fault (StateM S) S) (get : ExceptT Fault (StateM T) T) :=
  fun _ _ hst => ⟨.ok hst, hst⟩

theorem modify {j : S → S} {k : T → T} (h : ∀ s t, R s t → R (j s) (k t)) :
    Mirrors R Eq (modify j : ExceptT Fault (StateM S) PUnit) (modify k : ExceptT Fault (StateM T) PUnit) :=
  fun s t hst => ⟨.ok rfl, h s t hst⟩

theorem ite {c d : Prop} [Decidable c] [Decidable d] {x' : ExceptT Fault (StateM S) α}
    {y' : ExceptT Fault (StateM T) β} (hcd : c ↔ d) (h : Mirrors R V x y) (h' : Mirrors R V x' y') :
    Mirrors R V (if c then x else x') (if d then y else y') := by
  by_cases hc : c
  · rw [if_pos hc, if_pos (hcd.1 hc)]
    exact h
  · rw [if_neg hc, if_neg fun hd => hc (hcd.2 hd)]
    exact h'

theorem forM {l : List ε} {f : ε → ExceptT Fault (StateM S) PUnit} {g : ε → ExceptT Fault (StateM T) PUnit}
    (h : ∀ a ∈ l, Mirrors R Eq (f a) (g a)) : Mirrors R Eq (l.forM f) (l.forM g) := by
  induction l with
  | nil => exact pure rfl
  | cons a l ih =>
    show Mirrors R Eq (f a >>= fun _ => l.forM f) (g a >>= fun _ => l.forM g)
    exact (h a (by simp)).seq fun _ => ih fun b hb => h b (by simp [hb])

theorem mapM {l : List ε} {f : ε → ExceptT Fault (StateM S) α} {g : ε → ExceptT Fault (StateM T) β}
    (h : ∀ a ∈ l, Mirrors R V (f a) (g a)) : Mirrors R (List.Forall₂ V) (l.mapM f) (l.mapM g) := by
  induction l with
  | nil => exact pure .nil
  | cons a l ih =>
    rw [List.mapM_cons, List.mapM_cons]
    refine (h a (by simp)).bind fun b c hbc => ?_
    exact (ih fun b hb => h b (by simp [hb])).bind fun bs cs hbcs => pure (.cons hbc hbcs)

theorem mapM_eq {l : List ε} {f : ε → ExceptT Fault (StateM S) α} {g : ε → ExceptT Fault (StateM T) α}
    (h : ∀ a ∈ l, Mirrors R Eq (f a) (g a)) : Mirrors R Eq (l.mapM f) (l.mapM g) :=
  (mapM h).mono fun _ _ h => by rwa [List.forall₂_eq_eq_eq] at h

/-- On the same states, where `I` holds, the computations have the same run, which keeps `I`. -/
theorem of_same {I : S → Prop} {x y : ExceptT Fault (StateM S) α} (h : ∀ s, I s → y.run s = x.run s ∧ I (x.run s).2) :
    Mirrors (Same I) Eq x y := by
  rintro s _ ⟨rfl, hs⟩
  obtain ⟨hrun, hI⟩ := h s hs
  rw [hrun]
  exact ⟨.refl _, rfl, hI⟩

theorem of_keeps {I : S → Prop} {x : ExceptT Fault (StateM S) α} (h : Keeps I x) : Mirrors (Same I) Eq x x :=
  of_same fun s hs => ⟨rfl, h s hs⟩

theorem run_eq {I : S → Prop} {s : S} {x y : ExceptT Fault (StateM S) α} (h : Mirrors (Same I) Eq x y) (hs : I s) :
    y.run s = x.run s := by
  obtain ⟨houtcome, hstate, -⟩ := h s s ⟨rfl, hs⟩
  exact Prod.ext houtcome.eq.symm hstate.symm

end Mirrors

end GoalSearch
